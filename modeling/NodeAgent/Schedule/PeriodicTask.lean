import NodeAgent.Calendar

/-!
A task that repeats one action. Each start makes a loop of its own, which ticks on a grid of due
times and runs the action at each tick. All loops of a task share one lock, so that a run waits for
the one before it, and the waiting ones are served in the order in which they came. Closing cancels
a loop: a run in progress goes on to its end, and no other begins.
-/

namespace NodeAgent

inductive Outcome
  | ok
  | failed
  /-- Ends the loop without a word. -/
  | panicked
  deriving DecidableEq, Repr

/-- A tick may be handled this much too late and still count as on time. -/
def tickTolerance : Nat := 5

/-- After a late tick the ones that were missed are skipped, and the grid is kept. -/
def nextDue (period : Nat) (due now : Instant) : Instant :=
  if due + tickTolerance < now then now + period - (now - due) % period else due + period

inductive Phase
  /-- For its tick. -/
  | waiting (due : Instant)
  /-- Had its tick and waits for the lock; `due` is the tick after it. -/
  | queued (due : Instant)
  | running (due : Instant)
  | ended
  deriving DecidableEq, Repr

structure Loop where
  phase : Phase
  cancelled : Bool := false
  deriving DecidableEq, Repr

/-- Loops are numbered in the order of their starts. -/
structure PeriodicTask where
  period : Nat
  loops : List Loop := []
  /-- The loops that wait for the lock, the first one first. -/
  queue : List Nat := []
  /-- Started, and not closed since. -/
  isOpen : Bool := false
  begun : Nat := 0
  deriving DecidableEq, Repr

namespace Loop

def isRunning (l : Loop) : Bool :=
  match l.phase with
  | .running _ => true
  | _ => false

def cancel (l : Loop) : Loop :=
  match l.phase with
  | .waiting _ => ⟨.ended, true⟩
  | phase => ⟨phase, true⟩

/-- When it has to be looked at next, if it waits for a tick. -/
def due? (l : Loop) : Option Instant :=
  match l.phase with
  | .waiting due => some due
  | _ => none

end Loop

namespace PeriodicTask

def holder? (t : PeriodicTask) : Option Nat := t.loops.findIdx? Loop.isRunning

def setLoop (t : PeriodicTask) (i : Nat) (l : Loop) : PeriodicTask :=
  { t with loops := t.loops.set i l }

/-- A period of zero ends the new loop at once, though the task counts as started. -/
def newLoop (t : PeriodicTask) (delayed : Bool) (now : Instant) : Loop :=
  if t.period = 0 then ⟨.ended, false⟩
  else ⟨.waiting (if delayed then now + t.period else now), false⟩

def start (t : PeriodicTask) (delayed : Bool) (now : Instant) : PeriodicTask :=
  if t.isOpen then t else { t with loops := t.loops ++ [t.newLoop delayed now], isOpen := true }

def close (t : PeriodicTask) : PeriodicTask :=
  { t with loops := t.loops.map Loop.cancel, isOpen := false }

/-- Gives the lock to the first loop of the queue that was not cancelled. -/
def grant (t : PeriodicTask) : List Nat → PeriodicTask
  | [] => { t with queue := [] }
  | i :: rest =>
    match t.loops[i]? with
    | some ⟨.queued due, false⟩ =>
      { t.setLoop i ⟨.running due, false⟩ with queue := rest, begun := t.begun + 1 }
    | some l => grant (t.setLoop i ⟨.ended, l.cancelled⟩) rest
    | none => grant t rest

/-- Loop `i` has its tick, if one is due. -/
def tick (t : PeriodicTask) (i : Nat) (now : Instant) : PeriodicTask :=
  match t.loops[i]? with
  | some ⟨.waiting due, cancelled⟩ =>
    if due ≤ now then
      let t := t.setLoop i ⟨.queued (nextDue t.period due now), cancelled⟩
      if t.holder?.isSome then { t with queue := t.queue ++ [i] } else t.grant (t.queue ++ [i])
    else t
  | _ => t

/-- The run in progress ends, and the lock goes on. -/
def finish (t : PeriodicTask) (outcome : Outcome) : PeriodicTask :=
  match t.holder? with
  | none => t
  | some i =>
    match t.loops[i]? with
    | some ⟨.running due, cancelled⟩ =>
      let last := cancelled || outcome == .panicked
      let t := t.setLoop i ⟨if last then .ended else .waiting due, cancelled⟩
      t.grant t.queue
    | _ => t

end PeriodicTask

end NodeAgent
