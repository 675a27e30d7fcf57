import NodeAgent.Schedule.PeriodicTask

/-!
Periodic tasks on one clock. The clock stands while anything is to be done and then moves to the
next timer; timers that are due at the same instant go off in the order in which they were set.
What the tasks do is given from outside: a run is a row of turns with waits between them.
-/

namespace NodeAgent

inductive Turn (ρ : Type)
  | finished (outcome : Outcome)
  /-- The next turn comes so many milliseconds later, and begins with `result`. -/
  | wait (delay : Nat) (result : ρ)

/-- The actions of tasks that are known by keys of type `κ` and work on a state of type `σ`. -/
structure Actions (κ ρ σ : Type) where
  enter : κ → Instant → σ → σ × Turn ρ
  resume : κ → ρ → Instant → σ → σ × Turn ρ

inductive Alarm (ρ : Type)
  | tick (task loop : Nat)
  | resume (task : Nat) (result : ρ)

structure Timer (ρ : Type) where
  due : Instant
  alarm : Alarm ρ

structure Scheduled (κ : Type) where
  key : κ
  task : PeriodicTask

structure Timetable (κ ρ σ : Type) where
  state : σ
  now : Instant := 0
  tasks : List (Scheduled κ) := []
  /-- In the order in which they were set. -/
  timers : List (Timer ρ) := []

namespace Timer

variable {ρ : Type}

/-- Of the timers that are due by `limit`, the earliest, and the rest. -/
def takeFirst (limit : Instant) : List (Timer ρ) → Option (Timer ρ × List (Timer ρ))
  | [] => none
  | t :: r =>
    match takeFirst limit r with
    | none => if t.due ≤ limit then some (t, r) else none
    | some (u, rest) => if t.due ≤ u.due then some (t, r) else some (u, t :: rest)

end Timer

namespace Timetable

variable {κ ρ σ : Type}

def task? (s : Timetable κ ρ σ) (i : Nat) : Option PeriodicTask := (s.tasks[i]?).map (·.task)

def setTask (s : Timetable κ ρ σ) (i : Nat) (t : PeriodicTask) : Timetable κ ρ σ :=
  { s with tasks := s.tasks.modify i fun e => { e with task := t } }

def setTimer (s : Timetable κ ρ σ) (due : Instant) (a : Alarm ρ) : Timetable κ ρ σ :=
  { s with timers := s.timers ++ [⟨due, a⟩] }

def arm (s : Timetable κ ρ σ) (i loop : Nat) : Timetable κ ρ σ :=
  match (s.task? i).bind fun t => (t.loops[loop]?).bind Loop.due? with
  | some due => s.setTimer due (.tick i loop)
  | none => s

def add (s : Timetable κ ρ σ) (key : κ) (period : Nat) : Timetable κ ρ σ :=
  { s with tasks := s.tasks ++ [⟨key, { period }⟩] }

def start (s : Timetable κ ρ σ) (i : Nat) (delayed : Bool) : Timetable κ ρ σ :=
  match s.task? i with
  | none => s
  | some t =>
    if t.isOpen then s
    else (s.setTask i (t.start delayed s.now)).arm i t.loops.length

def close (s : Timetable κ ρ σ) (i : Nat) : Timetable κ ρ σ :=
  match s.task? i with
  | none => s
  | some t => s.setTask i t.close

/-- Task `i` changes from `old` to `new`; a run that has begun by this takes its turn. -/
def settle (f : Actions κ ρ σ) (i : Nat) (turn : Timetable κ ρ σ → Turn ρ → Timetable κ ρ σ)
    (s : Timetable κ ρ σ) (old new : PeriodicTask) : Timetable κ ρ σ :=
  let s := s.setTask i new
  if new.begun = old.begun then s
  else
    match s.tasks[i]? with
    | none => s
    | some e =>
      let (state, t) := f.enter e.key s.now s.state
      turn { s with state } t

/-- A turn of task `i` has ended. At most `fuel` waiting runs follow at once. -/
def endTurn (f : Actions κ ρ σ) (i : Nat) : Nat → Timetable κ ρ σ → Turn ρ → Timetable κ ρ σ
  | _, s, .wait delay result => s.setTimer (s.now + delay) (.resume i result)
  | 0, s, .finished _ => s
  | fuel + 1, s, .finished outcome =>
    match s.task? i with
    | none => s
    | some t =>
      let s := s.settle f i (endTurn f i fuel) t (t.finish outcome)
      match t.holder? with
      | some loop => s.arm i loop
      | none => s

/-- A run that begins leaves the queue, so that no more can follow than wait. -/
def turnsFor (t : PeriodicTask) : Nat := t.queue.length + 1

def fire (f : Actions κ ρ σ) (s : Timetable κ ρ σ) : Alarm ρ → Timetable κ ρ σ
  | .tick i loop =>
    match s.task? i with
    | none => s
    | some t => s.settle f i (endTurn f i (turnsFor t)) t (t.tick loop s.now)
  | .resume i result =>
    match s.tasks[i]? with
    | none => s
    | some e =>
      let (state, turn) := f.resume e.key result s.now s.state
      { s with state }.endTurn f i (turnsFor e.task) turn

/-- At most `fuel` timers up to the instant `limit`. -/
def run (f : Actions κ ρ σ) (limit : Instant) : Nat → Timetable κ ρ σ → Timetable κ ρ σ
  | 0, s => s
  | fuel + 1, s =>
    match Timer.takeFirst limit s.timers with
    | none => s
    | some (t, timers) =>
      run f limit fuel ({ s with timers, now := max s.now t.due }.fire f t.alarm)

/-- No run has more waits than this. -/
def mostWaits : Nat := 4

/-- Every loop has a tick a millisecond at most, and a few more if it is a little late. -/
def fuelFor (s : Timetable κ ρ σ) (limit : Instant) : Nat :=
  let loops := (s.tasks.map fun e => e.task.loops.length).foldr (· + ·) 0
  2 * mostWaits * (limit - s.now + tickTolerance + 3) * (loops + s.timers.length + 1)

def advanceTo (f : Actions κ ρ σ) (s : Timetable κ ρ σ) (limit : Instant) : Timetable κ ρ σ :=
  let s := s.run f limit (s.fuelFor limit)
  { s with now := max s.now limit }

end Timetable

end NodeAgent
