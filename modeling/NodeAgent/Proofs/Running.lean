import NodeAgent.World

/-!
A node that has started, and all that may happen to it. Its two tasks that talk to the panel have at
most one run at a time each; a run stops at every request, and the data path and the other task go on
meanwhile. A run of the node is any list of such events, with any answers.
-/

namespace NodeAgent

inductive Errand
  | idle
  | waiting (s : Stage)
  /-- A run went out of the range of words, and no other begins. -/
  | dead
  deriving DecidableEq

def Errand.after : Progress → Errand
  | .ask s => .waiting s
  | .enroll _ => .idle
  | .finished (.error (.overflow _)) => .dead
  | .finished _ => .idle

theorem Errand.after_eq_waiting {progress : Progress} {stage : Stage} :
    Errand.after progress = .waiting stage ↔ progress = .ask stage := by
  cases progress with
  | ask => simp [after]
  | enroll => simp [after]
  | finished r => rcases r with (f | o) | u <;> simp [after]

theorem Errand.after_eq_dead {progress : Progress} :
    Errand.after progress = .dead ↔ ∃ o, progress = .finished (.error (.overflow o)) := by
  cases progress with
  | ask => simp [after]
  | enroll _ => simp [after]
  | finished r => rcases r with (f | o) | u <;> simp [after]

structure RunningNode (ε : Type) where
  session : Session
  core : Core ε
  sync : Errand := .idle
  report : Errand := .idle

inductive NodeEvent
  | account (node user : String) (upload download : UInt64)
  | elapse (now : Instant)
  | note (call : Call)
  | beginSync
  | alive (a : Except PanelError AliveCounts)
  | users (a : Except PanelError (Option (List User)))
  | invalidated
  | beginReport
  | posted (a : Except PanelError Unit)

namespace NodeEvent

def list? : NodeEvent → Option (List User)
  | .users (.ok l) => l
  | _ => none

theorem eq_of_list? {e : NodeEvent} {l : List User} (h : e.list? = some l) :
    e = .users (.ok (some l)) := by
  cases e with
  | users a =>
    rcases a with err | users
    · cases h
    · exact congrArg (fun o => NodeEvent.users (.ok o)) h
  | _ => cases h

def lists (es : List NodeEvent) : List (List User) := es.filterMap list?

theorem mem_lists {es : List NodeEvent} {e : NodeEvent} {l : List User} (he : e ∈ es)
    (hl : e.list? = some l) : l ∈ lists es := List.mem_filterMap.2 ⟨e, he, hl⟩

end NodeEvent

namespace RunningNode

variable {ε χ π : Type}

def ofPlace (p : Place χ ε π) : RunningNode ε where
  session := p.node.session
  core := p.core

variable [Engine ε]

def answerSync (x : RunningNode ε) (stage : Stage) (a : stage.request.Answer) : RunningNode ε :=
  let r := x.session.resume x.core stage a
  { x with session := r.session, core := r.core, sync := .after r.progress }

def answerReport (x : RunningNode ε) (stage : Stage) (a : stage.request.Answer) : RunningNode ε :=
  let r := x.session.resume x.core stage a
  { x with session := r.session, core := r.core, report := .after r.progress }

/-- An answer that nobody waits for changes nothing. -/
def step (x : RunningNode ε) : NodeEvent → RunningNode ε
  | .account node user upload download =>
    { x with core := x.core.account node user upload download }
  | .elapse now => { x with core := { x.core with now } }
  | .note call => { x with core := x.core.note call }
  | .beginSync => if x.sync = .idle then { x with sync := .waiting .alive } else x
  | .alive a => if x.sync = .waiting .alive then x.answerSync .alive a else x
  | .users a => if x.sync = .waiting .users then x.answerSync .users a else x
  | .invalidated =>
    match x.sync with
    | .waiting (.invalidate f) => x.answerSync (.invalidate f) ()
    | _ => x
  | .beginReport =>
    if x.report = .idle then
      let r := x.session.beginReport x.core
      { x with session := r.session, core := r.core, report := .after r.progress }
    else x
  | .posted a =>
    match x.report with
    | .waiting (.traffic l) => x.answerReport (.traffic l) a
    | .waiting (.online l) => x.answerReport (.online l) a
    | .waiting .status => x.answerReport .status a
    | _ => x

def run (x : RunningNode ε) : List NodeEvent → RunningNode ε
  | [] => x
  | e :: es => (x.step e).run es

theorem run_append (x : RunningNode ε) (es es' : List NodeEvent) :
    x.run (es ++ es') = (x.run es).run es' := by
  induction es generalizing x with
  | nil => rfl
  | cons e es ih => exact ih (x.step e)

/-- A record that is kept about a run: `f` brings it up to date with each event. -/
def record {γ : Type} (f : RunningNode ε → γ → NodeEvent → γ) (x : RunningNode ε) (g : γ) :
    List NodeEvent → γ
  | [] => g
  | e :: es => (x.step e).record f (f x g e) es

/-- What every event preserves of the node and the record holds at the end of the run. -/
theorem record_invariant {γ : Type} {f : RunningNode ε → γ → NodeEvent → γ}
    {P : RunningNode ε → γ → Prop} {es : List NodeEvent}
    (preserves : ∀ x g, ∀ e ∈ es, P x g → P (x.step e) (f x g e)) {x : RunningNode ε} {g : γ}
    (h : P x g) : P (x.run es) (x.record f g es) := by
  induction es generalizing x g with
  | nil => exact h
  | cons e es ih =>
    exact ih (fun y g' e' he' => preserves y g' e' (List.mem_cons_of_mem _ he'))
      (preserves x g e (List.mem_cons_self ..) h)

theorem run_invariant {P : RunningNode ε → Prop} {es : List NodeEvent}
    (preserves : ∀ x, ∀ e ∈ es, P x → P (x.step e)) {x : RunningNode ε} (h : P x) :
    P (x.run es) :=
  record_invariant (f := fun _ g _ => g) (P := fun x (_ : Unit) => P x) (g := ())
    (fun x _ => preserves x) h

end RunningNode

end NodeAgent
