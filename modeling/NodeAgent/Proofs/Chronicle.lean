import NodeAgent.Proofs.Observed

/-!
The calls made to tasks and the runs that come of them, as one dated list. A start counts for its
task until the next close of it; one that is made while another counts does nothing.
-/

namespace NodeAgent

inductive Happening
  | startCall (task : Nat) (delayed : Bool)
  | closeCall (task : Nat)
  | run (event : RunEvent)
  deriving DecidableEq, Repr

structure Dated where
  instant : Instant
  what : Happening
  deriving DecidableEq, Repr

def Dated.run? (d : Dated) : Option RunEvent :=
  match d.what with
  | .run event => some event
  | _ => none

/-- A start of a task that was not running. -/
structure StartCall where
  instant : Instant
  delayed : Bool
  deriving DecidableEq, Repr

def StartCall.firstRun (c : StartCall) (period : Nat) : Instant :=
  if c.delayed then c.instant + period else c.instant

/-- The start that counts for task `i` after `e`, if it was `current` before. -/
def inForce (i : Nat) (current : Option StartCall) (e : Dated) : Option StartCall :=
  match e.what with
  | .startCall j delayed => if j = i then current.or (some ⟨e.instant, delayed⟩) else current
  | .closeCall j => if j = i then none else current
  | .run _ => current

def startInForce (i : Nat) (past : List Dated) : Option StartCall := past.foldl (inForce i) none

/-- Every run of task `i` begins while a start counts, and not before the first run it asks for. -/
def Lawful (i period : Nat) : Option StartCall → List Dated → Prop
  | _, [] => True
  | current, e :: rest =>
    (e.what = .run (.begins i) → ∃ c ∈ current, c.firstRun period ≤ e.instant) ∧
      Lawful i period (inForce i current e) rest

section Dated

variable {i period : Nat} {current : Option StartCall} {past past' : List Dated} {e : Dated}

theorem inForce_startCall (i : Nat) (current : Option StartCall) (u : Instant) (j : Nat)
    (delayed : Bool) :
    inForce i current ⟨u, .startCall j delayed⟩ =
      if j = i then current.or (some ⟨u, delayed⟩) else current := rfl

theorem inForce_closeCall (i : Nat) (current : Option StartCall) (u : Instant) (j : Nat) :
    inForce i current ⟨u, .closeCall j⟩ = if j = i then none else current := rfl

theorem Lawful.append (h : Lawful i period current past)
    (h' : Lawful i period (past.foldl (inForce i) current) past') :
    Lawful i period current (past ++ past') := by
  induction past generalizing current with
  | nil => exact h'
  | cons e past ih => exact ⟨h.1, ih h.2 h'⟩

theorem Lawful.begins (h : Lawful i period current (past ++ e :: past'))
    (he : e.what = .run (.begins i)) :
    ∃ c ∈ past.foldl (inForce i) current, c.firstRun period ≤ e.instant := by
  induction past generalizing current with
  | nil => exact h.1 he
  | cons d past ih => exact ih h.2

theorem foldl_inForce_eq (h : ∀ e ∈ past, inForce i current e = current) :
    past.foldl (inForce i) current = current := by
  induction past with
  | nil => rfl
  | cons e past ih =>
    rw [List.foldl_cons, h e List.mem_cons_self]
    exact ih fun d hd => h d (List.mem_cons_of_mem _ hd)

theorem foldl_inForce_runs (i : Nat) (current : Option StartCall) (now : Instant)
    (es : List RunEvent) :
    (es.map fun e => ⟨now, .run e⟩ : List Dated).foldl (inForce i) current = current := by
  apply foldl_inForce_eq
  intro d hd
  obtain ⟨e, -, rfl⟩ := List.mem_map.1 hd
  rfl

theorem lawful_runs {now : Instant} {es : List RunEvent}
    (h : .begins i ∈ es → ∃ c ∈ current, c.firstRun period ≤ now) :
    Lawful i period current (es.map fun e => ⟨now, .run e⟩) := by
  induction es with
  | nil => trivial
  | cons e es ih =>
    refine ⟨fun he => h ?_, ih fun hmem => h (List.mem_cons_of_mem _ hmem)⟩
    rw [Happening.run.inj he]
    exact List.mem_cons_self

theorem foldl_inForce_none (h : ∀ u delayed, ⟨u, .startCall i delayed⟩ ∉ past) :
    past.foldl (inForce i) none = none := by
  apply foldl_inForce_eq
  rintro ⟨u, ⟨j, delayed⟩ | ⟨j⟩ | ⟨event⟩⟩ he
  · have hj : j ≠ i := by
      rintro rfl
      exact h u delayed he
    exact if_neg hj
  · exact ite_self none
  · rfl

theorem foldl_inForce_some {c : StartCall} (h : ∀ u, ⟨u, .closeCall i⟩ ∉ past) :
    past.foldl (inForce i) (some c) = some c := by
  apply foldl_inForce_eq
  rintro ⟨u, ⟨j, delayed⟩ | ⟨j⟩ | ⟨event⟩⟩ he
  · exact ite_self (some c)
  · have hj : j ≠ i := by
      rintro rfl
      exact h u he
    exact if_neg hj
  · rfl

theorem startInForce_closeCall (past : List Dated) (u : Instant) :
    startInForce i (past ++ [⟨u, .closeCall i⟩]) = none := by
  rw [startInForce, List.foldl_append]
  exact if_pos rfl

theorem startInForce_startCall (h : startInForce i past = none) (u : Instant) (delayed : Bool) :
    startInForce i (past ++ [⟨u, .startCall i delayed⟩]) = some ⟨u, delayed⟩ := by
  rw [startInForce, List.foldl_append, ← startInForce, h]
  exact if_pos rfl

end Dated

def Move.call? : Move → Option Happening
  | .start i delayed => some (.startCall i delayed)
  | .close i => some (.closeCall i)
  | .elapse _ | .fire _ => none

namespace Timetable

variable {κ ρ σ : Type}

def entries (f : Actions κ ρ σ) (s : Timetable (Nat × κ) ρ (σ × List RunEvent)) (m : Move) :
    List Dated :=
  let runs := (s.move f.logged m).state.2.drop s.state.2.length
  (m.call?.toList.map fun c => ⟨s.now, c⟩) ++ runs.map fun e => ⟨s.now, .run e⟩

def chronicle (f : Actions κ ρ σ) (s : Timetable (Nat × κ) ρ (σ × List RunEvent)) :
    List Move → List Dated
  | [] => []
  | m :: ms => s.entries f m ++ (s.move f.logged m).chronicle f ms

end Timetable

end NodeAgent
