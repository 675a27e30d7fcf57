import NodeAgent.Proofs.Timetable

/-!
Runs of tasks as they are seen from outside. Actions that write down when their runs begin and end are
put in the place of others; what happens is the same, with a log beside it.
-/

namespace NodeAgent

inductive RunEvent
  | begins (task : Nat)
  | ends (task : Nat)
  deriving DecidableEq, Repr

def RunEvent.task : RunEvent → Nat
  | begins task => task
  | ends task => task

section Actions

variable {κ ρ σ : Type}

def Turn.log (i : Nat) : Turn ρ → List RunEvent
  | .wait .. => []
  | .finished _ => [.ends i]

def Actions.logged (f : Actions κ ρ σ) : Actions (Nat × κ) ρ (σ × List RunEvent) where
  enter k now x :=
    let (y, turn) := f.enter k.2 now x.1
    ((y, x.2 ++ .begins k.1 :: turn.log k.1), turn)
  resume k r now x :=
    let (y, turn) := f.resume k.2 r now x.1
    ((y, x.2 ++ turn.log k.1), turn)

theorem Actions.enter_logged (f : Actions κ ρ σ) (k : Nat × κ) (now : Instant)
    (x : σ × List RunEvent) :
    let p := f.enter k.2 now x.1
    f.logged.enter k now x = ((p.1, x.2 ++ .begins k.1 :: p.2.log k.1), p.2) := rfl

theorem Actions.resume_logged (f : Actions κ ρ σ) (k : Nat × κ) (r : ρ) (now : Instant)
    (x : σ × List RunEvent) :
    let p := f.resume k.2 r now x.1
    f.logged.resume k r now x = ((p.1, x.2 ++ p.2.log k.1), p.2) := rfl

/-- What can happen to a timetable. Timers may go off in any order, and too late. -/
inductive Move
  | start (task : Nat) (delayed : Bool)
  | close (task : Nat)
  | elapse (now : Instant)
  | fire (n : Nat)
  deriving DecidableEq, Repr

namespace Timetable

def ofTasks (x : σ) (tasks : List (κ × Nat)) : Timetable κ ρ σ where
  state := x
  tasks := tasks.map fun (key, period) => ⟨key, { period }⟩

def observed (x : σ) (tasks : List (κ × Nat)) : Timetable (Nat × κ) ρ (σ × List RunEvent) where
  state := (x, [])
  tasks := tasks.mapIdx fun i (key, period) => ⟨(i, key), { period }⟩

def move (f : Actions κ ρ σ) (s : Timetable κ ρ σ) : Move → Timetable κ ρ σ
  | .start i delayed => s.start i delayed
  | .close i => s.close i
  | .elapse now => { s with now := max s.now now }
  | .fire n =>
    match s.timers[n]? with
    | some t => if t.due ≤ s.now then { s with timers := s.timers.eraseIdx n }.fire f t.alarm else s
    | none => s

def play (f : Actions κ ρ σ) (s : Timetable κ ρ σ) : List Move → Timetable κ ρ σ
  | [] => s
  | m :: ms => (s.move f m).play f ms

theorem play_append (f : Actions κ ρ σ) (s : Timetable κ ρ σ) (ms ms' : List Move) :
    s.play f (ms ++ ms') = (s.play f ms).play f ms' := by
  induction ms generalizing s with
  | nil => rfl
  | cons m ms ih => exact ih (s.move f m)

theorem run_is_play (f : Actions κ ρ σ) (limit : Instant) (fuel : Nat) (s : Timetable κ ρ σ) :
    ∃ ms, s.run f limit fuel = s.play f ms := by
  induction fuel generalizing s with
  | zero => exact ⟨[], rfl⟩
  | succ fuel ih =>
    rw [Timetable.run]
    split
    · exact ⟨[], rfl⟩
    next t timers hfirst =>
      obtain ⟨n, hn, rfl⟩ := Timer.takeFirst_eq_some hfirst
      obtain ⟨ms, hms⟩ := ih ({ s with timers := s.timers.eraseIdx n, now := max s.now t.due }.fire f
        t.alarm)
      have hfire : (s.move f (.elapse t.due)).move f (.fire n) =
          { s with timers := s.timers.eraseIdx n, now := max s.now t.due }.fire f t.alarm := by
        simp only [move, hn]
        exact if_pos (Nat.le_max_right ..)
      exact ⟨.elapse t.due :: .fire n :: ms, by rw [play, play, hfire, hms]⟩

theorem advanceTo_is_play (f : Actions κ ρ σ) (s : Timetable κ ρ σ) (limit : Instant) :
    ∃ ms, s.advanceTo f limit = s.play f ms := by
  obtain ⟨ms, hms⟩ := s.run_is_play f limit (s.fuelFor limit)
  exact ⟨ms ++ [.elapse limit], by rw [play_append, ← hms]; rfl⟩

variable {f : Actions κ ρ σ} {turn : Timetable (Nat × κ) ρ (σ × List RunEvent) → Turn ρ →
  Timetable (Nat × κ) ρ (σ × List RunEvent)}

def unobserved (s : Timetable (Nat × κ) ρ (σ × List RunEvent)) : Timetable κ ρ σ where
  state := s.state.1
  now := s.now
  tasks := s.tasks.map fun e => ⟨e.key.2, e.task⟩
  timers := s.timers

theorem getElem?_unobserved (s : Timetable (Nat × κ) ρ (σ × List RunEvent)) (i : Nat) :
    s.unobserved.tasks[i]? = (s.tasks[i]?).map fun e => ⟨e.key.2, e.task⟩ :=
  List.getElem?_map

theorem task?_unobserved (s : Timetable (Nat × κ) ρ (σ × List RunEvent)) (i : Nat) :
    s.unobserved.task? i = s.task? i := by
  rw [task?, task?, getElem?_unobserved, Option.map_map]
  rfl

theorem setTask_unobserved (s : Timetable (Nat × κ) ρ (σ × List RunEvent)) (i : Nat)
    (t : PeriodicTask) : (s.setTask i t).unobserved = s.unobserved.setTask i t := by
  simp only [unobserved, setTask, Timetable.mk.injEq, true_and, and_true]
  refine List.ext_getElem? fun j => ?_
  simp only [List.getElem?_map, List.getElem?_modify]
  cases s.tasks[j]? with
  | none => rfl
  | some e => by_cases hij : i = j <;> simp [hij]

theorem arm_unobserved (s : Timetable (Nat × κ) ρ (σ × List RunEvent)) (i loop : Nat) :
    (s.arm i loop).unobserved = s.unobserved.arm i loop := by
  rw [arm, arm, task?_unobserved]
  split <;> rfl

theorem settle_unobserved {turn' : Timetable κ ρ σ → Turn ρ → Timetable κ ρ σ}
    (hturn : ∀ s t, (turn s t).unobserved = turn' s.unobserved t)
    (s : Timetable (Nat × κ) ρ (σ × List RunEvent)) (i : Nat) (old new : PeriodicTask) :
    (s.settle f.logged i turn old new).unobserved = s.unobserved.settle f i turn' old new := by
  simp only [settle, ← setTask_unobserved]
  split
  · rfl
  · rw [getElem?_unobserved]
    cases (s.setTask i new).tasks[i]? with
    | none => rfl
    | some e => exact hturn _ _

theorem endTurn_unobserved (i fuel : Nat) (s : Timetable (Nat × κ) ρ (σ × List RunEvent))
    (t : Turn ρ) : (s.endTurn f.logged i fuel t).unobserved = s.unobserved.endTurn f i fuel t := by
  induction fuel generalizing s t with
  | zero => cases t <;> rfl
  | succ fuel ih =>
    cases t with
    | wait => rfl
    | finished outcome =>
      rw [endTurn, endTurn, task?_unobserved]
      split
      · rfl
      next task htask =>
        simp only [← settle_unobserved ih]
        split
        · exact arm_unobserved ..
        · rfl

theorem fire_unobserved (s : Timetable (Nat × κ) ρ (σ × List RunEvent)) (a : Alarm ρ) :
    (s.fire f.logged a).unobserved = s.unobserved.fire f a := by
  cases a with
  | tick i loop =>
    rw [Timetable.fire, Timetable.fire, task?_unobserved]
    split
    · rfl
    · exact settle_unobserved (endTurn_unobserved i _) ..
  | resume i r =>
    rw [Timetable.fire, Timetable.fire, getElem?_unobserved]
    cases s.tasks[i]? with
    | none => rfl
    | some e => exact endTurn_unobserved ..

theorem move_unobserved (s : Timetable (Nat × κ) ρ (σ × List RunEvent)) (m : Move) :
    (s.move f.logged m).unobserved = s.unobserved.move f m := by
  cases m with
  | start i delayed =>
    rw [Timetable.move, Timetable.move, Timetable.start, Timetable.start, task?_unobserved]
    split
    · rfl
    · split
      · rfl
      · rw [arm_unobserved, setTask_unobserved]
        rfl
  | close i =>
    rw [Timetable.move, Timetable.move, Timetable.close, Timetable.close, task?_unobserved]
    split
    · rfl
    · exact setTask_unobserved ..
  | elapse now => rfl
  | fire n =>
    simp only [Timetable.move]
    change _ = match s.timers[n]? with
      | some t => if t.due ≤ s.now then
          { s.unobserved with timers := s.timers.eraseIdx n }.fire f t.alarm else s.unobserved
      | none => s.unobserved
    split
    · split
      · exact fire_unobserved ..
      · rfl
    · rfl

/-- Writing down when runs begin and end makes no difference to them. -/
theorem play_unobserved (x : σ) (tasks : List (κ × Nat)) (moves : List Move) :
    ((observed x tasks).play f.logged moves).unobserved = (ofTasks x tasks).play f moves := by
  have hplay (s : Timetable (Nat × κ) ρ (σ × List RunEvent)) :
      (s.play f.logged moves).unobserved = s.unobserved.play f moves := by
    induction moves generalizing s with
    | nil => rfl
    | cons m moves ih => rw [Timetable.play, Timetable.play, ih, move_unobserved]
  have hempty : (observed x tasks : Timetable (Nat × κ) ρ _).unobserved = ofTasks x tasks := by
    simp only [unobserved, observed, ofTasks, Timetable.mk.injEq, true_and, and_true]
    refine List.ext_getElem? fun j => ?_
    rw [List.getElem?_map, List.getElem?_mapIdx, List.getElem?_map, Option.map_map]
    rfl
  rw [hplay, hempty]

end Timetable

end Actions

end NodeAgent
