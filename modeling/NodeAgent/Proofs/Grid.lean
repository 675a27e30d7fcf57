import Mathlib.Order.Monotone.Basic
import NodeAgent.Schedule.Timetable

/-!
One task and all its runs. However long runs last and whether they fail or not, each begins as soon
as it is due and the one before it is over, and all due times lie on the grid of the start.
-/

namespace NodeAgent

section NextDue

variable {due now : Nat}

theorem exists_nextDue_eq (period : Nat) (h : due ≤ now) :
    ∃ k, 0 < k ∧ due + k * period = nextDue period due now := by
  unfold nextDue
  split
  · refine ⟨(now - due) / period + 1, Nat.succ_pos _, ?_⟩
    have hdivision := Nat.div_add_mod' (now - due) period
    rw [Nat.succ_mul]
    omega
  · exact ⟨1, Nat.one_pos, by rw [Nat.one_mul]⟩

theorem add_period_le_nextDue (period : Nat) (h : due ≤ now) :
    due + period ≤ nextDue period due now := by
  obtain ⟨k, hk, heq⟩ := exists_nextDue_eq period h
  rw [← heq]
  exact Nat.add_le_add_left (Nat.le_mul_of_pos_left period hk) due

/-- After a late tick no missed one is made up for. -/
theorem lt_nextDue_of_late {period : Nat} (hperiod : 0 < period) (h : due + tickTolerance < now) :
    now < nextDue period due now := by
  have hmod := Nat.mod_lt (now - due) hperiod
  rw [nextDue, if_pos h]
  omega

end NextDue

/-- How the runs of a task go: how long each of them lasts, and how it ends. -/
structure Course where
  length : Nat → Nat
  outcome : Nat → Outcome

structure RunBook where
  begun : List Instant := []
  ended : List Instant := []
  deriving DecidableEq, Repr

namespace Course

def actions (c : Course) : Actions Unit Unit RunBook where
  enter _ now x :=
    let i := x.begun.length
    if c.length i = 0 then
      (⟨x.begun ++ [now], x.ended ++ [now]⟩, .finished (c.outcome i))
    else ({ x with begun := x.begun ++ [now] }, .wait (c.length i) ())
  resume _ _ now x := ({ x with ended := x.ended ++ [now] }, .finished (c.outcome x.ended.length))

/-- When run `i` is due and when it begins, if the first one is due at `first`. -/
def plan (c : Course) (period first : Nat) : Nat → Nat × Nat
  | 0 => (first, first)
  | i + 1 =>
    let (due, begins) := c.plan period first i
    let next := nextDue period due begins
    (next, max next (begins + c.length i))

variable (c : Course) (period first : Nat)

def due (i : Nat) : Nat := (c.plan period first i).1

def begins (i : Nat) : Nat := (c.plan period first i).2

def ends (i : Nat) : Nat := c.begins period first i + c.length i

theorem due_succ (i : Nat) :
    c.due period first (i + 1) =
      nextDue period (c.due period first i) (c.begins period first i) := rfl

theorem begins_succ (i : Nat) :
    c.begins period first (i + 1) = max (c.due period first (i + 1)) (c.ends period first i) := rfl

theorem due_le_begins (i : Nat) : c.due period first i ≤ c.begins period first i := by
  cases i with
  | zero => exact Nat.le_refl first
  | succ i => exact Nat.le_max_left ..

theorem begins_le_ends (i : Nat) : c.begins period first i ≤ c.ends period first i :=
  Nat.le_add_right ..

theorem ends_le_begins_succ (i : Nat) : c.ends period first i ≤ c.begins period first (i + 1) :=
  Nat.le_max_right ..

theorem monotone_begins : Monotone (c.begins period first) :=
  monotone_nat_of_le_succ fun i =>
    (c.begins_le_ends period first i).trans (c.ends_le_begins_succ period first i)

theorem monotone_ends : Monotone (c.ends period first) :=
  monotone_nat_of_le_succ fun i =>
    (c.ends_le_begins_succ period first i).trans (c.begins_le_ends period first (i + 1))

theorem exists_due_eq (i : Nat) : ∃ k, c.due period first i = first + k * period := by
  induction i with
  | zero => exact ⟨0, by rw [Nat.zero_mul]; rfl⟩
  | succ i ih =>
    obtain ⟨k, hk⟩ := ih
    obtain ⟨k', -, hnext⟩ := exists_nextDue_eq period (c.due_le_begins period first i)
    exact ⟨k + k', by rw [due_succ, ← hnext, hk, Nat.add_mul, Nat.add_assoc]⟩

theorem strictMono_due {period : Nat} (hperiod : 0 < period) : StrictMono (c.due period first) :=
  strictMono_nat_of_lt_succ fun i => Nat.lt_of_lt_of_le (Nat.lt_add_of_pos_right hperiod)
    (add_period_le_nextDue period (c.due_le_begins period first i))

theorem add_mul_period_le_due (i : Nat) : first + i * period ≤ c.due period first i := by
  induction i with
  | zero => rw [Nat.zero_mul]; exact Nat.le_refl first
  | succ i ih =>
    have hnext := add_period_le_nextDue period (c.due_le_begins period first i)
    rw [due_succ, Nat.succ_mul]
    omega

theorem begins_eq_of_short (h : ∀ i, c.length i ≤ period) (i : Nat) :
    c.due period first i = first + i * period ∧ c.begins period first i = first + i * period := by
  induction i with
  | zero => rw [Nat.zero_mul]; exact ⟨rfl, rfl⟩
  | succ i ih =>
    obtain ⟨hdue, hbegins⟩ := ih
    have hnext : c.due period first (i + 1) = first + (i + 1) * period := by
      have hinTime : ¬first + i * period + tickTolerance < first + i * period :=
        Nat.not_lt.2 (Nat.le_add_right _ _)
      rw [due_succ, hdue, hbegins, nextDue, if_neg hinTime, Nat.succ_mul, Nat.add_assoc]
    refine ⟨hnext, ?_⟩
    have hlength := h i
    rw [begins_succ, hnext, ends, hbegins, Nat.succ_mul]
    omega

end Course

def PeriodicTask.lone (period : Nat) (phase : Phase) (begun : Nat) : PeriodicTask where
  period
  loops := [⟨phase, false⟩]
  isOpen := true
  begun

namespace PeriodicTask

variable {period due now : Nat}

theorem tick_lone (h : due ≤ now) (n : Nat) :
    (lone period (.waiting due) n).tick 0 now =
      lone period (.running (nextDue period due now)) (n + 1) := by
  simp [lone, tick, h, holder?, setLoop, Loop.isRunning, grant]

theorem finish_lone {outcome : Outcome} (h : outcome ≠ .panicked) (n : Nat) :
    (lone period (.running due) n).finish outcome = lone period (.waiting due) n := by
  have hlast : (outcome == .panicked) = false := beq_false_of_ne h
  simp [lone, finish, holder?, setLoop, Loop.isRunning, grant, hlast]

theorem begun_lone (phase : Phase) (n : Nat) : (lone period phase n).begun = n := rfl

theorem holder?_lone (n : Nat) : (lone period (.running due) n).holder? = some 0 := rfl

end PeriodicTask

namespace Timetable

def lone (period : Nat) (phase : Phase) (timers : List (Timer Unit)) (now : Instant)
    (book : RunBook) : Timetable Unit Unit RunBook where
  state := book
  now
  tasks := [⟨(), .lone period phase book.begun.length⟩]
  timers

def startedAlone (period : Nat) (now : Instant) (delayed : Bool) : Timetable Unit Unit RunBook :=
  (add { state := {}, now } () period).start 0 delayed

variable {f : Actions Unit Unit RunBook} {period due now : Nat} {book book' : RunBook}

theorem startedAlone_eq (hperiod : 0 < period) (now : Nat) (delayed : Bool) :
    let first := if delayed then now + period else now
    startedAlone period now delayed = lone period (.waiting first) [⟨first, .tick 0 0⟩] now {} := by
  have hzero : period ≠ 0 := Nat.ne_of_gt hperiod
  simp [startedAlone, add, start, task?, PeriodicTask.start, PeriodicTask.newLoop, hzero, setTask,
    arm, Loop.due?, setTimer, lone, PeriodicTask.lone]

theorem turnsFor_lone (phase : Phase) (n : Nat) : turnsFor (.lone period phase n) = 1 := rfl

theorem endTurn_lone {outcome : Outcome} (h : outcome ≠ .panicked) (fuel : Nat) :
    (lone period (.running due) [] now book).endTurn f 0 (fuel + 1) (.finished outcome) =
      lone period (.waiting due) [⟨due, .tick 0 0⟩] now book := by
  have harm : (lone period (.waiting due) [] now book).arm 0 0 =
      lone period (.waiting due) [⟨due, .tick 0 0⟩] now book := rfl
  simpa [endTurn, lone, task?, PeriodicTask.finish_lone h, PeriodicTask.holder?_lone,
    PeriodicTask.begun_lone, settle, setTask] using harm

theorem fire_tick_lone {turn : Turn Unit} (hdue : due ≤ now)
    (henter : f.enter () now book = (book', turn))
    (hbegun : book'.begun.length = book.begun.length + 1) :
    (lone period (.waiting due) [] now book).fire f (.tick 0 0) =
      (lone period (.running (nextDue period due now)) [] now book').endTurn f 0 1 turn := by
  simp [fire, lone, task?, PeriodicTask.tick_lone hdue, PeriodicTask.begun_lone, settle, setTask,
    henter, hbegun, turnsFor_lone]

theorem fire_resume_lone {turn : Turn Unit} (hresume : f.resume () () now book = (book', turn))
    (hbegun : book'.begun.length = book.begun.length) :
    (lone period (.running due) [] now book).fire f (.resume 0 ()) =
      (lone period (.running due) [] now book').endTurn f 0 1 turn := by
  simp [fire, lone, hresume, hbegun, turnsFor_lone]

theorem takeFirst_lone (limit : Instant) (t : Timer Unit) :
    Timer.takeFirst limit [t] = if t.due ≤ limit then some (t, []) else none := rfl

theorem run_lone_of_due {limit : Instant} {phase : Phase} {t : Timer Unit} (h : t.due ≤ limit)
    (fuel : Nat) :
    (lone period phase [t] now book).run f limit (fuel + 1) =
      ((lone period phase [] (max now t.due) book).fire f t.alarm).run f limit fuel := by
  simp [run, lone, takeFirst_lone, h]

theorem run_lone_of_later {limit : Instant} {phase : Phase} {t : Timer Unit} (h : limit < t.due)
    (fuel : Nat) :
    (lone period phase [t] now book).run f limit fuel = lone period phase [t] now book := by
  cases fuel with
  | zero => rfl
  | succ fuel => simp [run, lone, takeFirst_lone, Nat.not_le.2 h]

theorem fuelFor_lone (limit : Nat) (phase : Phase) (t : Timer Unit) :
    (lone period phase [t] now book).fuelFor limit = 24 * (limit - now) + 192 := by
  simp only [fuelFor, lone, PeriodicTask.lone, mostWaits, tickTolerance, List.map_cons,
    List.map_nil, List.foldr_cons, List.foldr_nil, List.length_cons, List.length_nil]
  omega

end Timetable

namespace Course

variable {c : Course} {period first : Nat}

def book (c : Course) (period first begun ended : Nat) : RunBook :=
  ⟨(List.range begun).map (c.begins period first), (List.range ended).map (c.ends period first)⟩

theorem enter_book (c : Course) (period first i : Nat) :
    c.actions.enter () (c.begins period first i) (c.book period first i i) =
      if c.length i = 0 then (c.book period first (i + 1) (i + 1), .finished (c.outcome i))
      else (c.book period first (i + 1) i, .wait (c.length i) ()) := by
  by_cases h : c.length i = 0 <;> simp [actions, book, List.range_succ, ends, h]

theorem resume_book (c : Course) (period first i : Nat) :
    c.actions.resume () () (c.ends period first i) (c.book period first (i + 1) i) =
      (c.book period first (i + 1) (i + 1), .finished (c.outcome i)) := by
  simp [actions, book, List.range_succ]

/-- No more ticks than this come up to `limit`, if the next is due at `due` and not had before
`now`. -/
def ticksLeft (limit due now : Nat) : Nat :=
  limit + tickTolerance + 2 - max due (now - (tickTolerance + 1))

theorem ticksLeft_lt {limit due now tick later : Nat} (hperiod : 0 < period)
    (htick : tick = max now due) (hlimit : tick ≤ limit) (hlater : tick ≤ later) :
    ticksLeft limit (nextDue period due tick) later < ticksLeft limit due now := by
  have hdue : due ≤ tick := by omega
  have hnext := add_period_le_nextDue period hdue
  have hlate : due + tickTolerance < tick → tick < nextDue period due tick :=
    lt_nextDue_of_late hperiod
  generalize nextDue period due tick = next at hnext hlate
  unfold ticksLeft tickTolerance at *
  omega

theorem ticksLeft_le (limit due now : Nat) : ticksLeft limit due now ≤ limit + 13 - now := by
  unfold ticksLeft tickTolerance
  omega

/--
Between two runs, or in the middle of one, with at most `left` timers that go off up to `limit`.
-/
inductive Stands (c : Course) (period first limit : Nat) : Nat → Timetable Unit Unit RunBook → Prop
  | waiting (i now : Nat) (next : max now (c.due period first i) = c.begins period first i)
      (past : ∀ j < i, c.ends period first j ≤ now) :
      Stands c period first limit (2 * ticksLeft limit (c.due period first i) now)
        (.lone period (.waiting (c.due period first i)) [⟨c.due period first i, .tick 0 0⟩] now
          (c.book period first i i))
  | running (i now : Nat) (begun : c.begins period first i ≤ now)
      (goesOn : now ≤ c.ends period first i) :
      Stands c period first limit
        (2 * ticksLeft limit (c.due period first (i + 1)) (c.ends period first i) + 1)
        (.lone period (.running (c.due period first (i + 1)))
          [⟨c.ends period first i, .resume 0 ()⟩] now (c.book period first (i + 1) i))

namespace Stands

variable {limit left : Nat} {s : Timetable Unit Unit RunBook}

theorem tick {i now : Nat} (hperiod : 0 < period) (hends : ∀ i, c.outcome i ≠ .panicked)
    (next : max now (c.due period first i) = c.begins period first i)
    (hlimit : c.begins period first i ≤ limit) :
    ∃ s', (Timetable.lone period (.waiting (c.due period first i)) [] (c.begins period first i)
        (c.book period first i i)).fire c.actions (.tick 0 0) = s' ∧
      s'.now = c.begins period first i ∧
      ∃ left' < 2 * ticksLeft limit (c.due period first i) now,
        Stands c period first limit left' s' := by
  have henter := c.enter_book period first i
  have hleft (later : Nat) (hlater : c.begins period first i ≤ later) :=
    ticksLeft_lt hperiod next.symm hlimit hlater
  by_cases hlength : c.length i = 0
  · -- the run is past at once
    have hends' : c.ends period first i = c.begins period first i := by rw [ends, hlength]; rfl
    rw [if_pos hlength] at henter
    rw [Timetable.fire_tick_lone (c.due_le_begins period first i) henter (by simp [book]),
      Timetable.endTurn_lone (hends i) 0]
    refine ⟨_, rfl, rfl, _, Nat.mul_lt_mul_of_pos_left (hleft _ le_rfl) Nat.two_pos,
      .waiting (i + 1) _ ?_ ?_⟩
    · rw [begins_succ, hends', Nat.max_comm]
    · intro j hj
      rw [← hends']
      exact c.monotone_ends period first (Nat.le_of_lt_succ hj)
  · rw [if_neg hlength] at henter
    rw [Timetable.fire_tick_lone (c.due_le_begins period first i) henter (by simp [book])]
    have hrunning := hleft _ (c.begins_le_ends period first i)
    rw [← due_succ] at hrunning
    exact ⟨_, rfl, rfl, _, by omega, .running i _ le_rfl (c.begins_le_ends period first i)⟩

theorem step (h : Stands c period first limit left s) (hperiod : 0 < period)
    (hends : ∀ i, c.outcome i ≠ .panicked) (hnow : s.now ≤ limit) :
    (∀ t ∈ s.timers, limit < t.due) ∨
      ∃ left' < left, ∃ s', Stands c period first limit left' s' ∧ s'.now ≤ limit ∧
        ∀ fuel, s.run c.actions limit (fuel + 1) = s'.run c.actions limit fuel := by
  cases h with
  | waiting i now next past =>
    rcases Nat.lt_or_ge limit (c.due period first i) with hlater | hdue
    · exact .inl fun t ht => by rw [List.mem_singleton.1 ht]; exact hlater
    · have hlimit : c.begins period first i ≤ limit := next ▸ Nat.max_le.2 ⟨hnow, hdue⟩
      obtain ⟨s', hfire, hnow', left', hleft, hstands⟩ := tick hperiod hends next hlimit
      refine .inr ⟨left', hleft, s', hstands, hnow' ▸ hlimit, fun fuel => ?_⟩
      rw [Timetable.run_lone_of_due hdue, next, hfire]
  | running i now begun goesOn =>
    rcases Nat.lt_or_ge limit (c.ends period first i) with hlater | hdue
    · exact .inl fun t ht => by rw [List.mem_singleton.1 ht]; exact hlater
    · have hwaiting : Stands c period first limit
          (2 * ticksLeft limit (c.due period first (i + 1)) (c.ends period first i))
          (.lone period (.waiting (c.due period first (i + 1)))
            [⟨c.due period first (i + 1), .tick 0 0⟩] (c.ends period first i)
            (c.book period first (i + 1) (i + 1))) :=
        .waiting (i + 1) _ (Nat.max_comm ..) fun j hj =>
          c.monotone_ends period first (Nat.le_of_lt_succ hj)
      refine .inr ⟨_, Nat.lt_succ_self _, _, hwaiting, hdue, fun fuel => ?_⟩
      rw [Timetable.run_lone_of_due hdue, Nat.max_eq_right goesOn,
        Timetable.fire_resume_lone (c.resume_book period first i) (by simp [book]),
        Timetable.endTurn_lone (hends i) 0]

theorem run_of_later (h : Stands c period first limit left s) {limit' : Instant}
    (hlater : ∀ t ∈ s.timers, limit' < t.due) (fuel : Nat) : s.run c.actions limit' fuel = s := by
  cases h with
  | waiting => exact Timetable.run_lone_of_later (hlater _ List.mem_cons_self) fuel
  | running => exact Timetable.run_lone_of_later (hlater _ List.mem_cons_self) fuel

theorem run (hperiod : 0 < period) (hends : ∀ i, c.outcome i ≠ .panicked) {fuel : Nat}
    (h : Stands c period first limit left s) (hnow : s.now ≤ limit) (hfuel : left ≤ fuel) :
    ∃ left' s', s.run c.actions limit fuel = s' ∧ Stands c period first limit left' s' ∧
      s'.now ≤ limit ∧ ∀ t ∈ s'.timers, limit < t.due := by
  induction fuel generalizing left s with
  | zero =>
    rcases h.step hperiod hends hnow with hlater | ⟨left', hleft, -⟩
    · exact ⟨left, s, rfl, h, hnow, hlater⟩
    · omega
  | succ fuel ih =>
    rcases h.step hperiod hends hnow with hlater | ⟨left', hleft, s', hs', hnow', hrun⟩
    · exact ⟨left, s, h.run_of_later hlater _, h, hnow, hlater⟩
    · obtain ⟨left'', s'', hrun', hs''⟩ := ih hs' hnow' (by omega)
      exact ⟨left'', s'', (hrun fuel).trans hrun', hs''⟩

/-- The fuel of a timetable is enough for all timers that go off. -/
theorem reaim (h : Stands c period first limit left s) {limit' : Nat} (hnow : s.now ≤ limit') :
    ∃ left' ≤ s.fuelFor limit', Stands c period first limit' left' s := by
  cases h with
  | waiting i now next past =>
    have hnow' : now ≤ limit' := hnow
    have hleft := ticksLeft_le limit' (c.due period first i) now
    exact ⟨_, by rw [Timetable.fuelFor_lone]; omega, .waiting i now next past⟩
  | running i now begun goesOn =>
    have hnow' : now ≤ limit' := hnow
    have hleft := ticksLeft_le limit' (c.due period first (i + 1)) (c.ends period first i)
    exact ⟨_, by rw [Timetable.fuelFor_lone]; omega, .running i now begun goesOn⟩

theorem elapse (h : Stands c period first limit left s) {now : Nat} (hnow : s.now ≤ now)
    (hlater : ∀ t ∈ s.timers, now < t.due) :
    ∃ left', Stands c period first limit left' { s with now } := by
  cases h with
  | waiting i before next past =>
    have hbefore : before ≤ now := hnow
    have hdue : now < c.due period first i := hlater _ List.mem_cons_self
    rw [Nat.max_eq_right (Nat.le_of_lt (Nat.lt_of_le_of_lt hbefore hdue))] at next
    refine ⟨_, .waiting i now ?_ fun j hj => (past j hj).trans hbefore⟩
    rw [Nat.max_eq_right (Nat.le_of_lt hdue), next]
  | running i before begun goesOn =>
    have hends : now < c.ends period first i := hlater _ List.mem_cons_self
    exact ⟨_, .running i now (Nat.le_trans begun hnow) (Nat.le_of_lt hends)⟩

end Stands

structure Settled (c : Course) (period first : Nat) (s : Timetable Unit Unit RunBook) : Prop where
  stands : ∃ limit left, Stands c period first limit left s
  ahead : ∀ t ∈ s.timers, s.now < t.due

section Advance

variable {s : Timetable Unit Unit RunBook} {now : Nat}

theorem Stands.settled_advanceTo {limit left : Nat} (h : Stands c period first limit left s)
    (hperiod : 0 < period) (hends : ∀ i, c.outcome i ≠ .panicked) (hnow : s.now ≤ now) :
    c.Settled period first (s.advanceTo c.actions now) ∧ (s.advanceTo c.actions now).now = now := by
  obtain ⟨left', hleft, hs⟩ := h.reaim hnow
  obtain ⟨left'', s', hrun, hs', hnow', hlater⟩ := hs.run hperiod hends hnow hleft
  obtain ⟨last, hstands⟩ := hs'.elapse hnow' hlater
  have hadvance : s.advanceTo c.actions now = { s' with now } := by
    rw [Timetable.advanceTo, hrun, Nat.max_eq_right hnow']
  rw [hadvance]
  exact ⟨⟨⟨_, _, hstands⟩, hlater⟩, rfl⟩

/-- Whoever looks at the clock again, and be it at an instant that is over, sees the same course. -/
theorem Settled.advanceTo (h : c.Settled period first s) (hperiod : 0 < period)
    (hends : ∀ i, c.outcome i ≠ .panicked) (now : Nat) :
    c.Settled period first (s.advanceTo c.actions now) ∧
      (s.advanceTo c.actions now).now = max s.now now := by
  obtain ⟨⟨limit, left, hstands⟩, hahead⟩ := h
  rcases Nat.le_total s.now now with hle | hle
  · rw [Nat.max_eq_right hle]
    exact hstands.settled_advanceTo hperiod hends hle
  · have hrun : s.run c.actions now (s.fuelFor now) = s :=
      hstands.run_of_later (fun t ht => Nat.lt_of_le_of_lt hle (hahead t ht)) _
    rw [Timetable.advanceTo, hrun, Nat.max_eq_left hle]
    exact ⟨⟨⟨limit, left, hstands⟩, hahead⟩, rfl⟩

theorem Settled.foldl_advanceTo (h : c.Settled period first s) (hperiod : 0 < period)
    (hends : ∀ i, c.outcome i ≠ .panicked) (looks : List Nat) :
    c.Settled period first (looks.foldl (·.advanceTo c.actions ·) s) ∧
      (looks.foldl (·.advanceTo c.actions ·) s).now = looks.foldl max s.now := by
  induction looks generalizing s with
  | nil => exact ⟨h, rfl⟩
  | cons now looks ih =>
    obtain ⟨hsettled, hnow⟩ := h.advanceTo hperiod hends now
    rw [List.foldl_cons, List.foldl_cons, ← hnow]
    exact ih hsettled

end Advance

theorem getElem?_past {x : Nat → Nat} (hx : Monotone x) {n now : Nat} (hpast : ∀ i < n, x i ≤ now)
    (hahead : now < x n) (i : Nat) :
    ((List.range n).map x)[i]? = if x i ≤ now then some (x i) else none := by
  by_cases hi : i < n
  · simp [hi, hpast i hi]
  · have hlater : now < x i := Nat.lt_of_lt_of_le hahead (hx (Nat.not_lt.1 hi))
    simp [hi, hlater]

theorem Settled.exists_book {s : Timetable Unit Unit RunBook} (h : c.Settled period first s) :
    ∃ begun ended, s.state = c.book period first begun ended ∧
      s.task? 0 = some (.lone period (if ended = begun then .waiting (c.due period first begun)
        else .running (c.due period first begun)) begun) ∧
      ((∀ i < begun, c.begins period first i ≤ s.now) ∧ s.now < c.begins period first begun) ∧
      (∀ i < ended, c.ends period first i ≤ s.now) ∧ s.now < c.ends period first ended := by
  obtain ⟨⟨limit, left, hstands⟩, hahead⟩ := h
  cases hstands with
  | waiting i now next past =>
    have hdue : now < c.due period first i := hahead _ List.mem_cons_self
    have hbegins : now < c.begins period first i := hdue.trans_le (c.due_le_begins period first i)
    refine ⟨i, i, rfl, ?_, ⟨fun j hj => ?_, hbegins⟩, past, ?_⟩
    · simp [Timetable.lone, Timetable.task?, book]
    · exact (c.begins_le_ends period first j).trans (past j hj)
    · exact hbegins.trans_le (c.begins_le_ends period first i)
  | running i now begun goesOn =>
    have hends : now < c.ends period first i := hahead _ List.mem_cons_self
    refine ⟨i + 1, i, rfl, ?_, ⟨fun j hj => ?_, ?_⟩, fun j hj => ?_, hends⟩
    · simp [Timetable.lone, Timetable.task?, book]
    · exact (c.monotone_begins period first (Nat.le_of_lt_succ hj)).trans begun
    · exact hends.trans_le (c.ends_le_begins_succ period first i)
    · exact (c.ends_le_begins_succ period first j).trans
        ((c.monotone_begins period first hj).trans begun)

theorem settled_startedAlone (hperiod : 0 < period) (hends : ∀ i, c.outcome i ≠ .panicked)
    {start now : Nat} (delayed : Bool) (hnow : start ≤ now) :
    let s := (Timetable.startedAlone period start delayed).advanceTo c.actions now
    c.Settled period (if delayed then start + period else start) s ∧ s.now = now := by
  rw [Timetable.startedAlone_eq hperiod]
  have hfirst : start ≤ if delayed then start + period else start := by
    split
    · exact Nat.le_add_right start period
    · exact Nat.le_refl start
  have hstands := @Stands.waiting c period _ now 0 start (Nat.max_eq_right hfirst) nofun
  exact hstands.settled_advanceTo hperiod hends hnow

theorem length_le_of_begun {start now n : Nat} (hstart : start ≤ first) (hperiod : 0 < period)
    (hbegun : ∀ i < n, c.begins period first i ≤ now) : n ≤ (now - start) / period + 1 := by
  cases n with
  | zero => exact Nat.zero_le _
  | succ n =>
    have hdue := c.add_mul_period_le_due period first n
    have hbegins := c.due_le_begins period first n
    have hlast := hbegun n (Nat.lt_succ_self n)
    have hroom : n * period ≤ now - start := by omega
    exact Nat.succ_le_succ ((Nat.le_div_iff_mul_le hperiod).2 hroom)

theorem Settled.seen {s : Timetable Unit Unit RunBook} (h : c.Settled period first s)
    (hperiod : 0 < period) {start : Nat} (hstart : start ≤ first) :
    let n := s.state.begun.length
    (∀ i, s.state.begun[i]? =
        if c.begins period first i ≤ s.now then some (c.begins period first i) else none) ∧
      (∀ i, s.state.ended[i]? =
        if c.ends period first i ≤ s.now then some (c.ends period first i) else none) ∧
      s.task? 0 = some (.lone period (if s.state.ended.length = n
        then .waiting (c.due period first n) else .running (c.due period first n)) n) ∧
      n ≤ (s.now - start) / period + 1 := by
  obtain ⟨begun, ended, hbook, htask, hbegun, hended⟩ := h.exists_book
  have hbegun' : s.state.begun.length = begun := by simp [hbook, book]
  have hended' : s.state.ended.length = ended := by simp [hbook, book]
  rw [hbegun', hended']
  refine ⟨fun i => ?_, fun i => ?_, htask, length_le_of_begun hstart hperiod hbegun.1⟩
  · rw [hbook]
    exact getElem?_past (c.monotone_begins period first) hbegun.1 hbegun.2 i
  · rw [hbook]
    exact getElem?_past (c.monotone_ends period first) hended.1 hended.2 i

/--
A task that is started once and never closed, whose runs last as long as they like and fail or not.
Looked at whenever one likes, exactly those runs have begun and ended whose time has come, so that
every run comes: each begins when it is due and the one before it is over. All due times are on the
grid of the start and increase, so that no more runs have begun than the grid has points. Runs that
take no longer than the period all begin on the grid.
-/
theorem keeps_grid (c : Course) {period : Nat} (start : Nat) (delayed : Bool) (hperiod : 0 < period)
    (hends : ∀ i, c.outcome i ≠ .panicked) :
    let first := if delayed then start + period else start
    let due := c.due period first
    let begins := c.begins period first
    let ends := c.ends period first
    (∀ now looks, start ≤ now →
      let s := (now :: looks).foldl (·.advanceTo c.actions ·)
        (Timetable.startedAlone period start delayed)
      let n := s.state.begun.length
      s.now = looks.foldl max now ∧
        (∀ i, s.state.begun[i]? = if begins i ≤ s.now then some (begins i) else none) ∧
        (∀ i, s.state.ended[i]? = if ends i ≤ s.now then some (ends i) else none) ∧
        s.task? 0 = some (PeriodicTask.lone period
          (if s.state.ended.length = n then .waiting (due n) else .running (due n)) n) ∧
        n ≤ (s.now - start) / period + 1) ∧
      (begins 0 = due 0 ∧ ∀ i, begins (i + 1) = max (due (i + 1)) (ends i)) ∧
      (∀ i, ends i = begins i + c.length i) ∧
      (due 0 = first ∧ ∀ i, due (i + 1) =
        if due i + 5 < begins i then begins i + period - (begins i - due i) % period
        else due i + period) ∧
      (∀ i, ∃ k, due i = start + k * period) ∧ StrictMono due ∧
      ((∀ i, c.length i ≤ period) → ∀ i, begins i = first + i * period) := by
  intro first due begins ends
  have hfirst : ∃ k, first = start + k * period := by
    cases delayed with
    | false => exact ⟨0, by simp [first]⟩
    | true => exact ⟨1, by simp [first]⟩
  have hstart : start ≤ first := by
    obtain ⟨k, hk⟩ := hfirst
    exact hk ▸ Nat.le_add_right start _
  refine ⟨?_, ⟨rfl, fun i => rfl⟩, fun i => rfl, ⟨rfl, fun i => rfl⟩, fun i => ?_,
    c.strictMono_due first hperiod, fun hshort i => ?_⟩
  · intro now looks hnow s
    have hs : c.Settled period first s ∧ s.now = looks.foldl max now := by
      obtain ⟨hsettled, hnow'⟩ := settled_startedAlone hperiod hends delayed hnow
      have hlooks := hsettled.foldl_advanceTo hperiod hends looks
      rwa [hnow'] at hlooks
    exact ⟨hs.2, hs.1.seen hperiod hstart⟩
  · obtain ⟨k, hk⟩ := c.exists_due_eq period first i
    obtain ⟨k', hk'⟩ := hfirst
    exact ⟨k' + k, by rw [Nat.add_mul, ← Nat.add_assoc, ← hk']; exact hk⟩
  · exact (c.begins_eq_of_short period first hshort i).2

section SlowStart

def slowStart : Course where
  length i := if i = 0 then 25 else 3
  outcome i := if i = 1 then .failed else .ok

theorem slowStart_back_on_grid :
    let s := (Timetable.startedAlone 10 0 false).advanceTo slowStart.actions 47
    s.state = ⟨[0, 25, 30, 40], [25, 28, 33, 43]⟩ ∧ s.state.begun.length ≤ 47 / 10 + 1 ∧
      (List.range 4).map (slowStart.due 10 0) = [0, 10, 30, 40] := by
  have hends (i : Nat) : slowStart.outcome i ≠ .panicked := by
    by_cases hi : i = 1 <;> simp [slowStart, hi]
  have hperiod : 0 < 10 := by decide
  obtain ⟨hseen, -⟩ := slowStart.keeps_grid 0 false hperiod hends
  obtain ⟨hnow, -, -, -, hlength⟩ := hseen 47 [] (by decide)
  refine ⟨by decide +kernel, ?_, by decide +kernel⟩
  rw [hnow] at hlength
  exact hlength

end SlowStart

end Course

end NodeAgent
