import Mathlib.Logic.Relation
import NodeAgent.Proofs.Timetable

/-!
The clock of a timetable goes on in single shifts: a timer leaves or comes, a task gets its tick or ends
a run, a turn changes the state. What every shift preserves holds as long as one likes; and no shift
changes who has a task, its period, or which of its loops were cancelled.
-/

namespace NodeAgent

/-- What neither a tick nor the end of a run changes about a task. -/
structure Lasting where
  period : Nat
  isOpen : Bool
  cancelled : List Bool
  begun? : Option Nat
  deriving DecidableEq, Repr

namespace PeriodicTask

def lasting (t : PeriodicTask) : Lasting where
  period := t.period
  isOpen := t.isOpen
  cancelled := t.loops.map (·.cancelled)
  begun? := if (t.loops.map (·.cancelled)).all id then some t.begun else none

variable {t t' : PeriodicTask}

theorem closed_iff_lasting : t.Closed ↔ t.lasting.cancelled.all id = true := by
  simp [Closed, lasting]

theorem closed_of_lasting (h : t'.lasting = t.lasting) (closed : t.Closed) :
    t'.Closed ∧ t'.begun = t.begun := by
  have hclosed : t'.Closed := by
    rw [closed_iff_lasting, h]
    exact closed_iff_lasting.1 closed
  have hbegun := congrArg Lasting.begun? h
  have hall : (t.loops.map (·.cancelled)).all id = true := closed_iff_lasting.1 closed
  have hall' : (t'.loops.map (·.cancelled)).all id = true := closed_iff_lasting.1 hclosed
  rw [lasting, lasting, if_pos hall, if_pos hall'] at hbegun
  exact ⟨hclosed, Option.some.inj hbegun⟩

theorem cancelled_setLoop {i : Nat} {l l' : Loop} (hl : t.loops[i]? = some l)
    (same : l'.cancelled = l.cancelled) :
    (t.setLoop i l').loops.map (·.cancelled) = t.loops.map (·.cancelled) := by
  obtain ⟨hlt, hget⟩ := List.getElem?_eq_some_iff.1 hl
  have hlt' : i < (t.loops.map (·.cancelled)).length := by rwa [List.length_map]
  have hflag : l'.cancelled = (t.loops.map (·.cancelled))[i] := by
    rw [List.getElem_map, hget, same]
  rw [setLoop, List.map_set, hflag, List.set_getElem_self]

theorem lasting_setLoop {i : Nat} {l l' : Loop} (hl : t.loops[i]? = some l)
    (same : l'.cancelled = l.cancelled) : (t.setLoop i l').lasting = t.lasting := by
  rw [lasting, cancelled_setLoop hl same]
  rfl

theorem lasting_grant (t : PeriodicTask) (queue : List Nat) :
    (t.grant queue).lasting = t.lasting := by
  induction queue generalizing t with
  | nil => rfl
  | cons i rest ih =>
    rw [grant]
    split
    next due hloop =>
      -- a run begins, at a loop that was not cancelled
      have hopen : (t.loops.map (·.cancelled)).all id = false := by
        rw [List.all_eq_false]
        exact ⟨false, List.mem_map.2 ⟨_, List.mem_of_getElem? hloop, rfl⟩, Bool.false_ne_true⟩
      have hset : (t.setLoop i { phase := .running due }).loops.map (·.cancelled) =
          t.loops.map (·.cancelled) := cancelled_setLoop hloop rfl
      simp only [lasting, hset, hopen]
      rfl
    next l _ hloop =>
      rw [ih]
      exact lasting_setLoop hloop rfl
    · exact ih t

inductive Driven (t : PeriodicTask) : PeriodicTask → Prop
  | tick (loop : Nat) (now : Instant) : Driven t (t.tick loop now)
  | finish (outcome : Outcome) : Driven t (t.finish outcome)

theorem Driven.lasting (h : t.Driven t') : t'.lasting = t.lasting := by
  cases h with
  | tick i now =>
    unfold PeriodicTask.tick
    split
    next due cancelled hloop =>
      have hset : (t.setLoop i ⟨.queued (nextDue t.period due now), cancelled⟩).lasting =
          t.lasting := lasting_setLoop hloop rfl
      split
      · dsimp only
        split
        · exact hset
        · rw [lasting_grant, hset]
      · rfl
    · rfl
  | finish outcome =>
    unfold PeriodicTask.finish
    split
    · rfl
    · split
      next due cancelled hloop =>
        rw [lasting_grant]
        exact lasting_setLoop hloop rfl
      · rfl

end PeriodicTask

namespace Timetable

variable {κ ρ σ : Type}

def pend (s : Timetable κ ρ σ) (i : Nat) : Turn ρ → Timetable κ ρ σ
  | .wait delay result => s.setTimer (s.now + delay) (.resume i result)
  | .finished _ => s

inductive Shift (f : Actions κ ρ σ) (s : Timetable κ ρ σ) : Timetable κ ρ σ → Prop
  | clock (now : Instant) : Shift f s { s with now }
  | arm (due : Instant) (i loop : Nat) : Shift f s (s.setTimer due (.tick i loop))
  | lapse (n : Nat) (t : Timer ρ) (ht : s.timers[n]? = some t)
      (unknown : ∀ i r, t.alarm = .resume i r → s.tasks[i]? = none) :
      Shift f s { s with timers := s.timers.eraseIdx n }
  | drive (i : Nat) (old new : PeriodicTask) (hold : s.task? i = some old) (h : old.Driven new)
      (same : new.begun = old.begun) : Shift f s (s.setTask i new)
  | enter (i : Nat) (e : Scheduled κ) (new : PeriodicTask) (he : s.tasks[i]? = some e)
      (h : e.task.Driven new) (begins : new.begun ≠ e.task.begun) :
      Shift f s ({ s.setTask i new with state := (f.enter e.key s.now s.state).1 }.pend i
        (f.enter e.key s.now s.state).2)
  | resume (n : Nat) (t : Timer ρ) (i : Nat) (r : ρ) (e : Scheduled κ)
      (ht : s.timers[n]? = some t) (ha : t.alarm = .resume i r) (he : s.tasks[i]? = some e) :
      Shift f s ({ s with
          timers := s.timers.eraseIdx n
          state := (f.resume e.key r s.now s.state).1 }.pend i (f.resume e.key r s.now s.state).2)

def Reaches (f : Actions κ ρ σ) : Timetable κ ρ σ → Timetable κ ρ σ → Prop :=
  Relation.ReflTransGen (Shift f)

variable {f : Actions κ ρ σ} {s s' : Timetable κ ρ σ} {i : Nat}

theorem arm_reaches (s : Timetable κ ρ σ) (i loop : Nat) : s.Reaches f (s.arm i loop) := by
  unfold Timetable.arm
  split
  · exact .single (.arm ..)
  · exact .refl

theorem settle_reaches {turn : Timetable κ ρ σ → Turn ρ → Timetable κ ρ σ}
    (hturn : ∀ (s : Timetable κ ρ σ) (t : Turn ρ), (s.pend i t).Reaches f (turn s t))
    {old new : PeriodicTask}
    (hold : s.task? i = some old) (h : old.Driven new) :
    s.Reaches f (s.settle f i turn old new) := by
  unfold Timetable.settle
  dsimp only
  split
  next same => exact .single (.drive i old new hold h same)
  next begins =>
    obtain ⟨e, he, rfl⟩ := exists_of_task? hold
    have hset : (s.setTask i new).tasks[i]? = some { e with task := new } := by
      rw [getElem?_setTask, if_pos rfl, he]
      rfl
    rw [hset]
    exact .head (.enter i e new he h begins) (hturn ..)

theorem endTurn_reaches (fuel : Nat) (s : Timetable κ ρ σ) (t : Turn ρ) :
    (s.pend i t).Reaches f (s.endTurn f i fuel t) := by
  -- on the number of waiting runs that may follow
  induction fuel generalizing s t with
  | zero => cases t <;> exact .refl
  | succ fuel ih =>
    cases t with
    | wait delay r => exact .refl
    | finished outcome =>
      rw [endTurn]
      split
      · exact .refl
      next task htask =>
        have hsettled := settle_reaches (f := f) ih htask (.finish outcome)
        dsimp only
        split
        · exact hsettled.trans (arm_reaches ..)
        · exact hsettled

theorem fire_reaches {n : Nat} {t : Timer ρ} (ht : s.timers[n]? = some t) :
    s.Reaches f ({ s with timers := s.timers.eraseIdx n }.fire f t.alarm) := by
  cases ha : t.alarm with
  | tick i loop =>
    have hlapse : s.Reaches f { s with timers := s.timers.eraseIdx n } :=
      .single (.lapse n t ht fun _ _ h => nomatch ha.symm.trans h)
    rw [fire]
    split
    · exact hlapse
    next task htask =>
      have hsettled := settle_reaches (f := f) (endTurn_reaches (turnsFor task)) htask
        (.tick loop s.now)
      exact hlapse.trans hsettled
  | resume i r =>
    rw [fire]
    cases he : s.tasks[i]? with
    | none =>
      refine .single (.lapse n t ht fun j r' h => ?_)
      obtain ⟨rfl, rfl⟩ := Alarm.resume.inj (ha.symm.trans h)
      exact he
    | some e => exact .head (.resume n t i r e ht ha he) (endTurn_reaches ..)

theorem run_reaches (limit : Instant) (fuel : Nat) (s : Timetable κ ρ σ) :
    s.Reaches f (s.run f limit fuel) := by
  induction fuel generalizing s with
  | zero => exact .refl
  | succ fuel ih =>
    rw [Timetable.run]
    split
    · exact .refl
    next t timers hfirst =>
      obtain ⟨n, hn, rfl⟩ := Timer.takeFirst_eq_some hfirst
      have hclock : s.Reaches f { s with now := max s.now t.due } := .single (.clock _)
      have hfire := fire_reaches (f := f) (s := { s with now := max s.now t.due }) hn
      exact (hclock.trans hfire).trans (ih _)

theorem advanceTo_reaches (f : Actions κ ρ σ) (s : Timetable κ ρ σ) (limit : Instant) :
    s.Reaches f (s.advanceTo f limit) :=
  (run_reaches limit (s.fuelFor limit) s).tail (.clock _)

theorem Reaches.invariant {P : Timetable κ ρ σ → Prop} (h : s.Reaches f s')
    (step : ∀ s s', Shift f s s' → P s → P s') (start : P s) : P s' := by
  induction h with
  | refl => exact start
  | tail _ hshift ih => exact step _ _ hshift ih

section Lasting

def lasting (s : Timetable κ ρ σ) : List (κ × Lasting) :=
  s.tasks.map fun e => (e.key, e.task.lasting)

theorem lasting_setTask {old new : PeriodicTask} (hold : s.task? i = some old)
    (same : new.lasting = old.lasting) : (s.setTask i new).lasting = s.lasting := by
  refine List.ext_getElem? fun j => ?_
  rw [lasting, lasting, List.getElem?_map, List.getElem?_map, getElem?_setTask]
  split
  next hij =>
    subst hij
    obtain ⟨e, he, rfl⟩ := exists_of_task? hold
    rw [he, Option.map_some, Option.map_some, Option.map_some, same]
  · rfl

theorem state_pend (s : Timetable κ ρ σ) (i : Nat) (t : Turn ρ) : (s.pend i t).state = s.state := by
  cases t <;> rfl

theorem lasting_pend (s : Timetable κ ρ σ) (i : Nat) (t : Turn ρ) :
    (s.pend i t).lasting = s.lasting := by
  cases t <;> rfl

theorem Shift.lasting (h : Shift f s s') : s'.lasting = s.lasting := by
  cases h with
  | clock | arm | lapse => rfl
  | drive i old new hold h => exact lasting_setTask hold h.lasting
  | enter i e new he h =>
    rw [lasting_pend]
    exact lasting_setTask (by rw [task?, he]; rfl) h.lasting
  | resume => exact lasting_pend ..

theorem Reaches.lasting (h : s.Reaches f s') : s'.lasting = s.lasting :=
  h.invariant (P := fun s' => s'.lasting = s.lasting)
    (fun _ _ hshift hlasting => hshift.lasting.trans hlasting) rfl

theorem lasting_advanceTo (f : Actions κ ρ σ) (s : Timetable κ ρ σ) (limit : Instant) :
    (s.advanceTo f limit).lasting = s.lasting :=
  (s.advanceTo_reaches f limit).lasting

theorem exists_of_lasting (h : s'.lasting = s.lasting) {e : Scheduled κ}
    (he : s.tasks[i]? = some e) :
    ∃ e', s'.tasks[i]? = some e' ∧ e'.key = e.key ∧ e'.task.lasting = e.task.lasting := by
  have hentry := congrArg (·[i]?) h
  simp only [lasting, List.getElem?_map, he, Option.map_some] at hentry
  obtain ⟨e', he', hsame⟩ := Option.map_eq_some_iff.1 hentry
  obtain ⟨hkey, hlasting⟩ := Prod.mk.inj hsame
  exact ⟨e', he', hkey, hlasting⟩

theorem key?_of_lasting (h : s'.lasting = s.lasting) (i : Nat) : s'.key? i = s.key? i := by
  have hkeys := congrArg (fun l => (l[i]?).map Prod.fst) h
  simp only [lasting, List.getElem?_map, Option.map_map] at hkeys
  exact hkeys

end Lasting

def Known (s : Timetable κ ρ σ) : Prop :=
  ∀ t ∈ s.timers, ∀ i r, t.alarm = .resume i r → (s.key? i).isSome

theorem known_pend (h : s.Known) (hi : (s.key? i).isSome) (t : Turn ρ) : (s.pend i t).Known := by
  cases t with
  | finished => exact h
  | wait delay r =>
    intro u hu j r' ha
    rcases List.mem_append.1 hu with hold | hnew
    · exact h u hold j r' ha
    · rw [List.mem_singleton.1 hnew] at ha
      cases ha
      exact hi

theorem Shift.known (h : Shift f s s') (hs : s.Known) : s'.Known := by
  cases h with
  | clock => exact hs
  | arm due i loop =>
    intro u hu j r ha
    rcases List.mem_append.1 hu with hold | hnew
    · exact hs u hold j r ha
    · rw [List.mem_singleton.1 hnew] at ha
      cases ha
  | lapse n t ht => exact fun u hu => hs u (List.mem_of_mem_eraseIdx hu)
  | drive i old new hold h =>
    intro u hu j r ha
    rw [key?_setTask]
    exact hs u hu j r ha
  | enter i e new he =>
    have hset : { s.setTask i new with
        state := (f.enter e.key s.now s.state).1 }.Known := fun u hu j r ha => by
      have hkey := s.key?_setTask i j new
      rw [key?] at hkey ⊢
      rw [hkey]
      exact hs u hu j r ha
    refine known_pend hset ?_ _
    have hkey := s.key?_setTask i i new
    rw [key?] at hkey ⊢
    rw [hkey, key?, he]
    rfl
  | resume n t i r e ht ha he =>
    have herased : { s with
        timers := s.timers.eraseIdx n
        state := (f.resume e.key r s.now s.state).1 }.Known :=
      fun u hu => hs u (List.mem_of_mem_eraseIdx hu)
    refine known_pend herased ?_ _
    rw [key?, he]
    rfl

end Timetable

end NodeAgent
