import Mathlib.Data.List.Perm.Basic
import NodeAgent.Proofs.Lock
import NodeAgent.Proofs.Observed

/-!
No run of a task begins before the last one is over. The lock, the timers that go on with runs and the
log of what has begun and ended tell the same of each task, except in the middle of a turn.
-/

namespace NodeAgent

inductive Serial (i : Nat) : List RunEvent → Bool → Prop
  | nil : Serial i [] false
  | begins {log : List RunEvent} (h : Serial i log false) : Serial i (log ++ [.begins i]) true
  | ends {log : List RunEvent} (h : Serial i log true) : Serial i (log ++ [.ends i]) false
  | other {log : List RunEvent} {busy : Bool} (h : Serial i log busy) (e : RunEvent)
      (elsewhere : e.task ≠ i) : Serial i (log ++ [e]) busy

namespace Serial

variable {i : Nat} {log p : List RunEvent} {busy : Bool}

theorem count_begins (h : Serial i log busy) :
    log.count (.begins i) = log.count (.ends i) + busy.toNat := by
  induction h with
  | nil => rfl
  | begins _ ih => simpa [List.count_append] using ih
  | ends _ ih => simpa [List.count_append] using ih
  | other _ e elsewhere ih =>
    have hbegins : List.count (RunEvent.begins i) [e] = 0 :=
      List.count_eq_zero.2 fun he => elsewhere (by rw [← List.mem_singleton.1 he]; rfl)
    have hends : List.count (RunEvent.ends i) [e] = 0 :=
      List.count_eq_zero.2 fun he => elsewhere (by rw [← List.mem_singleton.1 he]; rfl)
    rwa [List.count_append, List.count_append, hbegins, hends]

theorem of_prefix (h : Serial i log busy) (hp : p <+: log) : ∃ busy', Serial i p busy' := by
  induction h with
  | nil => exact ⟨false, List.prefix_nil.1 hp ▸ nil⟩
  | begins h ih =>
    rcases List.prefix_concat_iff.1 hp with rfl | hp
    · exact ⟨true, h.begins⟩
    · exact ih hp
  | ends h ih =>
    rcases List.prefix_concat_iff.1 hp with rfl | hp
    · exact ⟨false, h.ends⟩
    · exact ih hp
  | other h e elsewhere ih =>
    rcases List.prefix_concat_iff.1 hp with rfl | hp
    · exact ⟨_, h.other e elsewhere⟩
    · exact ih hp

theorem others (h : Serial i log busy) {es : List RunEvent} (hes : ∀ e ∈ es, e.task ≠ i) :
    Serial i (log ++ es) busy := by
  induction es generalizing log with
  | nil => rwa [List.append_nil]
  | cons e es ih =>
    rw [List.append_cons]
    exact ih (h.other e (hes e (List.mem_cons_self ..)))
      fun e' he' => hes e' (List.mem_cons_of_mem _ he')

end Serial

section Actions

variable {κ ρ σ : Type}

def Turn.isWait : Turn ρ → Bool
  | .wait .. => true
  | .finished _ => false

theorem Serial.turn {i : Nat} {log : List RunEvent} (h : Serial i log true) (turn : Turn ρ) :
    Serial i (log ++ turn.log i) turn.isWait := by
  cases turn with
  | wait d r => rwa [Turn.log, List.append_nil]
  | finished outcome => exact h.ends

theorem Turn.task_of_mem_log {i : Nat} {turn : Turn ρ} {e : RunEvent} (h : e ∈ turn.log i) :
    e.task = i := by
  cases turn with
  | wait => cases h
  | finished => rw [List.mem_singleton.1 h, RunEvent.task]

namespace Timetable

def running (s : Timetable κ ρ σ) (i : Nat) : Nat := ((s.task? i).map PeriodicTask.running).getD 0

def pending (s : Timetable κ ρ σ) (i : Nat) : Nat :=
  s.timers.countP fun t => t.alarm.resumed? = some i

variable {s : Timetable κ ρ σ} {i j : Nat}

theorem running_of_task? {t : PeriodicTask} (h : s.task? i = some t) : s.running i = t.running := by
  rw [running, h]
  rfl

theorem running_setTask_self {t : PeriodicTask} (h : s.task? i = some t) (t' : PeriodicTask) :
    (s.setTask i t').running i = t'.running :=
  running_of_task? (by rw [task?_setTask, if_pos rfl, h]; rfl)

theorem running_setTask_of_ne (h : j ≠ i) (t : PeriodicTask) :
    (s.setTask i t).running j = s.running j := by
  rw [running, running, task?_setTask, if_neg h.symm]

theorem exists_of_running (h : s.running i ≠ 0) :
    ∃ t, s.task? i = some t ∧ t.running = s.running i := by
  cases ht : s.task? i with
  | none => simp [running, ht] at h
  | some t => exact ⟨t, rfl, (running_of_task? ht).symm⟩

theorem pending_setTimer (s : Timetable κ ρ σ) (due : Instant) (a : Alarm ρ) (j : Nat) :
    (s.setTimer due a).pending j = s.pending j + (decide (a.resumed? = some j)).toNat := by
  rw [pending, setTimer, List.countP_append]
  cases h : decide (a.resumed? = some j) <;> simp [pending, h]

theorem pending_eraseIdx {n : Nat} {t : Timer ρ} (h : s.timers[n]? = some t) (j : Nat) :
    pending { s with timers := s.timers.eraseIdx n } j +
      (decide (t.alarm.resumed? = some j)).toNat = s.pending j := by
  obtain ⟨hn, rfl⟩ := List.getElem?_eq_some_iff.1 h
  have hperm := (List.getElem_cons_eraseIdx_perm hn).countP_eq
    fun u : Timer ρ => decide (u.alarm.resumed? = some j)
  rw [List.countP_cons] at hperm
  rw [pending, pending, ← hperm]
  cases decide (s.timers[n].alarm.resumed? = some j) <;> simp

section Observed

variable {s : Timetable (Nat × κ) ρ (σ × List RunEvent)} {held awaited busy : Bool}

structure Stands (s : Timetable (Nat × κ) ρ (σ × List RunEvent)) (i : Nat)
    (held awaited busy : Bool) : Prop where
  running : s.running i = held.toNat
  pending : s.pending i = awaited.toNat
  serial : Serial i s.state.2 busy

structure Orderly (s : Timetable (Nat × κ) ρ (σ × List RunEvent)) : Prop where
  numbers : ∀ i k, s.key? i = some k → k.1 = i
  tasks : ∀ i, ∃ b, s.Stands i b b b

structure Amid (s : Timetable (Nat × κ) ρ (σ × List RunEvent)) (i : Nat) (turn : Turn ρ) :
    Prop where
  numbers : ∀ j k, s.key? j = some k → k.1 = j
  own : s.Stands i true false turn.isWait
  others : ∀ j, j ≠ i → ∃ b, s.Stands j b b b

theorem Stands.setTask_of_ne (h : s.Stands j held awaited busy) (hj : j ≠ i) (t : PeriodicTask) :
    (s.setTask i t).Stands j held awaited busy :=
  ⟨(running_setTask_of_ne hj t).trans h.running, h.pending, h.serial⟩

theorem Stands.setTimer (h : s.Stands j held awaited busy) (due : Instant) {a : Alarm ρ}
    (ha : a.resumed? ≠ some j) : (s.setTimer due a).Stands j held awaited busy := by
  refine ⟨h.running, ?_, h.serial⟩
  rw [pending_setTimer, decide_eq_false ha]
  exact h.pending

theorem Stands.arm (h : s.Stands j held awaited busy) (i loop : Nat) :
    (s.arm i loop).Stands j held awaited busy := by
  unfold Timetable.arm
  split
  · exact h.setTimer _ nofun
  · exact h

theorem Stands.note (h : s.Stands j held awaited busy) (y : σ) {es : List RunEvent}
    (hes : ∀ e ∈ es, e.task ≠ j) :
    Stands { s with state := (y, s.state.2 ++ es) } j held awaited busy :=
  ⟨h.running, h.pending, h.serial.others hes⟩

theorem Orderly.arm (h : s.Orderly) (i loop : Nat) : (s.arm i loop).Orderly := by
  refine ⟨fun j k hk => h.numbers j k ((s.key?_arm i loop j).symm.trans hk), fun j => ?_⟩
  obtain ⟨b, hb⟩ := h.tasks j
  exact ⟨b, hb.arm i loop⟩

theorem Orderly.setTask (h : s.Orderly) {old new : PeriodicTask} (hold : s.task? i = some old)
    (same : new.running = old.running) : (s.setTask i new).Orderly := by
  refine ⟨fun j k hk => h.numbers j k ((s.key?_setTask i j new).symm.trans hk), fun j => ?_⟩
  obtain ⟨b, hb⟩ := h.tasks j
  by_cases hj : j = i
  · subst hj
    refine ⟨b, ?_, hb.pending, hb.serial⟩
    rw [running_setTask_self hold, same, ← running_of_task? hold]
    exact hb.running
  · exact ⟨b, hb.setTask_of_ne hj new⟩

variable {f : Actions κ ρ σ} {turn : Timetable (Nat × κ) ρ (σ × List RunEvent) → Turn ρ →
  Timetable (Nat × κ) ρ (σ × List RunEvent)}

theorem settle_orderly {waiting : Nat} (numbers : ∀ j k, s.key? j = some k → k.1 = j)
    (own : s.Stands i held false false) (others : ∀ j, j ≠ i → ∃ b, s.Stands j b b b)
    {old new : PeriodicTask} (hold : s.task? i = some old)
    (granted : PeriodicTask.Granted old.begun waiting new)
    (hturn : ∀ s' t, Amid s' i t → (∀ task, s'.task? i = some task → task.queue.length < waiting) →
      (turn s' t).Orderly) :
    (s.settle f.logged i turn old new).Orderly := by
  have hnumbers : ∀ j k, (s.setTask i new).key? j = some k → k.1 = j := fun j k hk =>
    numbers j k ((s.key?_setTask i j new).symm.trans hk)
  have hothers : ∀ j, j ≠ i → ∃ b, (s.setTask i new).Stands j b b b := fun j hj =>
    (others j hj).imp fun b hb => hb.setTask_of_ne hj new
  have hrunning := running_setTask_self hold new
  unfold settle
  cases granted with
  | free running same =>
    simp only [if_pos same]
    refine ⟨hnumbers, fun j => ?_⟩
    by_cases hj : j = i
    · subst hj
      exact ⟨false, hrunning.trans running, own.pending, own.serial⟩
    · exact hothers j hj
  | taken running next queue =>
    -- the run that begins has its first turn at once, and may even end with it
    have hbegun : new.begun ≠ old.begun := by omega
    simp only [if_neg hbegun]
    split
    next hnone =>
      have htask := s.task?_setTask i i new
      rw [if_pos rfl, hold, task?, hnone] at htask
      cases htask
    next e he =>
      have hnumber : e.key.1 = i := hnumbers i e.key (by rw [key?, he]; rfl)
      simp only [Actions.enter_logged, hnumber]
      generalize f.enter e.key.2 (s.setTask i new).now (s.setTask i new).state.1 = p
      have hserial := own.serial.begins.turn p.2
      rw [← List.append_cons] at hserial
      refine hturn _ _ ⟨hnumbers, ⟨hrunning.trans running, own.pending, hserial⟩, fun j hj => ?_⟩
        fun task htask => ?_
      · obtain ⟨b, hb⟩ := hothers j hj
        refine ⟨b, hb.note p.1 fun e' he' => ?_⟩
        rcases List.mem_cons.1 he' with rfl | he'
        · exact hj.symm
        · exact Turn.task_of_mem_log he' ▸ hj.symm
      · have hnew := s.task?_setTask i i new
        rw [if_pos rfl, hold] at hnew
        obtain rfl : new = task := Option.some.inj (hnew.symm.trans htask)
        exact queue

theorem endTurn_orderly (fuel : Nat) {t : Turn ρ} (h : s.Amid i t)
    (enough : ∀ task, s.task? i = some task → task.queue.length < fuel) :
    (s.endTurn f.logged i fuel t).Orderly := by
  -- on the number of waiting runs that may follow: each that begins has left the queue
  induction fuel generalizing s t with
  | zero =>
    obtain ⟨task, htask, -⟩ := exists_of_running (s := s) (i := i) (by rw [h.own.running]; nofun)
    exact absurd (enough task htask) (Nat.not_lt_zero _)
  | succ fuel ih =>
    cases t with
    | wait d r =>
      refine ⟨h.numbers, fun j => ?_⟩
      by_cases hj : j = i
      · subst hj
        have hpending := s.pending_setTimer (s.now + d) (.resume j r) j
        rw [h.own.pending, Alarm.resumed?, decide_eq_true rfl] at hpending
        exact ⟨true, h.own.running, hpending, h.own.serial⟩
      · obtain ⟨b, hb⟩ := h.others j hj
        exact ⟨b, hb.setTimer _ fun heq => hj (Option.some.inj heq).symm⟩
    | finished outcome =>
      -- the log says that the run is over, and its loop still has the lock
      rw [endTurn]
      obtain ⟨task, htask, hrunning⟩ :=
        exists_of_running (s := s) (i := i) (by rw [h.own.running]; nofun)
      rw [h.own.running] at hrunning
      simp only [htask]
      have hsettled : (s.settle f.logged i (endTurn f.logged i fuel) task
          (task.finish outcome)).Orderly := by
        refine settle_orderly h.numbers h.own h.others htask
          (PeriodicTask.granted_finish hrunning outcome) fun s' t' hamid hqueue => ?_
        refine ih hamid fun task' htask' => ?_
        have hshorter := hqueue task' htask'
        have hfuel := enough task htask
        omega
      split
      · exact hsettled.arm ..
      · exact hsettled

theorem Orderly.tick (h : s.Orderly) (i loop : Nat) :
    (s.fire f.logged (.tick i loop)).Orderly := by
  rw [Timetable.fire]
  split
  · exact h
  next task htask =>
    rcases task.granted_tick loop s.now with ⟨hsame, hbegun⟩ | ⟨hfree, hgranted⟩
    · simp only [Timetable.settle, if_pos hbegun]
      exact h.setTask htask hsame
    · obtain ⟨b, hb⟩ := h.tasks i
      have hrunning := hb.running
      rw [running_of_task? htask, hfree] at hrunning
      obtain rfl : b = false := Bool.toNat_eq_zero.1 hrunning.symm
      exact settle_orderly h.numbers hb (fun j _ => h.tasks j) htask hgranted
        fun s' t hamid hqueue => endTurn_orderly _ hamid hqueue

variable {n : Nat} {due : Instant}

theorem Orderly.without_tick {loop : Nat} (h : s.Orderly)
    (hn : s.timers[n]? = some ⟨due, .tick i loop⟩) :
    Orderly { s with timers := s.timers.eraseIdx n } := by
  refine ⟨h.numbers, fun j => ?_⟩
  obtain ⟨b, hb⟩ := h.tasks j
  exact ⟨b, hb.running, (s.pending_eraseIdx hn j).trans hb.pending, hb.serial⟩

theorem Orderly.resume {r : ρ} (h : s.Orderly) (hn : s.timers[n]? = some ⟨due, .resume i r⟩) :
    ({ s with timers := s.timers.eraseIdx n }.fire f.logged (.resume i r)).Orderly := by
  obtain ⟨b, hb⟩ := h.tasks i
  have hown := s.pending_eraseIdx hn i
  rw [Alarm.resumed?, decide_eq_true rfl, hb.pending] at hown
  obtain rfl : b = true := by
    cases b with
    | true => rfl
    | false => cases hown
  have hawaited : pending { s with timers := s.timers.eraseIdx n } i = 0 := Nat.succ.inj hown
  obtain ⟨task, htask, -⟩ := exists_of_running (s := s) (i := i) (by rw [hb.running]; nofun)
  obtain ⟨e, he, rfl⟩ := exists_of_task? htask
  have hnumber : e.key.1 = i := h.numbers i e.key (by rw [key?, he]; rfl)
  simp only [Timetable.fire, he, Actions.resume_logged, hnumber]
  generalize f.resume e.key.2 r s.now s.state.1 = p
  refine endTurn_orderly _ ⟨h.numbers, ⟨hb.running, hawaited, hb.serial.turn p.2⟩, fun j hj => ?_⟩
    fun task htask' => ?_
  · obtain ⟨b, hb⟩ := h.tasks j
    have hother := s.pending_eraseIdx hn j
    rw [Alarm.resumed?, decide_eq_false fun heq => hj (Option.some.inj heq).symm] at hother
    have hrest : Stands { s with timers := s.timers.eraseIdx n } j b b b :=
      ⟨hb.running, hother.trans hb.pending, hb.serial⟩
    exact ⟨b, hrest.note p.1 fun e' he' => Turn.task_of_mem_log he' ▸ hj.symm⟩
  · obtain rfl : e.task = task := Option.some.inj (htask.symm.trans htask')
    exact Nat.lt_succ_self _

theorem Orderly.fire {t : Timer ρ} (h : s.Orderly) (hn : s.timers[n]? = some t) :
    ({ s with timers := s.timers.eraseIdx n }.fire f.logged t.alarm).Orderly := by
  rcases t with ⟨due, ⟨i, loop⟩ | ⟨i, r⟩⟩
  · exact (h.without_tick hn).tick i loop
  · exact h.resume hn

theorem Orderly.move (h : s.Orderly) (m : Move) : (s.move f.logged m).Orderly := by
  cases m with
  | start i delayed =>
    rw [Timetable.move, Timetable.start]
    split
    · exact h
    next t ht =>
      split
      · exact h
      · exact (h.setTask ht (t.running_start delayed s.now)).arm ..
  | close i =>
    rw [Timetable.move, Timetable.close]
    split
    · exact h
    next t ht => exact h.setTask ht t.running_close
  | elapse now =>
    refine ⟨h.numbers, fun i => ?_⟩
    obtain ⟨b, hb⟩ := h.tasks i
    exact ⟨b, hb.running, hb.pending, hb.serial⟩
  | fire n =>
    rw [Timetable.move]
    split
    next t ht =>
      split
      · exact h.fire ht
      · exact h
    · exact h

theorem Orderly.play (h : s.Orderly) (moves : List Move) : (s.play f.logged moves).Orderly := by
  induction moves generalizing s with
  | nil => exact h
  | cons m moves ih => exact ih (h.move m)

theorem observed_orderly (x : σ) (tasks : List (κ × Nat)) :
    (observed x tasks : Timetable (Nat × κ) ρ (σ × List RunEvent)).Orderly := by
  refine ⟨fun i k hk => ?_, fun i => ⟨false, ?_, rfl, .nil⟩⟩
  · rw [key?, observed, List.getElem?_mapIdx, Option.map_map] at hk
    obtain ⟨e, -, rfl⟩ := Option.map_eq_some_iff.1 hk
    rfl
  · rw [running, task?, observed, List.getElem?_mapIdx, Option.map_map, Option.map_map]
    cases tasks[i]? <;> rfl

/--
Whatever is started and closed, and whenever timers go off: a run of a task begins only after the last
one has ended. At the end of the moves a run is in progress just if a loop of the task has the lock.
-/
theorem runs_one_at_a_time (f : Actions κ ρ σ) (x : σ) (tasks : List (κ × Nat)) (moves : List Move)
    (i : Nat) :
    let s := (observed x tasks).play f.logged moves
    (∀ p, p <+: s.state.2 → p.count (.ends i) ≤ p.count (.begins i) ∧
        p.count (.begins i) ≤ p.count (.ends i) + 1) ∧
      s.state.2.count (.begins i) = s.state.2.count (.ends i) + s.running i ∧
        s.pending i = s.running i := by
  intro s
  obtain ⟨b, hb⟩ := ((observed_orderly x tasks).play (f := f) moves).tasks i
  refine ⟨fun p hp => ?_, ?_, hb.pending.trans hb.running.symm⟩
  · obtain ⟨busy, hserial⟩ := hb.serial.of_prefix hp
    rw [hserial.count_begins]
    exact ⟨Nat.le_add_right _ _, Nat.add_le_add_left (Bool.toNat_le busy) _⟩
  · rw [hb.running]
    exact hb.serial.count_begins

/-- A restart while a run is in progress: the next run begins as that one ends. -/
example :
    let slow : Actions Unit Unit Unit :=
      ⟨fun _ _ x => (x, .wait 25 ()), fun _ _ _ x => (x, .finished .ok)⟩
    let s := (observed () [((), 100)]).play slow.logged
      [.start 0 false, .fire 0, .elapse 5, .close 0, .start 0 false, .fire 1, .elapse 25]
    s.state.2 = [.begins 0] ∧
      (s.play slow.logged [.fire 0]).state.2 = [.begins 0, .ends 0, .begins 0] := by
  decide

end Observed

end Timetable

end Actions

end NodeAgent
