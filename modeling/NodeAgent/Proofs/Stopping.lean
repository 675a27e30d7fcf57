import NodeAgent.Proofs.Chronicle
import NodeAgent.Proofs.Overlap

/-!
A task that was closed begins no run until it is started again, and what an earlier start left
behind does not run in its place: a loop that waits for the lock, or a run that goes on, keeps to
the close that came after its own start.
-/

namespace NodeAgent

inductive Loop.Asleep (u : Instant) : Loop → Prop
  | cancelled (phase : Phase) : Asleep u ⟨phase, true⟩
  | ended (cancelled : Bool) : Asleep u ⟨.ended, cancelled⟩
  | waiting {due : Instant} (later : u ≤ due) (cancelled : Bool) : Asleep u ⟨.waiting due, cancelled⟩

theorem Loop.asleep_cancel (u : Instant) (l : Loop) : l.cancel.Asleep u := by
  rcases l with ⟨phase, cancelled⟩
  cases phase <;> exact .cancelled _

namespace PeriodicTask

variable {t t' : PeriodicTask} {u now : Instant} {period : Nat} {call : Option StartCall}

def Asleep (t : PeriodicTask) (u : Instant) : Prop := ∀ l ∈ t.loops, l.Asleep u

/-- A step at the instant `now` makes `t'` of `t`, and a run of it begins if `began`. -/
structure Becomes (t t' : PeriodicTask) (now : Instant) (began : Prop) : Prop where
  period : t'.period = t.period
  isOpen : t'.isOpen = t.isOpen
  asleep : ∀ u, now < u → t.Asleep u → t'.Asleep u ∧ ¬ began

structure Obeys (t : PeriodicTask) (period : Nat) (call : Option StartCall) (now : Instant) :
    Prop where
  hasPeriod : t.period = period
  isOpen : t.isOpen = call.isSome
  asleep : ∀ u, now < u → (∀ c ∈ call, u ≤ c.firstRun period) → t.Asleep u

theorem Asleep.setLoop (h : t.Asleep u) (i : Nat) {l : Loop} (hl : l.Asleep u) :
    (t.setLoop i l).Asleep u := by
  intro l' hl'
  rcases List.mem_or_eq_of_mem_set hl' with hmem | rfl
  · exact h l' hmem
  · exact hl

theorem grant_frame (t : PeriodicTask) (queue : List Nat) :
    (t.grant queue).period = t.period ∧ (t.grant queue).isOpen = t.isOpen := by
  induction queue generalizing t with
  | nil => exact ⟨rfl, rfl⟩
  | cons i rest ih =>
    rw [grant]
    split
    · exact ⟨rfl, rfl⟩
    · exact ih _
    · exact ih _

theorem Asleep.grant (h : t.Asleep u) (queue : List Nat) :
    (t.grant queue).Asleep u ∧ (t.grant queue).begun = t.begun := by
  -- on the queue: the lock passes over every loop that was cancelled
  induction queue generalizing t with
  | nil => exact ⟨h, rfl⟩
  | cons i rest ih =>
    rw [PeriodicTask.grant]
    split
    next due hloop => cases h _ (List.mem_of_getElem? hloop)
    next l _ hloop => exact ih (h.setLoop i (.ended _))
    · exact ih h

theorem Becomes.refl (t : PeriodicTask) (now : Instant) {began : Prop} (hnone : ¬began) :
    t.Becomes t now began :=
  ⟨rfl, rfl, fun _ _ h => ⟨h, hnone⟩⟩

theorem Becomes.mono {began began' : Prop} (h : t.Becomes t' now began) (himp : began' → began) :
    t.Becomes t' now began' :=
  ⟨h.period, h.isOpen, fun u hu hasleep => (h.asleep u hu hasleep).imp_right (mt himp)⟩

theorem Becomes.trans {t'' : PeriodicTask} {began began' : Prop} (h : t.Becomes t' now began)
    (h' : t'.Becomes t'' now began') : t.Becomes t'' now (began ∨ began') := by
  refine ⟨h'.period.trans h.period, h'.isOpen.trans h.isOpen, fun u hu hasleep => ?_⟩
  obtain ⟨hasleep', hbegan⟩ := h.asleep u hu hasleep
  obtain ⟨hasleep'', hbegan'⟩ := h'.asleep u hu hasleep'
  exact ⟨hasleep'', not_or.2 ⟨hbegan, hbegan'⟩⟩

theorem becomes_tick (t : PeriodicTask) (i : Nat) (now : Instant) :
    t.Becomes (t.tick i now) now ((t.tick i now).begun ≠ t.begun) := by
  unfold tick
  split
  next due cancelled hloop =>
    split
    next hdue =>
      have hqueued : ∀ u, now < u → t.Asleep u →
          (t.setLoop i ⟨.queued (nextDue t.period due now), cancelled⟩).Asleep u := by
        intro u hu h
        refine h.setLoop i ?_
        cases h _ (List.mem_of_getElem? hloop) with
        | cancelled => exact .cancelled _
        | waiting later => exact absurd (Nat.lt_of_lt_of_le hu later) (Nat.not_lt.2 hdue)
      dsimp only
      split
      · exact ⟨rfl, rfl, fun u hu h => ⟨hqueued u hu h, fun hbegan => hbegan rfl⟩⟩
      · obtain ⟨hperiod, hopen⟩ := grant_frame
          (t.setLoop i ⟨.queued (nextDue t.period due now), cancelled⟩) (t.queue ++ [i])
        refine ⟨hperiod, hopen, fun u hu h => ?_⟩
        obtain ⟨hasleep, hbegun⟩ := (hqueued u hu h).grant (t.queue ++ [i])
        exact ⟨hasleep, fun hbegan => hbegan hbegun⟩
    · exact .refl t now fun hbegan => hbegan rfl
  · exact .refl t now fun hbegan => hbegan rfl

theorem becomes_finish (t : PeriodicTask) (outcome : Outcome) (now : Instant) :
    t.Becomes (t.finish outcome) now ((t.finish outcome).begun ≠ t.begun) := by
  unfold finish
  split
  · exact .refl t now fun hbegan => hbegan rfl
  next i _ =>
    split
    next due cancelled hloop =>
      obtain ⟨hperiod, hopen⟩ := grant_frame (t.setLoop i
        ⟨if cancelled || outcome == .panicked then .ended else .waiting due, cancelled⟩) t.queue
      refine ⟨hperiod, hopen, fun u _ h => ?_⟩
      -- a run that goes on in a task asleep is one of a loop that was cancelled
      have hcancelled : cancelled = true := by
        cases h _ (List.mem_of_getElem? hloop)
        rfl
      subst hcancelled
      obtain ⟨hasleep, hbegun⟩ := (h.setLoop i (.cancelled .ended)).grant t.queue
      exact ⟨hasleep, fun hbegan => hbegan hbegun⟩
    · exact .refl t now fun hbegan => hbegan rfl

namespace Obeys

theorem becomes {began : Prop} (h : t.Obeys period call now) (h' : t.Becomes t' now began) :
    t'.Obeys period call now :=
  ⟨h'.period.trans h.hasPeriod, h'.isOpen.trans h.isOpen,
    fun u hu hcall => (h'.asleep u hu (h.asleep u hu hcall)).1⟩

theorem due_of_began {began : Prop} (h : t.Obeys period call now) (h' : t.Becomes t' now began)
    (hbegan : began) : ∃ c ∈ call, c.firstRun period ≤ now := by
  by_contra hnone
  have hasleep : t.Asleep (now + 1) := by
    refine h.asleep (now + 1) (Nat.lt_succ_self now) fun c hc => ?_
    exact Nat.lt_of_not_le fun hle => hnone ⟨c, hc, hle⟩
  exact (h'.asleep (now + 1) (Nat.lt_succ_self now) hasleep).2 hbegan

theorem elapse (h : t.Obeys period call now) (now' : Instant) :
    t.Obeys period call (max now now') :=
  ⟨h.hasPeriod, h.isOpen, fun u hu => h.asleep u (Nat.lt_of_le_of_lt (Nat.le_max_left ..) hu)⟩

theorem close (h : t.Obeys period call now) : t.close.Obeys period none now := by
  refine ⟨h.hasPeriod, rfl, fun u _ _ l hl => ?_⟩
  obtain ⟨l', -, rfl⟩ := List.mem_map.1 hl
  exact l'.asleep_cancel u

theorem start (h : t.Obeys period call now) (delayed : Bool) :
    (t.start delayed now).Obeys period (call.or (some ⟨now, delayed⟩)) now := by
  cases call with
  | some c =>
    have hopen : t.isOpen = true := h.isOpen
    rw [PeriodicTask.start, if_pos hopen]
    exact h
  | none =>
    have hopen : t.isOpen = false := h.isOpen
    rw [PeriodicTask.start, hopen, if_neg Bool.false_ne_true]
    refine ⟨h.hasPeriod, rfl, fun u hu hcall l hl => ?_⟩
    rcases List.mem_append.1 hl with hold | hnew
    · exact h.asleep u hu (by simp) l hold
    · rw [List.mem_singleton.1 hnew, newLoop, h.hasPeriod]
      have hfirst := hcall ⟨now, delayed⟩ rfl
      rw [StartCall.firstRun] at hfirst
      split
      · exact .ended _
      · exact .waiting hfirst _

end Obeys

end PeriodicTask

namespace Timetable

variable {κ ρ σ : Type} {f : Actions κ ρ σ}
variable {s s' s'' : Timetable (Nat × κ) ρ (σ × List RunEvent)} {es es' : List RunEvent} {i : Nat}

def Numbered (s : Timetable (Nat × κ) ρ (σ × List RunEvent)) : Prop :=
  ∀ j k, s.key? j = some k → k.1 = j

/-- The clock stands, the log goes on by `es`, and every task keeps to what it waits for. -/
structure Goes (s s' : Timetable (Nat × κ) ρ (σ × List RunEvent)) (es : List RunEvent) : Prop where
  now : s'.now = s.now
  keys : ∀ j, s'.key? j = s.key? j
  log : s'.state.2 = s.state.2 ++ es
  tasks : ∀ j t, s.task? j = some t → ∃ t', s'.task? j = some t' ∧
    t.Becomes t' s.now (.begins j ∈ es)

namespace Goes

theorem with_timers (s : Timetable (Nat × κ) ρ (σ × List RunEvent)) (timers : List (Timer ρ)) :
    s.Goes { s with timers } [] :=
  ⟨rfl, fun _ => rfl, (List.append_nil _).symm, fun _ t ht => ⟨t, ht, .refl t s.now nofun⟩⟩

theorem refl (s : Timetable (Nat × κ) ρ (σ × List RunEvent)) : s.Goes s [] :=
  with_timers s s.timers

theorem trans (h : s.Goes s' es) (h' : s'.Goes s'' es') : s.Goes s'' (es ++ es') := by
  refine ⟨h'.now.trans h.now, fun j => (h'.keys j).trans (h.keys j), ?_, fun j t ht => ?_⟩
  · rw [h'.log, h.log, List.append_assoc]
  · obtain ⟨t', ht', hbecomes⟩ := h.tasks j t ht
    obtain ⟨t'', ht'', hbecomes'⟩ := h'.tasks j t' ht'
    rw [h.now] at hbecomes'
    exact ⟨t'', ht'', (hbecomes.trans hbecomes').mono List.mem_append.1⟩

theorem numbered (h : s.Goes s' es) (hs : s.Numbered) : s'.Numbered :=
  fun j k hk => hs j k ((h.keys j).symm.trans hk)

theorem arm (s : Timetable (Nat × κ) ρ (σ × List RunEvent)) (i loop : Nat) :
    s.Goes (s.arm i loop) [] := by
  unfold Timetable.arm
  split
  · exact with_timers s _
  · exact refl s

theorem setTask {old new : PeriodicTask} (hold : s.task? i = some old)
    (h : old.Becomes new s.now False) : s.Goes (s.setTask i new) [] := by
  refine ⟨rfl, fun j => s.key?_setTask i j new, (List.append_nil _).symm, fun j t ht => ?_⟩
  rw [task?_setTask]
  by_cases hij : i = j
  · subst hij
    obtain rfl : old = t := Option.some.inj (hold.symm.trans ht)
    rw [if_pos rfl, ht]
    exact ⟨new, rfl, h.mono nofun⟩
  · rw [if_neg hij]
    exact ⟨t, ht, .refl t s.now nofun⟩

theorem write (i : Nat) (y : σ) (hes : ∀ e ∈ es, e.task = i)
    (hbegins : ∀ t u, s.task? i = some t → s.now < u → t.Asleep u → .begins i ∉ es) :
    s.Goes { s with state := (y, s.state.2 ++ es) } es := by
  refine ⟨rfl, fun _ => rfl, rfl, fun j t ht => ⟨t, ht, rfl, rfl, fun u hu hasleep => ?_⟩⟩
  refine ⟨hasleep, fun hmem => ?_⟩
  obtain rfl : j = i := hes _ hmem
  exact hbegins t u ht hu hasleep hmem

end Goes

variable {turn : Timetable (Nat × κ) ρ (σ × List RunEvent) → Turn ρ →
  Timetable (Nat × κ) ρ (σ × List RunEvent)}

theorem settle_goes (hs : s.Numbered) {old new : PeriodicTask} (hold : s.task? i = some old)
    (hnew : old.Becomes new s.now (new.begun ≠ old.begun))
    (hturn : ∀ s' t, Numbered s' → ∃ es, Goes s' (turn s' t) es) :
    ∃ es, s.Goes (s.settle f.logged i turn old new) es := by
  unfold settle
  dsimp only
  split
  next hsame => exact ⟨[], .setTask hold (hnew.mono False.elim)⟩
  next hbegun =>
    obtain ⟨e, he, rfl⟩ := exists_of_task? hold
    have hnumber : e.key.1 = i := hs i e.key (by rw [key?, he]; rfl)
    have hentry : (s.setTask i new).tasks[i]? = some { e with task := new } := by
      rw [getElem?_setTask, if_pos rfl, he]
      rfl
    simp only [hentry, Actions.enter_logged, hnumber]
    generalize f.enter e.key.2 (s.setTask i new).now (s.setTask i new).state.1 = p
    -- the task was not asleep, for a run of it begins
    have hwrite : s.Goes { s with state := (p.1, s.state.2 ++ .begins i :: p.2.log i) }
        (.begins i :: p.2.log i) := by
      refine .write i p.1 (fun e' he' => ?_) fun t u ht hu hasleep => ?_
      · rcases List.mem_cons.1 he' with rfl | he'
        · rfl
        · exact Turn.task_of_mem_log he'
      · obtain rfl : e.task = t := Option.some.inj (hold.symm.trans ht)
        exact absurd hbegun (hnew.asleep u hu hasleep).2
    have hset := hwrite.trans (.setTask hold (hnew.mono False.elim))
    obtain ⟨es, hes⟩ := hturn _ p.2 (hset.numbered hs)
    exact ⟨_, hset.trans hes⟩

theorem endTurn_goes (fuel : Nat) (hs : s.Numbered) (t : Turn ρ) :
    ∃ es, s.Goes (s.endTurn f.logged i fuel t) es := by
  -- on the number of waiting runs that may follow
  induction fuel generalizing s t with
  | zero =>
    cases t with
    | wait d r => exact ⟨[], .with_timers ..⟩
    | finished outcome => exact ⟨[], .refl s⟩
  | succ fuel ih =>
    cases t with
    | wait d r => exact ⟨[], .with_timers ..⟩
    | finished outcome =>
      rw [endTurn]
      split
      · exact ⟨[], .refl s⟩
      next task htask =>
        obtain ⟨es, hes⟩ := settle_goes (f := f) hs htask
          (task.becomes_finish outcome s.now) fun s' t' hs' => ih hs' t'
        dsimp only
        split
        · exact ⟨_, hes.trans (.arm ..)⟩
        · exact ⟨es, hes⟩

theorem fire_goes (hs : s.Numbered) (a : Alarm ρ) : ∃ es, s.Goes (s.fire f.logged a) es := by
  cases a with
  | tick i loop =>
    rw [fire]
    split
    · exact ⟨[], .refl s⟩
    next t ht =>
      exact settle_goes hs ht (t.becomes_tick loop s.now) fun s' t' hs' => endTurn_goes _ hs' t'
  | resume i r =>
    cases he : s.tasks[i]? with
    | none =>
      simp only [fire, he]
      exact ⟨[], .refl s⟩
    | some e =>
      have hnumber : e.key.1 = i := hs i e.key (by rw [key?, he]; rfl)
      simp only [fire, he, Actions.resume_logged, hnumber]
      generalize f.resume e.key.2 r s.now s.state.1 = p
      have hwrite : s.Goes { s with state := (p.1, s.state.2 ++ p.2.log i) } (p.2.log i) := by
        refine .write i p.1 (fun e' he' => Turn.task_of_mem_log he') fun t u _ _ _ hmem => ?_
        cases hp : p.2 with
        | wait => simp [hp, Turn.log] at hmem
        | finished => simp [hp, Turn.log] at hmem
      obtain ⟨es, hes⟩ := endTurn_goes (f := f) (i := i) (turnsFor e.task) (hwrite.numbered hs) p.2
      exact ⟨_, hwrite.trans hes⟩

theorem move_fire_goes (hs : s.Numbered) (n : Nat) :
    ∃ es, s.Goes (s.move f.logged (.fire n)) es := by
  rw [move]
  split
  next t ht =>
    split
    · have hrest : s.Goes { s with timers := s.timers.eraseIdx n } [] := .with_timers ..
      obtain ⟨es, hes⟩ := fire_goes (f := f) (hrest.numbered hs) t.alarm
      exact ⟨_, hrest.trans hes⟩
    · exact ⟨[], .refl s⟩
  · exact ⟨[], .refl s⟩

theorem start_frame (s : Timetable (Nat × κ) ρ (σ × List RunEvent)) (i : Nat) (delayed : Bool) :
    (s.start i delayed).state = s.state ∧ (s.start i delayed).now = s.now := by
  unfold start
  split
  · exact ⟨rfl, rfl⟩
  · split
    · exact ⟨rfl, rfl⟩
    · unfold arm
      split <;> exact ⟨rfl, rfl⟩

theorem move_frame (hs : s.Numbered) (m : Move) :
    s.now ≤ (s.move f.logged m).now ∧ s.state.2 <+: (s.move f.logged m).state.2 ∧
      (s.move f.logged m).Numbered := by
  cases m with
  | start i delayed =>
    obtain ⟨hstate, hnow⟩ := s.start_frame i delayed
    refine ⟨Nat.le_of_eq hnow.symm, ?_, fun j k hk => hs j k ?_⟩
    · exact hstate ▸ List.prefix_refl _
    · rwa [← s.key?_start i j delayed]
  | close i =>
    obtain ⟨hstate, hnow, -, hkeys⟩ := s.close_frame i
    refine ⟨Nat.le_of_eq hnow.symm, ?_, fun j k hk => hs j k ((hkeys j).symm.trans hk)⟩
    exact hstate ▸ List.prefix_refl _
  | elapse now => exact ⟨Nat.le_max_left .., List.prefix_refl _, hs⟩
  | fire n =>
    obtain ⟨es, hes⟩ := move_fire_goes (f := f) hs n
    exact ⟨Nat.le_of_eq hes.now.symm, hes.log ▸ List.prefix_append .., hes.numbered hs⟩

theorem entries_of_log {m : Move} (h : (s.move f.logged m).state.2 = s.state.2 ++ es) :
    s.entries f m = (m.call?.toList.map fun c => ⟨s.now, c⟩) ++ es.map fun e => ⟨s.now, .run e⟩ := by
  rw [entries, h, List.drop_left]

theorem instant_of_mem_entries {m : Move} {e : Dated} (h : e ∈ s.entries f m) :
    e.instant = s.now := by
  rcases List.mem_append.1 h with hcall | hrun
  · obtain ⟨c, -, rfl⟩ := List.mem_map.1 hcall
    rfl
  · obtain ⟨r, -, rfl⟩ := List.mem_map.1 hrun
    rfl

theorem now_le_of_mem_chronicle (hs : s.Numbered) {moves : List Move} {e : Dated}
    (h : e ∈ s.chronicle f moves) : s.now ≤ e.instant := by
  induction moves generalizing s with
  | nil => cases h
  | cons m moves ih =>
    obtain ⟨hnow, -, hs'⟩ := move_frame (f := f) hs m
    rcases List.mem_append.1 h with hfirst | hrest
    · exact Nat.le_of_eq (instant_of_mem_entries hfirst).symm
    · exact Nat.le_trans hnow (ih hs' hrest)

theorem pairwise_chronicle (hs : s.Numbered) (moves : List Move) :
    (s.chronicle f moves).Pairwise (·.instant ≤ ·.instant) := by
  induction moves generalizing s with
  | nil => exact .nil
  | cons m moves ih =>
    obtain ⟨hnow, -, hs'⟩ := move_frame (f := f) hs m
    refine List.pairwise_append.2 ⟨?_, ih hs', fun d hd e he => ?_⟩
    · refine List.pairwise_of_forall_mem_list fun d hd e he => ?_
      exact Nat.le_of_eq ((instant_of_mem_entries hd).trans (instant_of_mem_entries he).symm)
    · rw [instant_of_mem_entries hd]
      exact Nat.le_trans hnow (now_le_of_mem_chronicle hs' he)

variable {period : Nat} {call : Option StartCall}

structure Follows (s : Timetable (Nat × κ) ρ (σ × List RunEvent)) (i period : Nat)
    (call : Option StartCall) : Prop where
  numbered : s.Numbered
  task : ∃ t, s.task? i = some t ∧ t.Obeys period call s.now

namespace Follows

theorem goes (h : s.Follows i period call) (h' : s.Goes s' es) :
    s'.Follows i period call ∧ (.begins i ∈ es → ∃ c ∈ call, c.firstRun period ≤ s.now) := by
  obtain ⟨t, ht, hobeys⟩ := h.task
  obtain ⟨t', ht', hbecomes⟩ := h'.tasks i t ht
  refine ⟨⟨h'.numbered h.numbered, t', ht', ?_⟩, hobeys.due_of_began hbecomes⟩
  rw [h'.now]
  exact hobeys.becomes hbecomes

theorem setTask_self {call' : Option StartCall} (h : s.Follows i period call) {t : PeriodicTask}
    (ht : t.Obeys period call' s.now) : (s.setTask i t).Follows i period call' := by
  obtain ⟨old, hold, -⟩ := h.task
  refine ⟨fun j k hk => h.numbered j k ((s.key?_setTask i j t).symm.trans hk), t, ?_, ht⟩
  rw [task?_setTask, if_pos rfl, hold]
  rfl

theorem setTask_of_ne {j : Nat} (h : s.Follows i period call) (hj : j ≠ i) (t : PeriodicTask) :
    (s.setTask j t).Follows i period call := by
  obtain ⟨own, hown, hobeys⟩ := h.task
  refine ⟨fun j' k hk => h.numbered j' k ((s.key?_setTask j j' t).symm.trans hk), own, ?_, hobeys⟩
  rw [task?_setTask, if_neg hj, hown]

theorem start (h : s.Follows i period call) (j : Nat) (delayed : Bool) :
    (s.start j delayed).Follows i period (inForce i call ⟨s.now, .startCall j delayed⟩) := by
  by_cases hj : j = i
  · subst hj
    obtain ⟨t, ht, hobeys⟩ := h.task
    have hstarted := hobeys.start delayed
    rw [inForce_startCall, if_pos rfl, Timetable.start, ht]
    dsimp only
    split
    next hopen =>
      rw [PeriodicTask.start, if_pos hopen] at hstarted
      exact ⟨h.numbered, t, ht, hstarted⟩
    · exact ((h.setTask_self hstarted).goes (.arm ..)).1
  · rw [inForce_startCall, if_neg hj, Timetable.start]
    split
    · exact h
    · split
      · exact h
      · exact ((h.setTask_of_ne hj _).goes (.arm ..)).1

theorem close (h : s.Follows i period call) (j : Nat) :
    (s.close j).Follows i period (inForce i call ⟨s.now, .closeCall j⟩) := by
  by_cases hj : j = i
  · subst hj
    obtain ⟨t, ht, hobeys⟩ := h.task
    rw [inForce_closeCall, if_pos rfl, Timetable.close, ht]
    exact h.setTask_self hobeys.close
  · rw [inForce_closeCall, if_neg hj, Timetable.close]
    split
    · exact h
    · exact h.setTask_of_ne hj _

theorem move (h : s.Follows i period call) (m : Move) :
    Lawful i period call (s.entries f m) ∧
      (s.move f.logged m).Follows i period ((s.entries f m).foldl (inForce i) call) := by
  cases m with
  | start j delayed =>
    have hlog : (s.move f.logged (.start j delayed)).state.2 = s.state.2 ++ [] := by
      rw [Timetable.move, (s.start_frame j delayed).1, List.append_nil]
    rw [entries_of_log hlog]
    exact ⟨⟨fun heq => (by cases heq), trivial⟩, h.start j delayed⟩
  | close j =>
    have hlog : (s.move f.logged (.close j)).state.2 = s.state.2 ++ [] := by
      rw [Timetable.move, (s.close_frame j).1, List.append_nil]
    rw [entries_of_log hlog]
    exact ⟨⟨fun heq => (by cases heq), trivial⟩, h.close j⟩
  | elapse now =>
    have hlog : (s.move f.logged (.elapse now)).state.2 = s.state.2 ++ [] :=
      (List.append_nil _).symm
    obtain ⟨t, ht, hobeys⟩ := h.task
    rw [entries_of_log hlog]
    exact ⟨trivial, h.numbered, t, ht, hobeys.elapse now⟩
  | fire n =>
    obtain ⟨es, hes⟩ := move_fire_goes (f := f) h.numbered n
    obtain ⟨hfollows, hbegins⟩ := h.goes hes
    rw [entries_of_log hes.log]
    refine ⟨lawful_runs hbegins, ?_⟩
    change Timetable.Follows _ i period ((es.map _).foldl (inForce i) call)
    rw [foldl_inForce_runs]
    exact hfollows

theorem lawful (h : s.Follows i period call) (moves : List Move) :
    Lawful i period call (s.chronicle f moves) := by
  induction moves generalizing s call with
  | nil => trivial
  | cons m moves ih =>
    obtain ⟨hentries, hfollows⟩ := h.move (f := f) m
    exact hentries.append (ih hfollows)

theorem play (h : s.Follows i period call) (moves : List Move) :
    (s.play f.logged moves).Follows i period ((s.chronicle f moves).foldl (inForce i) call) := by
  induction moves generalizing s call with
  | nil => exact h
  | cons m moves ih =>
    rw [chronicle, List.foldl_append]
    exact ih (h.move m).2

end Follows

theorem observed_follows (x : σ) {tasks : List (κ × Nat)} {key : κ}
    (hi : tasks[i]? = some (key, period)) :
    (observed x tasks : Timetable (Nat × κ) ρ _).Follows i period none := by
  refine ⟨(observed_orderly x tasks).numbers, { period }, ?_, rfl, rfl, fun _ _ _ l hl => nomatch hl⟩
  rw [task?, observed, List.getElem?_mapIdx, hi]
  rfl

theorem filterMap_run_chronicle (hs : s.Numbered) (moves : List Move) :
    (s.play f.logged moves).state.2 = s.state.2 ++ (s.chronicle f moves).filterMap Dated.run? := by
  induction moves generalizing s with
  | nil => exact (List.append_nil _).symm
  | cons m moves ih =>
    obtain ⟨-, ⟨es, hes⟩, hs'⟩ := move_frame (f := f) hs m
    have hcalls : (m.call?.toList.map fun c => (⟨s.now, c⟩ : Dated)).filterMap Dated.run? = [] := by
      cases m <;> rfl
    have hruns : (es.map fun e => (⟨s.now, .run e⟩ : Dated)).filterMap Dated.run? = es := by
      rw [List.filterMap_map]
      exact List.filterMap_some
    rw [play, ih hs', chronicle, entries_of_log hes.symm, List.filterMap_append,
      List.filterMap_append, hcalls, hruns, ← hes, List.append_assoc, List.nil_append]

/--
Whatever is called, however long runs are and however late timers go off: between a close of a task
and the next start no run of it begins. A run that begins after a start of a task that was not
running does not begin before the start, and not before a period later if the start was delayed and
no close came in between.
-/
theorem begins_only_as_started (f : Actions κ ρ σ) (x : σ) (tasks : List (κ × Nat))
    (moves : List Move) {i period : Nat} {key : κ} (hi : tasks[i]? = some (key, period)) :
    let s : Timetable (Nat × κ) ρ (σ × List RunEvent) := observed x tasks
    let log := s.chronicle f moves
    (log.filterMap Dated.run? = (s.play f.logged moves).state.2 ∧
        ((s.play f.logged moves).task? i).map (·.isOpen) = some (startInForce i log).isSome) ∧
      (∀ before between after u t,
        log = before ++ ⟨u, .closeCall i⟩ :: between ++ ⟨t, .run (.begins i)⟩ :: after →
          ∃ v delayed, ⟨v, .startCall i delayed⟩ ∈ between) ∧
      ∀ before between after u delayed t,
        log = before ++ ⟨u, .startCall i delayed⟩ :: between ++ ⟨t, .run (.begins i)⟩ :: after →
          startInForce i before = none →
            u ≤ t ∧ (delayed = true → (∀ v, ⟨v, .closeCall i⟩ ∉ between) → u + period ≤ t) := by
  intro s log
  have hfollows : s.Follows i period none := observed_follows x hi
  have hlawful : Lawful i period none log := hfollows.lawful moves
  refine ⟨⟨?_, ?_⟩, ?_, ?_⟩
  · exact (filterMap_run_chronicle hfollows.numbered moves).symm
  · obtain ⟨t, ht, hobeys⟩ := (hfollows.play (f := f) moves).task
    rw [ht, Option.map_some, hobeys.isOpen]
    rfl
  · intro before between after u t hlog
    by_contra hnone
    obtain ⟨c, hc, -⟩ := (hlog ▸ hlawful).begins rfl
    rw [List.append_cons, List.foldl_append, ← startInForce, startInForce_closeCall,
      foldl_inForce_none fun v delayed hmem => hnone ⟨v, delayed, hmem⟩] at hc
    cases hc
  · intro before between after u delayed t hlog hidle
    have hsorted : log.Pairwise (·.instant ≤ ·.instant) := pairwise_chronicle hfollows.numbered moves
    rw [hlog] at hsorted
    refine ⟨?_, fun hdelayed hopen => ?_⟩
    · obtain ⟨-, -, hbefore⟩ := List.pairwise_append.1 hsorted
      exact hbefore ⟨u, .startCall i delayed⟩ (List.mem_append_right _ List.mem_cons_self) _
        List.mem_cons_self
    · obtain ⟨c, hc, hdue⟩ := (hlog ▸ hlawful).begins rfl
      rw [List.append_cons, List.foldl_append, ← startInForce, startInForce_startCall hidle,
        foldl_inForce_some hopen] at hc
      obtain rfl := Option.some.inj hc
      rwa [StartCall.firstRun, if_pos hdelayed] at hdue

section Restart

def longRun : Actions Unit Unit Unit :=
  ⟨fun _ _ x => (x, .wait 25 ()), fun _ _ _ x => (x, .finished .ok)⟩

def twoRestarts : List Move :=
  [.start 0 false, .fire 0, .elapse 5, .close 0, .start 0 false, .fire 1, .elapse 6, .close 0,
    .elapse 7, .start 0 true, .elapse 17, .fire 1, .elapse 25, .fire 0]

/-- Two loops wait for the lock. The one that was closed lets the other pass, which comes in time. -/
theorem restarts_behind_longRun :
    (observed () [((), 10)]).chronicle longRun twoRestarts =
        [⟨0, .startCall 0 false⟩, ⟨0, .run (.begins 0)⟩, ⟨5, .closeCall 0⟩, ⟨5, .startCall 0 false⟩,
          ⟨6, .closeCall 0⟩] ++ ⟨7, .startCall 0 true⟩ :: [⟨25, .run (.ends 0)⟩] ++
          ⟨25, .run (.begins 0)⟩ :: [] ∧ 7 + 10 ≤ 25 := by
  obtain ⟨-, -, hstart⟩ := begins_only_as_started longRun () [((), 10)] twoRestarts (i := 0) rfl
  have hlog : (observed () [((), 10)]).chronicle longRun twoRestarts =
      [⟨0, .startCall 0 false⟩, ⟨0, .run (.begins 0)⟩, ⟨5, .closeCall 0⟩, ⟨5, .startCall 0 false⟩,
        ⟨6, .closeCall 0⟩] ++ ⟨7, .startCall 0 true⟩ :: [⟨25, .run (.ends 0)⟩] ++
        ⟨25, .run (.begins 0)⟩ :: [] := by decide +kernel
  exact ⟨hlog, (hstart _ _ _ _ _ _ hlog rfl).2 rfl (by simp)⟩

end Restart

end Timetable

end NodeAgent
