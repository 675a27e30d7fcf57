import NodeAgent.Proofs.Certificates
import NodeAgent.Proofs.Rollback
import NodeAgent.Proofs.Working

/-!
What goes on around one instance while it is started or closed. Tasks of other instances that were
closed begin no run, engines that were closed stay so, and nobody asks for a reload but those whose
answer was on its way.
-/

namespace NodeAgent

def Job.owner : Job → Nat
  | .node o _ _ => o
  | .monitor o => o

def Timer.tells (t : Timer InFlight) : Bool :=
  match t.alarm with
  | .resume _ (.fetched (.ok (some _))) => true
  | _ => false

theorem filter_eraseIdx_of_neg {α : Type} {p : α → Bool} {l : List α} {n : Nat} {a : α}
    (h : l[n]? = some a) (ha : p a = false) : (l.eraseIdx n).filter p = l.filter p := by
  induction l generalizing n with
  | nil => rfl
  | cons b l ih =>
    cases n with
    | zero =>
      obtain rfl : b = a := Option.some.inj h
      rw [List.eraseIdx_cons_zero, List.filter_cons_of_neg (by simp [ha])]
    | succ n =>
      rw [List.eraseIdx_cons_succ, List.filter_cons, List.filter_cons, ih h]

theorem length_filter_eraseIdx {α : Type} {p : α → Bool} {l : List α} {n : Nat} {a : α}
    (h : l[n]? = some a) (ha : p a = true) :
    ((l.eraseIdx n).filter p).length + 1 = (l.filter p).length := by
  induction l generalizing n with
  | nil => cases h
  | cons b l ih =>
    cases n with
    | zero =>
      obtain rfl : b = a := Option.some.inj h
      rw [List.eraseIdx_cons_zero, List.filter_cons_of_pos ha, List.length_cons]
    | succ n =>
      rw [List.eraseIdx_cons_succ, List.filter_cons, List.filter_cons]
      split
      · rw [List.length_cons, List.length_cons, ih h]
      · exact ih h

theorem Signal.raise_raise (s : Signal) : s.raise.1.raise.1 = s.raise.1 := by
  obtain ⟨pending, hasReceiver⟩ := s
  cases pending <;> cases hasReceiver <;> rfl

theorem Signal.raise_of_pending {s : Signal} (h : s.pending = true) : s.raise.1 = s := by
  rw [raise, h, Bool.not_true, Bool.and_false, if_neg Bool.false_ne_true]

theorem Signal.pending_raise {s : Signal} (h : s.hasReceiver = true) :
    s.raise.1.pending = true := by
  obtain ⟨pending, hasReceiver⟩ := s
  cases h
  cases pending <;> rfl

namespace Agenda

variable {χ π σ : Type} {s s₁ s' : Agenda χ LocalEngine π σ} {owner : Nat}

def tidings (s : Agenda χ LocalEngine π σ) : List (Timer InFlight) := s.timers.filter Timer.tells

structure Heeds (s s' : Agenda χ LocalEngine π σ) : Prop where
  sublist : s'.tidings.Sublist s.tidings
  quiet : s'.tidings.length = s.tidings.length → s'.state.signal = s.state.signal
  heard : s'.tidings.length ≠ s.tidings.length → s'.state.signal = s.state.signal.raise.1

theorem Heeds.of_same (tidings : s'.tidings = s.tidings)
    (signal : s'.state.signal = s.state.signal) : s.Heeds s' :=
  ⟨tidings ▸ List.Sublist.refl _, fun _ => signal, fun h => absurd (congrArg List.length tidings) h⟩

theorem Heeds.refl (s : Agenda χ LocalEngine π σ) : s.Heeds s := .of_same rfl rfl

theorem Heeds.trans (h : s.Heeds s₁) (h' : s₁.Heeds s') : s.Heeds s' where
  sublist := h'.sublist.trans h.sublist
  quiet := by
    intro hlength
    have hle := h.sublist.length_le
    have hle' := h'.sublist.length_le
    rw [h'.quiet (by omega), h.quiet (by omega)]
  heard := by
    intro hlength
    by_cases hfirst : s₁.tidings.length = s.tidings.length
    · rw [h'.heard (hfirst ▸ hlength), h.quiet hfirst]
    · by_cases hsecond : s'.tidings.length = s₁.tidings.length
      · rw [h'.quiet hsecond, h.heard hfirst]
      · rw [h'.heard hsecond, h.heard hfirst, Signal.raise_raise]

structure Rests (s : Agenda χ LocalEngine π σ) (owner : Nat) : Prop where
  tasks : ∀ e ∈ s.tasks, e.key.owner ≠ owner → e.task.Closed
  engines : ∀ o i, s.state.instances[o]? = some i → o ≠ owner → i.core.engine = { closed := true }
  known : s.Known

structure Spares (s s' : Agenda χ LocalEngine π σ) (owner : Nat) : Prop where
  kept : ∀ j k, s.key? j = some k → s'.key? j = some k
  fresh : ∀ j k, s'.key? j = some k → s.key? j = some k ∨ k.owner = owner
  begun : ∀ j k, s.key? j = some k → k.owner ≠ owner →
    (s'.task? j).map (·.begun) = (s.task? j).map (·.begun)
  present : ∀ o, o ≠ owner →
    (s'.state.instances[o]?).isSome = (s.state.instances[o]?).isSome

theorem Spares.refl (s : Agenda χ LocalEngine π σ) (owner : Nat) : s.Spares s owner :=
  ⟨fun _ _ h => h, fun _ _ h => .inl h, fun _ _ _ _ => rfl, fun _ _ => rfl⟩

theorem Spares.trans (h : s.Spares s₁ owner) (h' : s₁.Spares s' owner) : s.Spares s' owner where
  kept := fun j k hk => h'.kept j k (h.kept j k hk)
  fresh := fun j k hk => (h'.fresh j k hk).elim (h.fresh j k) .inr
  begun := fun j k hk ho => (h'.begun j k (h.kept j k hk) ho).trans (h.begun j k hk ho)
  present := fun o ho => (h'.present o ho).trans (h.present o ho)

variable [ServerApi σ χ] [Shell χ] [PanelApi π χ]

inductive Stirs (owner : Nat) (s : Agenda χ LocalEngine π σ) : Agenda χ LocalEngine π σ → Prop
  | shift {s' : Agenda χ LocalEngine π σ} (h : Timetable.Shift World.actions s s')
      (unwatched : ∀ j, s.key? j ≠ some (.monitor owner)) : Stirs owner s s'
  | state (w : World χ LocalEngine π σ) (signal : w.signal = s.state.signal)
      (others : ∀ o, o ≠ owner → w.instances[o]? = s.state.instances[o]?) :
      Stirs owner s { s with state := w }
  | start (n : Nat) (d : Duty) (seconds : Nat) : Stirs owner s (s.addStarted (.node owner n d) seconds)
  | close (j : Nat) : Stirs owner s (Timetable.close s j)

section Shift

omit [ServerApi σ χ] [Shell χ] [PanelApi π χ] in
theorem tidings_pend (s : Agenda χ LocalEngine π σ) (j : Nat) (pause : Pause) :
    tidings (s.pend j pause.toTurn) = s.tidings := by
  cases pause with
  | finished r => rfl
  | wait delay stage a =>
    rw [tidings, tidings, Pause.toTurn, Timetable.pend, Timetable.setTimer, List.filter_append]
    exact List.append_nil _

omit [ServerApi σ χ] [Shell χ] [PanelApi π χ] in
theorem signal_visit {α : Type} (w : World χ LocalEngine π σ) (o n : Nat) (now : Instant)
    (default : α) (f : Place χ LocalEngine π → Place χ LocalEngine π × α) :
    (w.visit o n now default f).1.signal = w.signal := by
  unfold World.visit
  split <;> rfl

theorem shift_heeds (h : Timetable.Shift World.actions s s') (hs : s.Rests owner)
    (unwatched : ∀ j, s.key? j ≠ some (.monitor owner)) : s.Heeds s' := by
  cases h with
  | clock => exact .of_same rfl rfl
  | drive => exact .of_same rfl rfl
  | arm due i loop =>
    refine .of_same ?_ rfl
    rw [tidings, tidings, Timetable.setTimer, List.filter_append]
    exact List.append_nil _
  | lapse n t ht unknown =>
    have hquiet : t.tells = false := by
      unfold Timer.tells
      split
      next j reply halarm =>
        have hknown := hs.known t (List.mem_of_getElem? ht) j _ halarm
        rw [Timetable.key?, unknown j _ halarm] at hknown
        cases hknown
      · rfl
    exact .of_same (filter_eraseIdx_of_neg ht hquiet) rfl
  | enter i e new he hdriven begins =>
    -- only a task of the instance begins a run, and none of these polls
    have howner : e.key.owner = owner := by
      by_contra hother
      have hclosed := hs.tasks e (List.mem_of_getElem? he) hother
      exact begins (PeriodicTask.closed_of_lasting hdriven.lasting hclosed).2
    cases hk : e.key with
    | monitor o =>
      rw [hk] at howner
      have hkey : s.key? i = some (.monitor owner) := by
        rw [Timetable.key?, he, Option.map_some, hk, ← howner]
        rfl
      exact absurd hkey (unwatched i)
    | node o n d =>
      have hsignal := signal_visit s.state o n s.now (.finished (.ok ())) (·.run d)
      exact .of_same (tidings_pend ..) ((congrArg _ (Timetable.state_pend ..)).trans hsignal)
  | resume n t i r e ht halarm he =>
    cases r with
    | stage stage a =>
      have hquiet : t.tells = false := by rw [Timer.tells, halarm]
      cases hk : e.key with
      | monitor o => exact .of_same (filter_eraseIdx_of_neg ht hquiet) rfl
      | node o m d =>
        have hsignal := signal_visit s.state o m s.now (.finished (.ok ())) (·.resume stage a)
        exact .of_same ((tidings_pend ..).trans (filter_eraseIdx_of_neg ht hquiet))
          ((congrArg _ (Timetable.state_pend ..)).trans hsignal)
    | fetched answer =>
      have hpoll : World.actions.resume e.key (.fetched answer) s.now s.state =
          s.state.concludePoll answer := by cases e.key <;> rfl
      rw [hpoll]
      have hpend : tidings (Timetable.pend { s with
          timers := s.timers.eraseIdx n, state := (s.state.concludePoll answer).1 } i
          (s.state.concludePoll answer).2) = (s.timers.eraseIdx n).filter Timer.tells := rfl
      rcases answer with err | _ | reply
      · have hquiet : t.tells = false := by rw [Timer.tells, halarm]
        exact .of_same (hpend.trans (filter_eraseIdx_of_neg ht hquiet)) rfl
      · have hquiet : t.tells = false := by rw [Timer.tells, halarm]
        exact .of_same (hpend.trans (filter_eraseIdx_of_neg ht hquiet)) rfl
      · have htells : t.tells = true := by rw [Timer.tells, halarm]
        have hlength := length_filter_eraseIdx ht htells
        refine ⟨?_, fun hsame => ?_, fun _ => rfl⟩
        · rw [hpend]
          exact (List.eraseIdx_sublist ..).filter _
        · rw [hpend, tidings] at hsame
          omega

end Shift

section Tasks

omit [ServerApi σ χ] [Shell χ] [PanelApi π χ]

theorem addStarted_timers (s : Agenda χ LocalEngine π σ) (job : Job) (seconds : Nat) :
    ∃ ticks : List (Timer InFlight), (s.addStarted job seconds).timers = s.timers ++ ticks ∧
      ∀ t ∈ ticks, t.alarm.resumed? = none := by
  unfold addStarted Timetable.start
  split
  · exact ⟨[], (List.append_nil _).symm, by simp⟩
  · split
    · exact ⟨[], (List.append_nil _).symm, by simp⟩
    · unfold Timetable.arm
      split
      · exact ⟨_, rfl, fun t ht => by rw [List.mem_singleton.1 ht]; rfl⟩
      · exact ⟨[], (List.append_nil _).symm, by simp⟩

theorem key?_addStarted (s : Agenda χ LocalEngine π σ) (job : Job) (seconds j : Nat) :
    (s.addStarted job seconds).key? j = if j = s.tasks.length then some job else s.key? j := by
  rw [addStarted, Timetable.key?_start, Timetable.key?_add]

theorem getElem?_addStarted {job : Job} {seconds j : Nat} {e : Scheduled Job}
    (he : s.tasks[j]? = some e) : (s.addStarted job seconds).tasks[j]? = some e := by
  obtain ⟨hlt, -⟩ := List.getElem?_eq_some_iff.1 he
  rw [(s.addStarted_frame job seconds).2.1, List.getElem?_append_left hlt, he]

theorem key?_of_tasks_length {j : Nat} {k : Job} (hk : s.key? j = some k) : j ≠ s.tasks.length := by
  obtain ⟨e, he, -⟩ := Timetable.exists_of_key? hk
  obtain ⟨hlt, -⟩ := List.getElem?_eq_some_iff.1 he
  exact Nat.ne_of_lt hlt

theorem tells_of_resumed? {t : Timer InFlight} (h : t.alarm.resumed? = none) : t.tells = false := by
  unfold Timer.tells
  split
  next halarm =>
    rw [halarm] at h
    cases h
  · rfl

theorem known_addStarted (h : s.Known) (job : Job) (seconds : Nat) :
    Timetable.Known (s.addStarted job seconds) := by
  intro t ht j r halarm
  obtain ⟨ticks, hticks, hquiet⟩ := s.addStarted_timers job seconds
  rw [hticks] at ht
  rcases List.mem_append.1 ht with hold | hnew
  · rw [key?_addStarted]
    split
    · rfl
    · exact h t hold j r halarm
  · have hresumed := hquiet t hnew
    rw [halarm] at hresumed
    cases hresumed

theorem heeds_addStarted (s : Agenda χ LocalEngine π σ) (job : Job) (seconds : Nat) :
    s.Heeds (s.addStarted job seconds) := by
  obtain ⟨ticks, hticks, hquiet⟩ := s.addStarted_timers job seconds
  have hnone : ticks.filter Timer.tells = [] := List.filter_eq_nil_iff.2 fun t ht => by
    rw [tells_of_resumed? (hquiet t ht)]
    exact Bool.false_ne_true
  refine .of_same ?_ (congrArg _ (s.addStarted_frame job seconds).1)
  rw [tidings, tidings, hticks, List.filter_append, hnone, List.append_nil]

theorem closed_of_mem_close {j : Nat} {e : Scheduled Job} (he : e ∈ (Timetable.close s j).tasks) :
    (e.task.Closed ∨ e ∈ s.tasks) := by
  unfold Timetable.close at he
  split at he
  · exact .inr he
  · rcases Timetable.mem_setTask he with hold | ⟨e', -, rfl⟩
    · exact .inr hold
    · exact .inl (PeriodicTask.closed_close _)

theorem begun_close (s : Agenda χ LocalEngine π σ) (i j : Nat) :
    ((Timetable.close s i).task? j).map (·.begun) = (s.task? j).map (·.begun) := by
  rw [Timetable.task?_close]
  split
  · rw [Option.map_map]
    rfl
  · rfl

end Tasks

omit [ServerApi σ χ] [Shell χ] [PanelApi π χ] in
theorem Rests.engines_of_works (hs : s.Rests owner) {w : World χ LocalEngine π σ}
    (hw : s.state.Works w) {o : Nat} {i' : Instance LocalEngine π σ}
    (hi' : w.instances[o]? = some i') (ho : o ≠ owner) : i'.core.engine = { closed := true } := by
  have hsome : (s.state.instances[o]?).isSome = true := by rw [← hw.isSome, hi']; rfl
  obtain ⟨i, hi⟩ := Option.isSome_iff_exists.1 hsome
  obtain ⟨i₁, hi₁, hcore⟩ := hw.instance? hi
  obtain rfl : i' = i₁ := Option.some.inj (hi'.symm.trans hi₁)
  have hshut := hs.engines o i hi ho
  exact (hcore.core.shut (by rw [hshut])).trans hshut

theorem shift_spares (h : Timetable.Shift World.actions s s') (hs : s.Rests owner) :
    s.Spares s' owner ∧ s'.Rests owner := by
  have hlasting := h.lasting
  have hworks := World.works_shift h
  refine ⟨⟨fun j k hk => ?_, fun j k hk => .inl ?_, fun j k hk ho => ?_, fun o _ => hworks.isSome o⟩,
    fun e' he' ho => ?_, fun o i' hi' ho => hs.engines_of_works hworks hi' ho, h.known hs.known⟩
  · rwa [Timetable.key?_of_lasting hlasting]
  · rwa [← Timetable.key?_of_lasting hlasting]
  · obtain ⟨e, he, rfl⟩ := Timetable.exists_of_key? hk
    obtain ⟨e', he', hkey, hsame⟩ := Timetable.exists_of_lasting hlasting he
    have hclosed := hs.tasks e (List.mem_of_getElem? he) ho
    rw [Timetable.task?, Timetable.task?, he, he', Option.map_some, Option.map_some,
      Option.map_some, Option.map_some, (PeriodicTask.closed_of_lasting hsame hclosed).2]
  · obtain ⟨j, hj⟩ := List.mem_iff_getElem?.1 he'
    obtain ⟨e, he, hkey, hsame⟩ := Timetable.exists_of_lasting hlasting.symm hj
    have hclosed := hs.tasks e (List.mem_of_getElem? he) (hkey ▸ ho)
    exact (PeriodicTask.closed_of_lasting hsame.symm hclosed).1

theorem advanceTo_spares (hs : s.Rests owner) (limit : Instant) :
    s.Spares (s.advanceTo World.actions limit) owner ∧
      Rests (s.advanceTo World.actions limit) owner :=
  (s.advanceTo_reaches World.actions limit).invariant
    (P := fun s' => s.Spares s' owner ∧ Rests s' owner)
    (fun _ _ hshift h => by
      obtain ⟨hspares, hrests⟩ := shift_spares hshift h.2
      exact ⟨h.1.trans hspares, hrests⟩) ⟨.refl s owner, hs⟩

omit [ServerApi σ χ] [Shell χ] [PanelApi π χ] in
theorem addStarted_spares (hs : s.Rests owner) (job : Job) (ho : job.owner = owner)
    (seconds : Nat) :
    s.Spares (s.addStarted job seconds) owner ∧ Rests (s.addStarted job seconds) owner := by
  obtain ⟨hstate, htasks, -⟩ := s.addStarted_frame job seconds
  refine ⟨⟨fun j k hk => ?_, fun j k hk => ?_, fun j k hk _ => ?_, fun o _ => by rw [hstate]⟩,
    fun e he hother => ?_, ?_, known_addStarted hs.known _ _⟩
  · rwa [key?_addStarted, if_neg (key?_of_tasks_length hk)]
  · rw [key?_addStarted] at hk
    split at hk
    · exact .inr (Option.some.inj hk ▸ ho)
    · exact .inl hk
  · obtain ⟨e, he, -⟩ := Timetable.exists_of_key? hk
    rw [Timetable.task?, Timetable.task?, he, getElem?_addStarted he]
  · rw [htasks] at he
    rcases List.mem_append.1 he with hold | hnew
    · exact hs.tasks e hold hother
    · rw [List.mem_singleton.1 hnew] at hother
      exact absurd ho hother
  · rw [hstate]
    exact hs.engines

theorem Stirs.spares (h : Stirs owner s s') (hs : s.Rests owner) :
    s.Spares s' owner ∧ s'.Rests owner := by
  cases h with
  | shift h unwatched => exact shift_spares h hs
  | state w signal others =>
    refine ⟨⟨fun _ _ hk => hk, fun _ _ hk => .inl hk, fun _ _ _ _ => rfl, fun o ho => ?_⟩,
      hs.tasks, fun o i hi ho => hs.engines o i (others o ho ▸ hi) ho, hs.known⟩
    rw [others o ho]
  | start n d seconds => exact addStarted_spares hs _ rfl seconds
  | close j =>
    obtain ⟨hstate, -, htimers, hkey⟩ := Timetable.close_frame s j
    refine ⟨⟨fun i k hk => (hkey i).trans hk, fun i k hk => .inl ((hkey i).symm.trans hk),
      fun i k _ _ => s.begun_close j i, fun o _ => by rw [hstate]⟩, fun e he ho => ?_, ?_,
      fun t ht i r halarm => ?_⟩
    · exact (closed_of_mem_close he).elim id fun hold => hs.tasks e hold ho
    · rw [hstate]
      exact hs.engines
    · rw [hkey]
      exact hs.known t (htimers ▸ ht) i r halarm

theorem Stirs.heeds (h : Stirs owner s s') (hs : s.Rests owner) : s.Heeds s' := by
  cases h with
  | shift h unwatched => exact shift_heeds h hs unwatched
  | state w signal others => exact .of_same rfl signal
  | start n d seconds => exact s.heeds_addStarted _ _
  | close j =>
    obtain ⟨hstate, -, htimers, -⟩ := Timetable.close_frame s j
    exact .of_same (congrArg (List.filter Timer.tells) htimers) (congrArg _ hstate)

def Stirring (owner : Nat) : Agenda χ LocalEngine π σ → Agenda χ LocalEngine π σ → Prop :=
  Relation.ReflTransGen (Stirs owner)

namespace Stirring

theorem spares (h : Stirring owner s s') (hs : s.Rests owner) :
    s.Spares s' owner ∧ s.Heeds s' ∧ s'.Rests owner := by
  induction h with
  | refl => exact ⟨.refl s owner, .refl s, hs⟩
  | tail _ hstirs ih =>
    obtain ⟨hspares, hheeds, hrests⟩ := ih
    obtain ⟨hspares', hrests'⟩ := hstirs.spares hrests
    exact ⟨hspares.trans hspares', hheeds.trans (hstirs.heeds hrests), hrests'⟩

end Stirring

section Operations

def Unwatched (s : Agenda χ LocalEngine π σ) (owner : Nat) : Prop :=
  ∀ j, s.key? j ≠ some (.monitor owner)

theorem Stirs.unwatched (h : Stirs owner s s') (hs : s.Unwatched owner) : s'.Unwatched owner := by
  intro j hj
  cases h with
  | shift h => exact hs j ((Timetable.key?_of_lasting h.lasting j).symm.trans hj)
  | state => exact hs j hj
  | start n d seconds =>
    rw [key?_addStarted] at hj
    split at hj
    · cases hj
    · exact hs j hj
  | close i => exact hs j (((Timetable.close_frame s i).2.2.2 j).symm.trans hj)

theorem Stirring.unwatched (h : Stirring owner s s') (hs : s.Unwatched owner) :
    s'.Unwatched owner := by
  induction h with
  | refl => exact hs
  | tail _ hstirs ih => exact hstirs.unwatched ih

variable {n : Nat}

theorem visit_stirs {α : Type} (s : Agenda χ LocalEngine π σ) (owner n : Nat) (default : α)
    (f : Place χ LocalEngine π → Place χ LocalEngine π × α) :
    Stirring owner s (s.visit owner n default f).1 :=
  .single (.state _ (signal_visit ..) fun _ ho => World.visit_of_ne (Ne.symm ho))

theorem advanceTo_stirs (hs : s.Unwatched owner) (limit : Instant) :
    Stirring owner s (s.advanceTo World.actions limit) :=
  (s.advanceTo_reaches World.actions limit).invariant (P := fun s' => Stirring owner s s')
    (fun _ _ hshift h => h.tail (.shift hshift (h.unwatched hs))) .refl

theorem addNodeTask_stirs (s : Agenda χ LocalEngine π σ) (owner n : Nat) (d : Duty)
    (seconds : Nat) : Stirring owner s (s.addNodeTask owner n d seconds) := by
  have hvisit := s.visit_stirs owner n () fun p =>
    ({ p with node := { p.node with tasks := p.node.tasks ++ [s.tasks.length] } }, ())
  exact hvisit.tail (.start n d seconds)

theorem addNodeTasks_stirs (s : Agenda χ LocalEngine π σ) (owner n : Nat) :
    Stirring owner s (s.addNodeTasks owner n) := by
  unfold addNodeTasks
  split
  · exact .refl
  next p hplace =>
    have hsync := s.addNodeTask_stirs owner n .sync p.node.session.info.pullInterval
    have hreport := hsync.trans
      (addNodeTask_stirs _ owner n .report p.node.session.info.pushInterval)
    dsimp only
    split
    · exact hreport.trans (addNodeTask_stirs ..)
    · exact hreport

theorem await_stirs (hs : s.Unwatched owner) (fuel : Nat) (pause : Pause) :
    Stirring owner s (s.await owner n fuel pause).1 := by
  induction fuel generalizing s pause with
  | zero => cases pause <;> exact .refl
  | succ fuel ih =>
    cases pause with
    | finished r => exact .refl
    | wait d stage a =>
      have hlater := advanceTo_stirs hs (s.now + d)
      have hturn : Stirring owner s _ :=
        hlater.trans (visit_stirs _ owner n (.finished (.ok ())) (·.resume stage a))
      exact hturn.trans (ih (hturn.unwatched hs) _)

theorem startNode_stirs (hs : s.Unwatched owner) (n : Nat) :
    Stirring owner s (s.startNode owner n).1 := by
  have hturn := s.visit_stirs owner n (.finished (.ok ())) (·.pursue (.ask .firstUsers))
  have hawait := hturn.trans (await_stirs (n := n) (hturn.unwatched hs) Timetable.mostWaits
    (s.visit owner n (.finished (.ok ())) (·.pursue (.ask .firstUsers))).2)
  simp only [startNode]
  split
  next heq => rwa [heq] at hawait
  next s₁ heq =>
    rw [heq] at hawait
    exact hawait.trans (s₁.addNodeTasks_stirs owner n)

theorem closeTasks_stirs (s : Agenda χ LocalEngine π σ) (owner : Nat) (tasks : List Nat) :
    Stirring owner s (s.closeTasks tasks) := by
  induction tasks generalizing s with
  | nil => exact .refl
  | cons j tasks ih => exact .head (.close j) (ih _)

theorem closeNode_stirs (s : Agenda χ LocalEngine π σ) (owner n : Nat) :
    Stirring owner s (s.closeNode owner n).1 :=
  (s.closeTasks_stirs owner _).trans (visit_stirs ..)

theorem closeNodes_stirs (s : Agenda χ LocalEngine π σ) (owner : Nat) (numbers : List Nat) :
    Stirring owner s (s.closeNodes owner numbers).1 := by
  induction numbers generalizing s with
  | nil => exact .refl
  | cons n numbers ih => exact (s.closeNode_stirs owner n).trans (ih _)

theorem startNodes_stirs (hs : s.Unwatched owner) (started numbers : List Nat) :
    Stirring owner s (s.startNodes owner started numbers).1 := by
  induction numbers generalizing s started with
  | nil => exact .refl
  | cons n numbers ih =>
    have hnode := startNode_stirs hs n
    simp only [startNodes]
    split
    next s₁ heq =>
      rw [heq] at hnode
      exact hnode.trans (ih (hnode.unwatched hs) _)
    next s₁ f heq =>
      rw [heq] at hnode
      exact hnode.trans (s₁.closeNodes_stirs owner started)
    next heq => rwa [heq] at hnode

theorem setInstance_stirs (s : Agenda χ LocalEngine π σ) (owner : Nat)
    (i : Instance LocalEngine π σ) :
    Stirring owner s { s with state := s.state.setInstance owner i } :=
  .single (.state _ rfl fun _ ho => List.getElem?_set_ne (Ne.symm ho))

theorem closeCore_stirs (s : Agenda χ LocalEngine π σ) (owner : Nat) :
    Stirring owner s (s.closeCore owner).1 := by
  unfold closeCore
  split
  · exact .refl
  next i hi => exact (s.closeTasks_stirs owner i.monitor.toList).trans (setInstance_stirs ..)

end Operations

end Agenda

end NodeAgent
