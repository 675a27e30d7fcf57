import NodeAgent.Schedule.PeriodicTask

/-!
The lock that all loops of a task share. A loop has it while it runs the action, and gets it only when
no other does.
-/

namespace NodeAgent

theorem Loop.isRunning_iff {l : Loop} : l.isRunning = true ↔ ∃ due, l.phase = .running due := by
  unfold isRunning
  cases l.phase <;> simp

theorem Loop.isRunning_cancel (l : Loop) : l.cancel.isRunning = l.isRunning := by
  rcases l with ⟨phase, cancelled⟩
  cases phase <;> rfl

namespace PeriodicTask

def running (t : PeriodicTask) : Nat := t.loops.countP Loop.isRunning

variable {t : PeriodicTask} {i : Nat} {l : Loop}

theorem running_setLoop (h : t.loops[i]? = some l) (l' : Loop) :
    (t.setLoop i l').running + l.isRunning.toNat = t.running + l'.isRunning.toNat := by
  obtain ⟨hi, rfl⟩ := List.getElem?_eq_some_iff.1 h
  have hpos : t.loops[i].isRunning = true → 0 < t.loops.countP Loop.isRunning := fun hrunning =>
    List.countP_pos_iff.2 ⟨_, List.getElem_mem hi, hrunning⟩
  rw [running, running, setLoop, List.countP_set hi]
  cases hl : t.loops[i].isRunning with
  | false => cases l'.isRunning <;> simp
  | true =>
    have hcount := hpos hl
    cases l'.isRunning <;> simp <;> omega

theorem running_setLoop_of_not_isRunning (h : t.loops[i]? = some l) (hl : l.isRunning = false)
    {l' : Loop} (hl' : l'.isRunning = false) : (t.setLoop i l').running = t.running := by
  have hcount := running_setLoop h l'
  rwa [hl, hl'] at hcount

theorem holder?_eq_none_iff : t.holder? = none ↔ t.running = 0 := by
  rw [holder?, running, List.findIdx?_eq_none_iff, List.countP_eq_zero]
  simp

theorem exists_of_holder? (h : t.holder? = some i) :
    ∃ due cancelled, t.loops[i]? = some ⟨.running due, cancelled⟩ := by
  obtain ⟨hi, hrunning, -⟩ := List.findIdx?_eq_some_iff_getElem.1 h
  obtain ⟨due, hphase⟩ := Loop.isRunning_iff.1 hrunning
  refine ⟨due, t.loops[i].cancelled, ?_⟩
  rw [List.getElem?_eq_getElem hi, ← hphase]

/--
The lock of a task that had begun `begun` runs and had `waiting` loops in its queue was given on: no
loop has it, or one has that has left the queue.
-/
inductive Granted (begun waiting : Nat) (t : PeriodicTask) : Prop
  | free (running : t.running = 0) (same : t.begun = begun)
  | taken (running : t.running = 1) (next : t.begun = begun + 1)
      (queue : t.queue.length < waiting)

theorem Granted.mono {begun waiting waiting' : Nat} (h : Granted begun waiting t)
    (hle : waiting ≤ waiting') : Granted begun waiting' t := by
  cases h with
  | free running same => exact .free running same
  | taken running next queue => exact .taken running next (Nat.lt_of_lt_of_le queue hle)

theorem granted_grant (h : t.running = 0) (queue : List Nat) :
    Granted t.begun queue.length (t.grant queue) := by
  -- on the queue: a loop that was cancelled leaves the lock to the next
  induction queue generalizing t with
  | nil => exact .free h rfl
  | cons i rest ih =>
    rw [grant]
    split
    next due hloop =>
      have hcount := running_setLoop hloop ⟨.running due, false⟩
      rw [h] at hcount
      exact .taken hcount rfl (Nat.lt_succ_self _)
    next l _ hloop =>
      have hcount := running_setLoop hloop ⟨.ended, l.cancelled⟩
      have hfree : (t.setLoop i ⟨.ended, l.cancelled⟩).running = 0 := by
        simp only [h, Loop.isRunning, Bool.toNat_false] at hcount
        omega
      exact (ih hfree).mono (Nat.le_succ _)
    · exact (ih h).mono (Nat.le_succ _)

theorem granted_finish (h : t.running = 1) (outcome : Outcome) :
    Granted t.begun t.queue.length (t.finish outcome) := by
  unfold finish
  cases hholder : t.holder? with
  | none =>
    rw [holder?_eq_none_iff.1 hholder] at h
    cases h
  | some i =>
    obtain ⟨due, cancelled, hloop⟩ := exists_of_holder? hholder
    simp only [hloop]
    have hfree (phase : Phase) (hphase : (Loop.mk phase cancelled).isRunning = false) :
        (t.setLoop i ⟨phase, cancelled⟩).running = 0 := by
      have hcount := running_setLoop hloop ⟨phase, cancelled⟩
      rw [h, hphase] at hcount
      exact Nat.succ.inj hcount
    refine granted_grant (hfree _ ?_) t.queue
    split <;> rfl

theorem granted_tick (t : PeriodicTask) (i : Nat) (now : Instant) :
    (t.tick i now).running = t.running ∧ (t.tick i now).begun = t.begun ∨
      t.running = 0 ∧ Granted t.begun (t.queue.length + 1) (t.tick i now) := by
  unfold tick
  split
  next due cancelled hloop =>
    split
    · have hsame : (t.setLoop i ⟨.queued (nextDue t.period due now), cancelled⟩).running =
          t.running := running_setLoop_of_not_isRunning hloop rfl rfl
      dsimp only
      split
      · exact .inl ⟨hsame, rfl⟩
      next hfree =>
        rw [Option.not_isSome_iff_eq_none, holder?_eq_none_iff] at hfree
        refine .inr ⟨hsame ▸ hfree, ?_⟩
        have hgranted := granted_grant hfree (t.queue ++ [i])
        rwa [List.length_append] at hgranted
    · exact .inl ⟨rfl, rfl⟩
  · exact .inl ⟨rfl, rfl⟩

theorem running_start (t : PeriodicTask) (delayed : Bool) (now : Instant) :
    (t.start delayed now).running = t.running := by
  have hnew : (t.newLoop delayed now).isRunning = false := by
    unfold newLoop
    split <;> rfl
  unfold start
  split
  · rfl
  · simp [running, List.countP_append, hnew]

theorem running_close (t : PeriodicTask) : t.close.running = t.running := by
  rw [running, running, close, List.countP_map]
  exact List.countP_congr fun l _ => by simp [Loop.isRunning_cancel]

end PeriodicTask

end NodeAgent
