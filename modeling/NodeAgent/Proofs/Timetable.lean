import NodeAgent.Schedule.Timetable

/-!
What stays as it is while the clock of a timetable goes on. Whatever every turn of a run preserves
holds as long as one likes, and a task that was closed begins no run.
-/

namespace NodeAgent

namespace PeriodicTask

def Closed (t : PeriodicTask) : Prop := ∀ l ∈ t.loops, l.cancelled = true

variable {t : PeriodicTask}

theorem closed_close (t : PeriodicTask) : t.close.Closed := by
  intro l hl
  obtain ⟨l', -, rfl⟩ := List.mem_map.1 hl
  unfold Loop.cancel
  split <;> rfl

theorem Closed.setLoop (h : t.Closed) (i : Nat) {l : Loop} (hl : l.cancelled = true) :
    (t.setLoop i l).Closed := by
  intro l' hl'
  rcases List.mem_or_eq_of_mem_set hl' with hmem | rfl
  · exact h l' hmem
  · exact hl

theorem Closed.grant (h : t.Closed) (queue : List Nat) :
    (t.grant queue).Closed ∧ (t.grant queue).begun = t.begun := by
  induction queue generalizing t with
  | nil => exact ⟨h, rfl⟩
  | cons i rest ih =>
    rw [PeriodicTask.grant]
    split
    -- only a loop that was not cancelled gets the lock, and there is none
    next due hloop => cases h _ (List.mem_of_getElem? hloop)
    next l _ hloop => exact ih (h.setLoop i (h l (List.mem_of_getElem? hloop)))
    · exact ih h

theorem Closed.tick (h : t.Closed) (i : Nat) (now : Instant) :
    (t.tick i now).Closed ∧ (t.tick i now).begun = t.begun := by
  unfold PeriodicTask.tick
  split
  next due cancelled hloop =>
    have hcancelled : cancelled = true := h _ (List.mem_of_getElem? hloop)
    have hset : (t.setLoop i ⟨.queued (nextDue t.period due now), cancelled⟩).Closed :=
      h.setLoop i hcancelled
    split
    · dsimp only
      split
      · exact ⟨hset, rfl⟩
      · exact hset.grant _
    · exact ⟨h, rfl⟩
  · exact ⟨h, rfl⟩

theorem Closed.finish (h : t.Closed) (outcome : Outcome) :
    (t.finish outcome).Closed ∧ (t.finish outcome).begun = t.begun := by
  unfold PeriodicTask.finish
  split
  · exact ⟨h, rfl⟩
  · split
    next due cancelled hloop =>
      have hcancelled : cancelled = true := h _ (List.mem_of_getElem? hloop)
      exact (h.setLoop _ hcancelled).grant _
    · exact ⟨h, rfl⟩

end PeriodicTask

def Alarm.resumed? {ρ : Type} : Alarm ρ → Option Nat
  | .tick .. => none
  | .resume task _ => some task

section Actions

variable {κ ρ σ : Type}

/--
Runs of tasks whose keys are `active` preserve `P`, and wait for nothing but what fits their key.
-/
structure Actions.Preserves (f : Actions κ ρ σ) (active : κ → Bool) (fits : κ → ρ → Prop)
    (P : σ → Prop) : Prop where
  enter : ∀ k now x, active k = true → P x →
    P (f.enter k now x).1 ∧ ∀ d r, (f.enter k now x).2 = .wait d r → fits k r
  resume : ∀ k r now x, active k = true → fits k r → P x →
    P (f.resume k r now x).1 ∧ ∀ d r', (f.resume k r now x).2 = .wait d r' → fits k r'

namespace Timer

theorem takeFirst_eq_some {limit : Instant} {timers rest : List (Timer ρ)} {t : Timer ρ}
    (h : takeFirst limit timers = some (t, rest)) :
    ∃ n, timers[n]? = some t ∧ rest = timers.eraseIdx n := by
  induction timers generalizing t rest with
  | nil => cases h
  | cons v r ih =>
    rw [takeFirst] at h
    split at h
    · split at h
      · obtain ⟨rfl, rfl⟩ := Prod.mk.inj (Option.some.inj h)
        exact ⟨0, rfl, rfl⟩
      · cases h
    next u others hfirst =>
      obtain ⟨n, hn, rfl⟩ := ih hfirst
      split at h
      · obtain ⟨rfl, rfl⟩ := Prod.mk.inj (Option.some.inj h)
        exact ⟨0, rfl, rfl⟩
      · obtain ⟨rfl, rfl⟩ := Prod.mk.inj (Option.some.inj h)
        exact ⟨n + 1, hn, rfl⟩

theorem takeFirst_mem {limit : Instant} {timers rest : List (Timer ρ)} {t : Timer ρ}
    (h : takeFirst limit timers = some (t, rest)) : t ∈ timers ∧ ∀ u ∈ rest, u ∈ timers := by
  obtain ⟨n, hn, rfl⟩ := takeFirst_eq_some h
  exact ⟨List.mem_of_getElem? hn, fun u hu => List.mem_of_mem_eraseIdx hu⟩

end Timer

namespace Timetable

variable {active : κ → Bool} {fits : κ → ρ → Prop} {P : σ → Prop}

def key? (s : Timetable κ ρ σ) (i : Nat) : Option κ := (s.tasks[i]?).map (·.key)

def roll (s : Timetable κ ρ σ) (active : κ → Bool) : List (κ × Option Nat) :=
  s.tasks.map fun e => (e.key, if active e.key then none else some e.task.begun)

/--
`P` holds of the state, every run that waits is one of an active task and waits for what fits it, and
the tasks that are not active are closed and were when `roll` was called.
-/
structure Keeps (s : Timetable κ ρ σ) (active : κ → Bool) (fits : κ → ρ → Prop) (P : σ → Prop)
    (roll : List (κ × Option Nat)) : Prop where
  state : P s.state
  waiting : ∀ t ∈ s.timers, ∀ i r, t.alarm = .resume i r →
    ∃ k, s.key? i = some k ∧ active k = true ∧ fits k r
  closed : ∀ e ∈ s.tasks, active e.key = false → e.task.Closed
  roll : s.roll active = roll

variable {s : Timetable κ ρ σ} {roll : List (κ × Option Nat)} {i : Nat} {k : κ}

theorem key?_eq_roll (s : Timetable κ ρ σ) (active : κ → Bool) (i : Nat) :
    s.key? i = ((s.roll active)[i]?).map Prod.fst := by
  rw [key?, Timetable.roll, List.getElem?_map, Option.map_map]
  rfl

theorem getElem?_setTask (s : Timetable κ ρ σ) (i j : Nat) (t : PeriodicTask) :
    (s.setTask i t).tasks[j]? =
      if i = j then (s.tasks[j]?).map fun e => { e with task := t } else s.tasks[j]? := by
  rw [setTask, List.getElem?_modify]
  split
  · rfl
  · exact Option.map_id'

theorem key?_setTask (s : Timetable κ ρ σ) (i j : Nat) (t : PeriodicTask) :
    (s.setTask i t).key? j = s.key? j := by
  rw [key?, key?, getElem?_setTask]
  split
  · rw [Option.map_map]
    rfl
  · rfl

theorem task?_setTask (s : Timetable κ ρ σ) (i j : Nat) (t : PeriodicTask) :
    (s.setTask i t).task? j = if i = j then (s.task? j).map fun _ => t else s.task? j := by
  rw [task?, getElem?_setTask]
  split
  · rw [task?, Option.map_map, Option.map_map]
    rfl
  · rfl

theorem exists_of_key? (h : s.key? i = some k) : ∃ e, s.tasks[i]? = some e ∧ e.key = k :=
  Option.map_eq_some_iff.1 h

theorem exists_of_task? {t : PeriodicTask} (h : s.task? i = some t) :
    ∃ e, s.tasks[i]? = some e ∧ e.task = t :=
  Option.map_eq_some_iff.1 h

theorem mem_setTask {t : PeriodicTask} {e : Scheduled κ} (h : e ∈ (s.setTask i t).tasks) :
    e ∈ s.tasks ∨ ∃ e', s.tasks[i]? = some e' ∧ e = { e' with task := t } := by
  obtain ⟨j, hj⟩ := List.mem_iff_getElem?.1 h
  rw [getElem?_setTask] at hj
  split at hj
  next hij =>
    subst hij
    obtain ⟨e', he', rfl⟩ := Option.map_eq_some_iff.1 hj
    exact .inr ⟨e', he', rfl⟩
  · exact .inl (List.mem_of_getElem? hj)

theorem key?_add (s : Timetable κ ρ σ) (key : κ) (period i : Nat) :
    (s.add key period).key? i = if i = s.tasks.length then some key else s.key? i := by
  rw [key?, add, List.getElem?_append]
  split
  next hlt => rw [if_neg (Nat.ne_of_lt hlt), key?]
  next hge =>
    by_cases hi : i = s.tasks.length
    · simp [hi]
    · have hnone : s.tasks[i]? = none := List.getElem?_eq_none (Nat.not_lt.1 hge)
      have hgt : i - s.tasks.length ≠ 0 := by omega
      rw [if_neg hi, key?, hnone, List.getElem?_singleton, if_neg hgt]

theorem key?_arm (s : Timetable κ ρ σ) (i loop j : Nat) : (s.arm i loop).key? j = s.key? j := by
  unfold arm
  split <;> rfl

theorem key?_start (s : Timetable κ ρ σ) (i j : Nat) (delayed : Bool) :
    (s.start i delayed).key? j = s.key? j := by
  unfold start
  split
  · rfl
  · split
    · rfl
    · rw [key?_arm, key?_setTask]

theorem roll_setTask {old new : PeriodicTask} (hold : s.task? i = some old)
    (h : ∀ k, s.key? i = some k → active k = false → new.begun = old.begun) :
    (s.setTask i new).roll active = s.roll active := by
  refine List.ext_getElem? fun j => ?_
  rw [Timetable.roll, Timetable.roll, List.getElem?_map, List.getElem?_map, getElem?_setTask]
  split
  next hij =>
    subst hij
    obtain ⟨e, he, rfl⟩ := exists_of_task? hold
    have hbegun := h e.key (by rw [key?, he]; rfl)
    rw [he, Option.map_some, Option.map_some, Option.map_some]
    cases hactive : active e.key with
    | true => simp
    | false => simp [hbegun hactive]
  · rfl

theorem begun_eq_of_roll {s' : Timetable κ ρ σ} (h : s'.roll active = s.roll active)
    (hkey : s.key? i = some k) (hidle : active k = false) :
    (s'.task? i).map (·.begun) = (s.task? i).map (·.begun) := by
  obtain ⟨e, he, rfl⟩ := exists_of_key? hkey
  have hentry := congrArg (·[i]?) h
  simp only [Timetable.roll, List.getElem?_map, he, Option.map_some, hidle, Bool.false_eq_true,
    if_false] at hentry
  obtain ⟨e', he', hsame⟩ := Option.map_eq_some_iff.1 hentry
  obtain ⟨hk, hbegun⟩ := Prod.mk.inj hsame
  rw [hk, hidle, if_neg Bool.false_ne_true] at hbegun
  rw [task?, task?, he, he', Option.map_some, Option.map_some, Option.map_some, Option.map_some,
    Option.some.inj hbegun]

namespace Keeps

theorem setTimer (h : s.Keeps active fits P roll) (due : Instant) {a : Alarm ρ}
    (ha : ∀ j r, a = .resume j r → ∃ k, s.key? j = some k ∧ active k = true ∧ fits k r) :
    (s.setTimer due a).Keeps active fits P roll := by
  refine ⟨h.state, fun t ht j r halarm => ?_, h.closed, h.roll⟩
  rcases List.mem_append.1 ht with hold | hnew
  · exact h.waiting t hold j r halarm
  · obtain rfl := List.mem_singleton.1 hnew
    exact ha j r halarm

theorem arm (h : s.Keeps active fits P roll) (j loop : Nat) :
    (s.arm j loop).Keeps active fits P roll := by
  unfold Timetable.arm
  split
  · exact h.setTimer _ (by simp)
  · exact h

theorem wait (h : s.Keeps active fits P roll) (hkey : s.key? i = some k)
    (hactive : active k = true) {r : ρ} (hr : fits k r) (delay : Nat) :
    (s.setTimer (s.now + delay) (.resume i r)).Keeps active fits P roll := by
  refine h.setTimer _ fun j r' hr' => ?_
  cases hr'
  exact ⟨k, hkey, hactive, hr⟩

theorem of_state (h : s.Keeps active fits P roll) {x : σ} (hx : P x) :
    { s with state := x }.Keeps active fits P roll :=
  ⟨hx, h.waiting, h.closed, h.roll⟩

theorem setTask (h : s.Keeps active fits P roll) {old new : PeriodicTask}
    (hold : s.task? i = some old) (hkey : s.key? i = some k)
    (hidle : active k = false → new.Closed ∧ new.begun = old.begun) :
    (s.setTask i new).Keeps active fits P roll := by
  refine ⟨h.state, fun t ht j r halarm => ?_, fun e he hactive => ?_, ?_⟩
  · rw [key?_setTask]
    exact h.waiting t ht j r halarm
  · rcases mem_setTask he with hmem | ⟨e', he', rfl⟩
    · exact h.closed e hmem hactive
    · have hk : e'.key = k := by simpa [key?, he'] using hkey
      exact (hidle (hk ▸ hactive)).1
  · rw [roll_setTask hold fun k' hk' hactive => ?_, h.roll]
    obtain rfl : k' = k := Option.some.inj (hk'.symm.trans hkey)
    exact (hidle hactive).2

def Follows (turn : Timetable κ ρ σ → Turn ρ → Timetable κ ρ σ) (active : κ → Bool)
    (fits : κ → ρ → Prop) (P : σ → Prop) (roll : List (κ × Option Nat)) (i : Nat) (k : κ) : Prop :=
  ∀ s t, s.Keeps active fits P roll → s.key? i = some k → active k = true →
    (∀ d r, t = .wait d r → fits k r) → (turn s t).Keeps active fits P roll

variable {f : Actions κ ρ σ}

theorem settle (hf : f.Preserves active fits P) (h : s.Keeps active fits P roll)
    {turn : Timetable κ ρ σ → Turn ρ → Timetable κ ρ σ}
    (hturn : active k = true → Follows turn active fits P roll i k) {old new : PeriodicTask}
    (hold : s.task? i = some old) (hkey : s.key? i = some k)
    (hidle : old.Closed → new.Closed ∧ new.begun = old.begun) :
    (s.settle f i turn old new).Keeps active fits P roll := by
  obtain ⟨e, he, hek⟩ := exists_of_key? hkey
  have hclosed : active k = false → new.Closed ∧ new.begun = old.begun := fun hactive => by
    have hmem := h.closed e (List.mem_of_getElem? he) (hek ▸ hactive)
    obtain ⟨e', he', hold'⟩ := exists_of_task? hold
    obtain rfl : e = e' := Option.some.inj (he.symm.trans he')
    exact hidle (hold' ▸ hmem)
  have hset := h.setTask hold hkey hclosed
  unfold Timetable.settle
  dsimp only
  split
  · exact hset
  next hbegun =>
    -- a run has begun, so the task is active
    have hactive : active k = true := by
      cases hk : active k with
      | true => rfl
      | false => exact absurd (hclosed hk).2 hbegun
    split
    · exact hset
    next e' he' =>
      have he'k : e'.key = k := by
        have hkey' := (s.key?_setTask i i new).trans hkey
        simpa [key?, he'] using hkey'
      obtain ⟨hstate, hfits⟩ := hf.enter e'.key (s.setTask i new).now (s.setTask i new).state
        (he'k ▸ hactive) hset.state
      exact hturn hactive _ _ (hset.of_state hstate) ((s.key?_setTask i i new).trans hkey) hactive
        (he'k ▸ hfits)

theorem endTurn (hf : f.Preserves active fits P) (fuel : Nat) :
    Follows (Timetable.endTurn f i fuel) active fits P roll i k := by
  -- on the number of waiting runs that may follow
  induction fuel with
  | zero =>
    intro s t h hkey hactive hfits
    cases t with
    | wait d r => exact h.wait hkey hactive (hfits d r rfl) d
    | finished outcome => exact h
  | succ fuel ih =>
    intro s t h hkey hactive hfits
    cases t with
    | wait d r => exact h.wait hkey hactive (hfits d r rfl) d
    | finished outcome =>
      rw [Timetable.endTurn]
      split
      · exact h
      next t ht =>
        have hsettled := h.settle hf (fun _ => ih) ht hkey fun hclosed => hclosed.finish outcome
        dsimp only
        split
        · exact hsettled.arm ..
        · exact hsettled

theorem fire (hf : f.Preserves active fits P) (h : s.Keeps active fits P roll) {a : Alarm ρ}
    (ha : ∀ j r, a = .resume j r → ∃ k, s.key? j = some k ∧ active k = true ∧ fits k r) :
    (s.fire f a).Keeps active fits P roll := by
  cases a with
  | tick i loop =>
    simp only [Timetable.fire]
    split
    · exact h
    next t ht =>
      obtain ⟨e, he, -⟩ := exists_of_task? ht
      have hkey : s.key? i = some e.key := by rw [key?, he]; rfl
      exact h.settle hf (fun _ => endTurn hf _) ht hkey fun hclosed => hclosed.tick loop s.now
  | resume i r =>
    obtain ⟨k, hkey, hactive, hfits⟩ := ha i r rfl
    simp only [Timetable.fire]
    split
    · exact h
    next e he =>
      obtain rfl : e.key = k := by simpa [key?, he] using hkey
      obtain ⟨hstate, hwaits⟩ := hf.resume e.key r s.now s.state hactive hfits h.state
      exact endTurn hf _ _ _ (h.of_state hstate) hkey hactive hwaits

theorem run (hf : f.Preserves active fits P) (limit : Instant) (fuel : Nat)
    (h : s.Keeps active fits P roll) : (s.run f limit fuel).Keeps active fits P roll := by
  induction fuel generalizing s with
  | zero => exact h
  | succ fuel ih =>
    rw [Timetable.run]
    split
    · exact h
    next t timers hfirst =>
      obtain ⟨ht, hrest⟩ := Timer.takeFirst_mem hfirst
      have hleft : { s with timers, now := max s.now t.due }.Keeps active fits P roll :=
        ⟨h.state, fun u hu => h.waiting u (hrest u hu), h.closed, h.roll⟩
      exact ih (hleft.fire hf (h.waiting t ht))

theorem advanceTo (hf : f.Preserves active fits P) (h : s.Keeps active fits P roll)
    (limit : Instant) : (s.advanceTo f limit).Keeps active fits P roll := by
  have hrun := h.run hf limit (s.fuelFor limit)
  exact ⟨hrun.state, hrun.waiting, hrun.closed, hrun.roll⟩

theorem advanceAll (hf : f.Preserves active fits P) (limits : List Instant)
    (h : s.Keeps active fits P roll) :
    (limits.foldl (·.advanceTo f ·) s).Keeps active fits P roll := by
  induction limits generalizing s with
  | nil => exact h
  | cons limit limits ih => exact ih (h.advanceTo hf limit)

theorem self (h : s.Keeps active fits P roll) : s.Keeps active fits P (s.roll active) :=
  ⟨h.state, h.waiting, h.closed, rfl⟩

theorem activate {active' : κ → Bool} (h : s.Keeps active fits P roll)
    (hle : ∀ k, active k = true → active' k = true) :
    s.Keeps active' fits P (s.roll active') := by
  refine ⟨h.state, fun t ht i r halarm => ?_, fun e he hidle => h.closed e he ?_, rfl⟩
  · obtain ⟨k, hkey, hactive, hfits⟩ := h.waiting t ht i r halarm
    exact ⟨k, hkey, hle k hactive, hfits⟩
  · cases hk : active e.key with
    | false => rfl
    | true => exact absurd (hle e.key hk) (by simp [hidle])

theorem add (h : s.Keeps active fits P roll) (key : κ) (period : Nat) :
    (s.add key period).Keeps active fits P ((s.add key period).roll active) := by
  refine ⟨h.state, fun t ht i r halarm => ?_, fun e he hidle => ?_, rfl⟩
  · obtain ⟨k, hkey, hfits⟩ := h.waiting t ht i r halarm
    obtain ⟨e, he, -⟩ := exists_of_key? hkey
    obtain ⟨hlt, -⟩ := List.getElem?_eq_some_iff.1 he
    exact ⟨k, (s.key?_add key period i).trans (by rwa [if_neg (Nat.ne_of_lt hlt)]), hfits⟩
  · rcases List.mem_append.1 he with hold | hnew
    · exact h.closed e hold hidle
    · rw [List.mem_singleton.1 hnew]
      exact fun l hl => absurd hl List.not_mem_nil

theorem start (h : s.Keeps active fits P roll) (hkey : s.key? i = some k)
    (hactive : active k = true) (delayed : Bool) :
    (s.start i delayed).Keeps active fits P roll := by
  unfold Timetable.start
  split
  · exact h
  next t ht =>
    split
    · exact h
    · exact (h.setTask ht hkey fun hidle => absurd hactive (by simp [hidle])).arm ..

end Keeps

section Close

variable {tasks : List Nat}

theorem close_frame (s : Timetable κ ρ σ) (i : Nat) :
    (s.close i).state = s.state ∧ (s.close i).now = s.now ∧ (s.close i).timers = s.timers ∧
      ∀ j, (s.close i).key? j = s.key? j := by
  unfold close
  split
  · exact ⟨rfl, rfl, rfl, fun _ => rfl⟩
  · exact ⟨rfl, rfl, rfl, fun j => s.key?_setTask i j _⟩

theorem task?_close (s : Timetable κ ρ σ) (i j : Nat) :
    (s.close i).task? j = if i = j then (s.task? j).map PeriodicTask.close else s.task? j := by
  unfold close
  split
  next hnone =>
    split
    next hij => rw [← hij, hnone]; rfl
    · rfl
  next t ht =>
    rw [task?_setTask]
    split
    next hij => rw [← hij, ht]; rfl
    · rfl

end Close

end Timetable

end Actions

end NodeAgent
