import NodeAgent.Proofs.Rebuild

/-!
An instance that serves, and its end. While it serves nothing else is alive; once it is closed nothing
is, and no task has begun a run by that.
-/

namespace NodeAgent

theorem Core.Within.mono {c : Core LocalEngine} {all tags tags' : List String}
    (h : c.Within all tags) (hsub : ∀ t ∈ tags, t ∈ tags') : c.Within all tags' where
  isOpen := h.isOpen
  listeners := fun t ht => hsub t (h.listeners t ht)
  limiters := fun t ht => hsub t (h.limiters t ht)
  uids := by
    intro u hu
    obtain ⟨t, ht, hof⟩ := h.uids u hu
    exact ⟨t, hsub t ht, hof⟩
  traffic := fun t ht => (h.traffic t ht).imp_left (hsub t)

theorem World.monitor_visit {χ π σ α : Type} (w : World χ LocalEngine π σ) (o n : Nat)
    (now : Instant) (default : α) (f : Place χ LocalEngine π → Place χ LocalEngine π × α)
    (o' : Nat) : ((w.visit o n now default f).1.instances[o']?).map (·.monitor) =
      (w.instances[o']?).map (·.monitor) := by
  unfold visit
  split
  · rfl
  · simp only [putPlace, List.getElem?_modify]
    cases w.instances[o']? with
    | none => rfl
    | some i => by_cases ho : o = o' <;> simp [ho]

namespace Agenda

variable {χ π σ : Type} {s s' : Agenda χ LocalEngine π σ} {owner : Nat} {posts : List Post}
  {all : List String}

def Still (s : Agenda χ LocalEngine π σ) : Prop := ∀ owner, s.Rests owner

theorem Still.closed (h : s.Still) {e : Scheduled Job} (he : e ∈ s.tasks) : e.task.Closed :=
  (h (e.key.owner + 1)).tasks e he (Nat.ne_of_lt (Nat.lt_succ_self _))

theorem Still.shut (h : s.Still) {o : Nat} {i : Instance LocalEngine π σ}
    (hi : s.state.instances[o]? = some i) : i.core.engine = { closed := true } :=
  (h (o + 1)).engines o i hi (Nat.ne_of_lt (Nat.lt_succ_self _))

theorem Rests.still (h : s.Rests owner)
    (tasks : ∀ e ∈ s.tasks, e.key.owner = owner → e.task.Closed)
    (engine : ∀ i, s.state.instances[owner]? = some i → i.core.engine = { closed := true }) :
    s.Still := by
  intro o
  refine ⟨fun e he _ => ?_, fun o' i hi _ => ?_, h.known⟩
  · by_cases howner : e.key.owner = owner
    · exact tasks e he howner
    · exact h.tasks e he howner
  · by_cases howner : o' = owner
    · exact engine i (howner ▸ hi)
    · exact h.engines o' i hi howner

section Begun

theorem begun_closeTasks (s : Agenda χ LocalEngine π σ) (tasks : List Nat) (j : Nat) :
    ((s.closeTasks tasks).task? j).map (·.begun) = (s.task? j).map (·.begun) := by
  induction tasks generalizing s with
  | nil => rfl
  | cons i tasks ih => exact (ih (Timetable.close s i)).trans (s.begun_close i j)

theorem begun_closeNodes (s : Agenda χ LocalEngine π σ) (owner : Nat) (numbers : List Nat)
    (j : Nat) :
    ((s.closeNodes owner numbers).1.task? j).map (·.begun) = (s.task? j).map (·.begun) := by
  induction numbers generalizing s with
  | nil => rfl
  | cons n numbers ih => exact (ih (s.closeNode owner n).1).trans (s.begun_closeTasks _ j)

theorem begun_closeCore (s : Agenda χ LocalEngine π σ) (owner j : Nat) :
    ((s.closeCore owner).1.task? j).map (·.begun) = (s.task? j).map (·.begun) := by
  unfold closeCore
  split
  · rfl
  · exact s.begun_closeTasks _ j

theorem monitor_closeNodes (s : Agenda χ LocalEngine π σ) (owner : Nat) (numbers : List Nat)
    (o : Nat) : ((s.closeNodes owner numbers).1.state.instances[o]?).map (·.monitor) =
      (s.state.instances[o]?).map (·.monitor) := by
  induction numbers generalizing s with
  | nil => rfl
  | cons n numbers ih =>
    refine (ih (s.closeNode owner n).1).trans ?_
    simp only [closeNode, visit]
    rw [World.monitor_visit, (s.closeTasks_frame _).1]

theorem present_closeCore (s : Agenda χ LocalEngine π σ) (owner o : Nat) :
    ((s.closeCore owner).1.state.instances[o]?).isSome = (s.state.instances[o]?).isSome := by
  unfold closeCore
  split
  · rfl
  next i hi =>
    simp only [World.setInstance, (s.closeTasks_frame _).1, List.getElem?_set]
    split
    next ho =>
      obtain ⟨hlt, -⟩ := List.getElem?_eq_some_iff.1 hi
      rw [if_pos hlt, ← ho, hi]
      rfl
    · rfl

theorem closeFleet_fst (s : Agenda χ LocalEngine π σ) (owner : Nat) :
    (s.closeFleet owner).1 = (s.closeNodes owner (List.range (s.nodeCount owner))).1 := by
  unfold closeFleet
  split
  next heq => rw [heq]
  next heq => rw [heq]

end Begun

namespace Closing

variable {rest rest' : List Nat}

theorem reorder (h : s.Closing owner posts all rest) (same : ∀ n, n ∈ rest ↔ n ∈ rest') :
    s.Closing owner posts all rest' where
  state := by
    refine h.state.mono fun c hc => hc.mono fun t ht => ?_
    obtain ⟨face, hface, rfl⟩ := List.mem_map.1 ht
    obtain ⟨n, hn, hpost⟩ := List.mem_filterMap.1 hface
    exact List.mem_map.2 ⟨face, List.mem_filterMap.2 ⟨n, (same n).1 hn, hpost⟩, rfl⟩
  closed := by
    intro j k hk hidle
    refine h.closed j k hk ?_
    cases k with
    | monitor o => cases hidle
    | node o n d =>
      obtain ⟨ho, hn⟩ := Job.isActive_eq_false_iff.1 hidle
      exact Job.isActive_eq_false_iff.2 ⟨ho, mt (same n).1 hn⟩
  manned := fun j n d hn => h.manned j n d ((same n).2 hn)
  waiting := h.waiting

variable [ServerApi σ χ] [Shell χ] [PanelApi π χ]

theorem closeCore (h : s.Closing owner posts all []) (hs : s.Rests owner)
    (watched : ∀ i, s.state.instances[owner]? = some i →
      ∀ j, s.key? j = some (.monitor owner) → i.monitor = some j) :
    (s.closeCore owner).1.Still := by
  obtain ⟨i, hi, -, -⟩ := h.state
  obtain ⟨hlt, -⟩ := List.getElem?_eq_some_iff.1 hi
  obtain ⟨-, -, hrests⟩ := (s.closeCore_stirs owner).spares hs
  obtain ⟨hstate, -, hkey⟩ := s.closeTasks_frame i.monitor.toList
  refine Rests.still hrests (fun e he howner => ?_) fun i' hi' => ?_
  · simp only [Agenda.closeCore, hi] at he
    obtain ⟨j, hj⟩ := List.mem_iff_getElem?.1 he
    have hk : s.key? j = some e.key := by
      rw [← hkey, Timetable.key?, hj]
      rfl
    have htask : (s.closeTasks i.monitor.toList).task? j = some e.task := by
      rw [Timetable.task?, hj]
      rfl
    refine closed_closeTasks ?_ e.task htask
    cases hjob : e.key with
    | monitor o =>
      rw [hjob] at hk howner
      have hmonitor := watched i hi j (howner ▸ hk)
      exact .inl (by rw [hmonitor]; exact List.mem_singleton_self j)
    | node o n d =>
      rw [hjob] at hk howner
      exact .inr (h.closed j _ hk (Job.isActive_eq_false_iff.2 ⟨howner, List.not_mem_nil⟩))
  · simp only [Agenda.closeCore, hi, World.setInstance, hstate] at hi'
    rw [List.getElem?_set_self hlt] at hi'
    cases hi'
    rfl

end Closing

structure Serves (s : Agenda χ LocalEngine π σ) (owner : Nat) : Prop where
  rests : s.Rests owner
  underway : ∃ posts, s.Underway owner posts (List.range posts.length).reverse
    (·.Houses (crew posts (List.range posts.length).reverse))
  watched : ∃ i, s.state.instances[owner]? = some i ∧
    ∀ j, s.key? j = some (.monitor owner) → i.monitor = some j

theorem Rests.of_works (h : s.Rests owner) {w : World χ LocalEngine π σ} (hw : s.state.Works w) :
    Rests { s with state := w } owner :=
  ⟨h.tasks, fun _ _ hi ho => h.engines_of_works hw hi ho, h.known⟩

theorem Rests.announce (h : s.Rests owner) (due : Instant) {j : Nat} {r : InFlight}
    (hj : (s.key? j).isSome) : Rests (s.setTimer due (.resume j r)) owner where
  tasks := h.tasks
  engines := h.engines
  known := by
    intro t ht j' r' halarm
    rcases List.mem_append.1 ht with hold | hnew
    · exact h.known t hold j' r' halarm
    · obtain rfl := List.mem_singleton.1 hnew
      cases halarm
      exact hj

theorem Underway.of_state {started : List Nat} {Q : Core LocalEngine → Prop}
    (h : s.Underway owner posts started Q) {w : World χ LocalEngine π σ}
    (hw : w.Stands owner posts Q) : Underway { s with state := w } owner posts started Q :=
  ⟨h.keeps.of_state hw, h.manned⟩

namespace Serves

theorem of_works (h : s.Serves owner) {w : World χ LocalEngine π σ} (hw : s.state.Works w)
    (hstands : ∀ posts crew, s.state.Stands owner posts (·.Houses crew) →
      w.Stands owner posts (·.Houses crew)) : Serves { s with state := w } owner where
  rests := h.rests.of_works hw
  underway := by
    obtain ⟨posts, hposts⟩ := h.underway
    exact ⟨posts, hposts.of_state (hstands _ _ hposts.keeps.state)⟩
  watched := by
    obtain ⟨i, hi, hmonitor⟩ := h.watched
    obtain ⟨i', hi', hworks⟩ := hw.instance? hi
    exact ⟨i', hi', fun j hj => hworks.monitor.trans (hmonitor j hj)⟩

theorem announce (h : s.Serves owner) (due : Instant) {j o : Nat}
    (hj : s.key? j = some (.monitor o)) (r : InFlight) :
    Serves (s.setTimer due (.resume j r)) owner where
  rests := h.rests.announce due (by rw [hj]; rfl)
  underway := by
    obtain ⟨posts, hposts⟩ := h.underway
    have hkeeps := hposts.keeps.setTimer due (a := .resume j r) fun j' r' halarm => by
      cases halarm
      exact ⟨_, hj, rfl, trivial⟩
    exact ⟨posts, hkeeps, hposts.manned⟩
  watched := h.watched

variable [ServerApi σ χ] [Shell χ] [PanelApi π χ]

theorem advanceTo (h : s.Serves owner) (limit : Instant) :
    Serves (s.advanceTo World.actions limit) owner where
  rests := (advanceTo_spares h.rests limit).2
  underway := by
    obtain ⟨posts, hposts⟩ := h.underway
    exact ⟨posts, hposts.advanceTo (fun tag htag c c' ht hc => hc.tended htag ht) limit⟩
  watched := by
    obtain ⟨i, hi, hmonitor⟩ := h.watched
    obtain ⟨i', hi', hworks⟩ := (World.works_advanceTo s limit).instance? hi
    refine ⟨i', hi', fun j hj => ?_⟩
    rw [Timetable.key?_of_lasting (s.lasting_advanceTo World.actions limit)] at hj
    exact hworks.monitor.trans (hmonitor j hj)

theorem close_stirs (s : Agenda χ LocalEngine π σ) (owner : Nat) :
    Stirring owner s ((s.closeFleet owner).1.closeCore owner).1 := by
  rw [closeFleet_fst]
  exact (s.closeNodes_stirs owner _).trans (closeCore_stirs ..)

omit [ServerApi σ χ] [Shell χ] [PanelApi π χ] in
theorem begun_close (s : Agenda χ LocalEngine π σ) (owner j : Nat) :
    (((s.closeFleet owner).1.closeCore owner).1.task? j).map (·.begun) =
      (s.task? j).map (·.begun) := by
  rw [closeFleet_fst, begun_closeCore, begun_closeNodes]

omit [ServerApi σ χ] [Shell χ] [PanelApi π χ] in
theorem present_close (s : Agenda χ LocalEngine π σ) (owner o : Nat) :
    (((s.closeFleet owner).1.closeCore owner).1.state.instances[o]?).isSome =
      (s.state.instances[o]?).isSome := by
  have hmonitor := s.monitor_closeNodes owner (List.range (s.nodeCount owner)) o
  have hsome := congrArg Option.isSome hmonitor
  rw [Option.isSome_map, Option.isSome_map] at hsome
  rw [closeFleet_fst, present_closeCore, hsome]

theorem still_close (h : s.Serves owner) :
    ((s.closeFleet owner).1.closeCore owner).1.Still := by
  obtain ⟨posts, hposts⟩ := h.underway
  obtain ⟨i, hi, hwatched⟩ := h.watched
  have hclosing : s.Closing owner posts _ (List.range posts.length) :=
    (hposts.mono fun c hc => ⟨c, hc, .refl c⟩).closing.reorder fun n => List.mem_reverse
  have hcount : s.nodeCount owner = posts.length := by
    obtain ⟨i', hi', hlength, -⟩ := hposts.keeps.state
    rw [nodeCount, hi', ← hlength, List.length_map]
    rfl
  rw [closeFleet_fst, hcount]
  obtain ⟨posts', hclosed⟩ := hclosing.closeNodes List.nodup_range fun n hn => List.mem_range.1 hn
  obtain ⟨-, -, hrests⟩ := (s.closeNodes_stirs owner (List.range posts.length)).spares h.rests
  refine hclosed.closeCore hrests fun i' hi' j hj => ?_
  have hmonitor := s.monitor_closeNodes owner (List.range posts.length) owner
  rw [hi, hi', Option.map_some, Option.map_some, Option.some.injEq] at hmonitor
  rw [(s.closeNodes_frame owner _).2] at hj
  exact hmonitor.trans (hwatched j hj)

end Serves

end Agenda

end NodeAgent
