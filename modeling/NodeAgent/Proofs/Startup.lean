import NodeAgent.Agent
import NodeAgent.Proofs.Shutdown

/-!
A new instance. Once all its nodes have started it serves, with a poll that has just begun to wait; if
one of them does not start, the instance is closed before anyone hears of it.
-/

namespace NodeAgent

namespace Agenda

variable {χ π σ : Type} {s s' : Agenda χ LocalEngine π σ} {owner n : Nat} {posts : List Post}
  {started : List Nat} {Q : Core LocalEngine → Prop} {i : Instance LocalEngine π σ}

def Placed (s : Agenda χ LocalEngine π σ) : Prop :=
  ∀ j k, s.key? j = some k → (s.state.instances[k.owner]?).isSome

theorem Placed.unwatched (h : s.Placed) (absent : s.state.instances[owner]? = none) :
    s.Unwatched owner := by
  intro j hj
  have hthere := h j _ hj
  rw [Job.owner, absent] at hthere
  cases hthere

theorem Spares.placed (h : s.Spares s' owner) (placed : s.Placed)
    (there : (s'.state.instances[owner]?).isSome) : s'.Placed := by
  intro j k hk
  by_cases ho : k.owner = owner
  · rw [ho]
    exact there
  · have hold : s.key? j = some k := (h.fresh j k hk).resolve_right ho
    rw [h.present k.owner ho]
    exact placed j k hold

section Started

variable [Shell χ] [PanelApi π χ] [ServerApi σ χ]

omit [Shell χ] [PanelApi π χ] [ServerApi σ χ] in
theorem entrant_lasting (now : Instant) (job : Job) (seconds : Nat) :
    (entrant now job seconds).task.isOpen = true ∧
      (entrant now job seconds).task.loops.map (·.cancelled) = [false] := by
  refine ⟨rfl, ?_⟩
  simp only [entrant, PeriodicTask.start, Bool.false_eq_true, if_false, List.nil_append,
    List.map_singleton, PeriodicTask.newLoop]
  split <;> rfl

theorem startNode_lasting {p : Place χ LocalEngine π} (there : s.state.place? owner n = some p)
    (h : s.startNode owner n = (s', .ok ())) :
    ∃ more, s'.lasting = s.lasting ++ more ∧ ∀ d ∈ [Duty.sync, .report],
      ∃ l : Lasting, (.node owner n d, l) ∈ more ∧ l.isOpen = true ∧ l.cancelled = [false] := by
  obtain ⟨s₁, p₁, hplace, -, -, hlasting, rfl⟩ := startNode_certified there h
  obtain ⟨-, htasks, -⟩ := addNodeTasks_frame hplace
  refine ⟨_, by rw [Timetable.lasting, htasks, List.map_append, ← hlasting]; rfl, fun d hd => ?_⟩
  rcases List.mem_pair.1 hd with rfl | rfl
  · exact ⟨_, List.mem_cons_self .., entrant_lasting _ (.node owner n .sync) _⟩
  · exact ⟨_, List.mem_cons_of_mem _ (List.mem_cons_self ..),
      entrant_lasting _ (.node owner n .report) _⟩

theorem Underway.startNodes_lasting {numbers : List Nat}
    (h : s.Underway owner posts started (·.Houses (crew posts started)))
    (inside : ∀ n ∈ numbers, n < posts.length)
    (hstart : s.startNodes owner started numbers = (s', .ok ())) :
    ∃ more, s'.lasting = s.lasting ++ more ∧ ∀ n ∈ numbers, ∀ d ∈ [Duty.sync, .report],
      ∃ l : Lasting, (.node owner n d, l) ∈ more ∧ l.isOpen = true ∧ l.cancelled = [false] := by
  induction numbers generalizing s posts started with
  | nil =>
    obtain ⟨rfl, -⟩ := Prod.mk.inj hstart
    exact ⟨[], (List.append_nil _).symm, fun n hn => absurd hn List.not_mem_nil⟩
  | cons n numbers ih =>
    have hlt := inside n (List.mem_cons_self ..)
    have hpost : posts[n]? = some posts[n] := List.getElem?_eq_getElem hlt
    simp only [Agenda.startNodes] at hstart
    split at hstart
    next s₁ hnode =>
      obtain ⟨tasks, hcrew⟩ := h.startNode_ok hpost hnode
      obtain ⟨i, node, -, -, -, -, hplace⟩ := h.keeps.state.place? hpost
      obtain ⟨first, hfirst, hduties⟩ := startNode_lasting hplace hnode
      obtain ⟨rest, hrest, hlater⟩ := ih hcrew
        (fun m hm => by rw [List.length_set]; exact inside m (List.mem_cons_of_mem _ hm)) hstart
      refine ⟨first ++ rest, by rw [hrest, hfirst, List.append_assoc], fun m hm d hd => ?_⟩
      rcases List.mem_cons.1 hm with rfl | hm
      · obtain ⟨l, hl, hlive⟩ := hduties d hd
        exact ⟨l, List.mem_append_left _ hl, hlive⟩
      · obtain ⟨l, hl, hlive⟩ := hlater m hm d hd
        exact ⟨l, List.mem_append_right _ hl, hlive⟩
    · cases (Prod.mk.inj hstart).2
    · cases (Prod.mk.inj hstart).2

def Tasked (s : Agenda χ LocalEngine π σ) (owner count : Nat) : Prop :=
  ∀ n < count, ∀ d ∈ [Duty.sync, .report], ∃ (j : Nat) (e : Scheduled Job), s.tasks[j]? = some e ∧
    e.key = .node owner n d ∧ e.task.isOpen = true ∧ e.task.loops.map (·.cancelled) = [false]

theorem Fresh.underway_of_ok (h : s.Fresh owner i) (hstart : s.startFleet owner = (s', .ok ())) :
    ∃ posts, s'.Underway owner posts (List.range posts.length).reverse
        (·.Houses (crew posts (List.range posts.length).reverse)) ∧
      s'.Tasked owner posts.length := by
  rw [h.startFleet_eq] at hstart
  have hinside : ∀ n ∈ List.range i.fleet.nodes.length,
      n < (i.fleet.nodes.map Node.post).length := by
    intro n hn
    rw [List.length_map]
    exact List.mem_range.1 hn
  obtain ⟨posts, hfaces, hall⟩ := h.underway.startNodes_ok hinside hstart
  obtain ⟨more, hmore, hduties⟩ := h.underway.startNodes_lasting hinside hstart
  have hlength : posts.length = i.fleet.nodes.length := by
    have hlengths := congrArg List.length hfaces
    simpa using hlengths
  rw [List.append_nil, ← hlength] at hall
  refine ⟨posts, hall, fun n hn d hd => ?_⟩
  obtain ⟨l, hl, hopen, hcancelled⟩ := hduties n (List.mem_range.2 (hlength ▸ hn)) d hd
  have hmem : (Job.node owner n d, l) ∈ s'.lasting := hmore ▸ List.mem_append_right _ hl
  obtain ⟨e, he, hsame⟩ := List.mem_map.1 hmem
  obtain ⟨j, hj⟩ := List.mem_iff_getElem?.1 he
  obtain ⟨hkey, rfl⟩ := Prod.mk.inj hsame
  exact ⟨j, e, hj, hkey, hopen, hcancelled⟩

theorem Fresh.closing_of_failure {f : Failure} (h : s.Fresh owner i)
    (hstart : s.startFleet owner = (s', .error (.failure f))) :
    ∃ posts all, s'.Closing owner posts all [] := by
  rw [h.startFleet_eq] at hstart
  obtain ⟨done, k, later, s₁, s₂, f₀, hnumbers, hdone, hnode, -, rfl⟩ :=
    startNodes_failure hstart
  obtain ⟨rfl, hk⟩ := range_eq_append_cons hnumbers
  obtain ⟨posts, hfaces, hall⟩ := h.underway.startNodes_ok
    (fun n hn => by rw [List.length_map]; exact Nat.lt_trans (List.mem_range.1 hn) hk) hdone
  have hlt : k < posts.length := by
    have hlengths := congrArg List.length hfaces
    rw [List.length_map, List.length_map, List.length_map] at hlengths
    rwa [hlengths]
  have hclosing := (hall.startNode_failed (List.getElem?_eq_getElem hlt) hnode).closing
  obtain ⟨posts', hclosed⟩ := hclosing.closeNodes
    (by rw [List.append_nil]; exact List.nodup_reverse.2 List.nodup_range) fun n hn => by
      rw [List.append_nil, List.mem_reverse, List.mem_range] at hn
      exact Nat.lt_trans hn hlt
  exact ⟨posts', _, hclosed⟩

end Started

section Watch

theorem Underway.addMonitor (h : s.Underway owner posts started Q) (o seconds : Nat) :
    (s.addStarted (.monitor o) seconds).Underway owner posts started Q := by
  have hadded := h.keeps.add (.monitor o) (seconds * 1000)
  have hkey : (s.add (.monitor o) (seconds * 1000)).key? s.tasks.length = some (.monitor o) :=
    (s.key?_add ..).trans (if_pos rfl)
  have hstarted := hadded.start hkey rfl true
  refine ⟨hstarted.self, fun j m d hkey => ?_⟩
  rw [key?_addStarted] at hkey
  split at hkey
  · cases hkey
  · exact h.manned j m d hkey

def Lively (s : Agenda χ LocalEngine π σ) (owner : Nat) : Prop :=
  ∃ i, s.state.instances[owner]? = some i ∧
    (∃ j seconds, i.monitor = some j ∧ 0 < seconds ∧
      s.tasks[j]? = some (entrant s.now (.monitor owner) seconds)) ∧
    ∀ (n : Nat) (node : Node π), i.fleet.nodes[n]? = some node →
      (∃ l, i.core.engine.listener? node.session.tag = some l) ∧
        ∀ d ∈ [Duty.sync, .report], ∃ j ∈ node.tasks, ∃ e : Scheduled Job,
          s.tasks[j]? = some e ∧ e.key = .node owner n d ∧ e.task.isOpen = true ∧
            e.task.loops.map (·.cancelled) = [false]

def watched (s : Agenda χ LocalEngine π σ) (owner : Nat) (i : Instance LocalEngine π σ)
    (client : σ) (seconds : Nat) : Agenda χ LocalEngine π σ :=
  let i := { i with server := some client, monitor := some s.tasks.length }
  addStarted { s with state := s.state.setInstance owner i } (.monitor owner) seconds

variable {client : σ} {seconds : Nat}

theorem watched_underway (h : s.Underway owner posts started Q)
    (hi : s.state.instances[owner]? = some i) :
    (s.watched owner i client seconds).Underway owner posts started Q := by
  obtain ⟨i', hi', hposts, hQ⟩ := h.keeps.state
  obtain rfl : i = i' := Option.some.inj (hi.symm.trans hi')
  obtain ⟨hlt, -⟩ := List.getElem?_eq_some_iff.1 hi
  have hset : World.Stands (s.state.setInstance owner
      { i with server := some client, monitor := some s.tasks.length }) owner posts Q :=
    ⟨_, List.getElem?_set_self hlt, hposts, hQ⟩
  exact (h.of_state hset).addMonitor owner seconds

theorem watched_instance (hi : s.state.instances[owner]? = some i) :
    (s.watched owner i client seconds).state.instances[owner]? =
      some { i with server := some client, monitor := some s.tasks.length } := by
  obtain ⟨hlt, -⟩ := List.getElem?_eq_some_iff.1 hi
  rw [watched, (addStarted_frame ..).1]
  exact List.getElem?_set_self hlt

theorem watched_tasks : (s.watched owner i client seconds).tasks =
    s.tasks ++ [entrant (s.watched owner i client seconds).now (.monitor owner) seconds] := by
  rw [watched, (addStarted_frame ..).2.2, (addStarted_frame ..).2.1]

theorem watched_lively (h : s.Underway owner posts (List.range posts.length).reverse
      (·.Houses (crew posts (List.range posts.length).reverse)))
    (tasked : s.Tasked owner posts.length) (hi : s.state.instances[owner]? = some i) (client : σ)
    (hseconds : 0 < seconds) : (s.watched owner i client seconds).Lively owner := by
  obtain ⟨i', hi', rfl, hhouses⟩ := h.keeps.state
  obtain rfl : i = i' := Option.some.inj (hi.symm.trans hi')
  refine ⟨_, watched_instance hi, ⟨_, seconds, rfl, hseconds, ?_⟩, fun n node hnode => ⟨?_, ?_⟩⟩
  · rw [watched_tasks]
    exact List.getElem?_concat_length
  · have hmem : node ∈ i.fleet.nodes.take i.fleet.nodes.length := by
      rw [List.take_length]
      exact List.mem_of_getElem? hnode
    have htag := tag_mem_crew hmem
    rw [List.length_map] at hhouses
    rw [← hhouses.mem_keys_iff, ← LocalEngine.listener?_isSome_iff] at htag
    exact Option.isSome_iff_exists.1 htag
  · intro d hd
    obtain ⟨hlt, -⟩ := List.getElem?_eq_some_iff.1 hnode
    obtain ⟨j, e, he, hkey, hlive⟩ := tasked n (by rwa [List.length_map]) d hd
    obtain ⟨post, hpost, hj⟩ := h.manned j n d (by rw [Timetable.key?, he, ← hkey]; rfl)
    rw [List.getElem?_map, hnode] at hpost
    cases hpost
    refine ⟨j, hj, e, ?_, hkey, hlive⟩
    obtain ⟨hltj, -⟩ := List.getElem?_eq_some_iff.1 he
    rw [watched_tasks, List.getElem?_append_left hltj, he]

variable [Shell χ] [PanelApi π χ] [ServerApi σ χ]

theorem watched_spares (hs : s.Rests owner) (i : Instance LocalEngine π σ) (client : σ)
    (seconds : Nat) :
    s.Spares (s.watched owner i client seconds) owner ∧ s.Heeds (s.watched owner i client seconds) ∧
      (s.watched owner i client seconds).Rests owner := by
  obtain ⟨hspares, hheeds, hrests⟩ := (s.setInstance_stirs owner
    { i with server := some client, monitor := some s.tasks.length }).spares hs
  obtain ⟨hspares', hrests'⟩ := addStarted_spares hrests (.monitor owner) rfl seconds
  exact ⟨hspares.trans hspares', hheeds.trans (heeds_addStarted ..), hrests'⟩

theorem watched_serves (h : s.Underway owner posts (List.range posts.length).reverse
      (·.Houses (crew posts (List.range posts.length).reverse)))
    (hs : s.Rests owner) (unwatched : s.Unwatched owner)
    (hi : s.state.instances[owner]? = some i) (client : σ) (seconds : Nat) :
    (s.watched owner i client seconds).Serves owner where
  rests := (watched_spares hs i client seconds).2.2
  underway := ⟨posts, watched_underway h hi⟩
  watched := by
    refine ⟨_, watched_instance hi, fun j hj => ?_⟩
    rw [watched, key?_addStarted] at hj
    split at hj
    next hnew => rw [hnew]
    · exact absurd hj (unwatched j)

end Watch

section Launch

structure New (i : Instance LocalEngine π σ) : Prop where
  engine : i.core.engine = {}
  limiters : i.core.limiters = ∅
  uids : i.core.uids = ∅

theorem new_ofServer {χ : Type} [HttpNetwork χ] {host : Host χ} {config : Config}
    {data : ServerData} {i : LiveInstance} (h : LiveInstance.ofServer host config data = .ok i) :
    New i := by
  unfold LiveInstance.ofServer at h
  obtain ⟨fleet, -, h⟩ := exists_of_bind_eq_ok h
  cases h
  exact ⟨rfl, rfl, rfl⟩

def joined (s : Agenda χ LocalEngine π σ) (i : Instance LocalEngine π σ) :
    Agenda χ LocalEngine π σ :=
  { s with state := { s.state with instances := s.state.instances ++ [i] } }

theorem joined_fresh (hs : s.Still) (placed : s.Placed) (new : New i) :
    (s.joined i).Fresh s.state.instances.length i where
  there := List.getElem?_concat_length
  isOpen := by rw [new.engine]
  unheard := by rw [new.engine]
  limiters := new.limiters
  uids := new.uids
  tasks := by
    intro j n d hj
    have hthere := placed j _ hj
    rw [Job.owner, List.getElem?_eq_none (Nat.le_refl _)] at hthere
    cases hthere
  waiting := (hs 0).known

variable {χ : Type} [Shell χ] [HttpNetwork χ] {s s' : LiveAgenda χ} {client : ServerClient}
  {data : ServerData} {i : LiveInstance}

omit [Shell χ] [HttpNetwork χ] in
theorem pullSeconds_pos (data : ServerData) : 0 < data.pullSeconds := by
  unfold ServerData.pullSeconds ServerData.interval
  split
  · decide
  · omega

theorem joined_stirs (s : LiveAgenda χ) (i : LiveInstance) :
    Stirring s.state.instances.length s (s.joined i) := by
  refine .single (.state _ rfl fun o ho => ?_)
  rw [List.getElem?_append]
  split
  · rfl
  next hge =>
    have hgt : o - s.state.instances.length ≠ 0 := by omega
    rw [List.getElem?_eq_none (Nat.not_lt.1 hge), List.getElem?_singleton, if_neg hgt]

theorem startFleet_stirs (placed : s.Placed) (i : LiveInstance) :
    Stirring s.state.instances.length s
      ((s.joined i).startFleet s.state.instances.length).1 := by
  have hunwatched : s.Unwatched s.state.instances.length :=
    placed.unwatched (List.getElem?_eq_none (Nat.le_refl _))
  have hjoined := s.joined_stirs i
  exact hjoined.trans (startNodes_stirs (hjoined.unwatched hunwatched) _ _)

inductive Launched (s : LiveAgenda χ) (owner : Nat) : Except Fault Nat → Prop
  | serves (serves : s.Serves owner) (lively : s.Lively owner) : Launched s owner (.ok owner)
  | closed (still : s.Still) (f : Failure) : Launched s owner (.error (.failure f))

theorem launch_launched {r : Except Fault Nat} (still : s.Still) (placed : s.Placed) (new : New i)
    (h : s.launch client data i = (s', r)) (returns : ∀ o, r ≠ .error (.overflow o)) :
    s'.Launched s.state.instances.length r ∧ s.Spares s' s.state.instances.length ∧
      s.Heeds s' ∧ s'.Placed := by
  have hfresh := joined_fresh still placed new
  have hstirs := startFleet_stirs placed i
  have hunwatched := hstirs.unwatched (placed.unwatched (List.getElem?_eq_none (Nat.le_refl _)))
  obtain ⟨hspares, hheeds, hrests⟩ := hstirs.spares (still _)
  simp only [launch] at h
  split at h
  next s₁ hstart =>
    have hjoined : (s.joined i).startFleet s.state.instances.length = (s₁, .ok ()) := hstart
    rw [hjoined] at hunwatched hspares hheeds hrests
    obtain ⟨rfl, rfl⟩ := Prod.mk.inj h
    obtain ⟨posts, hposts, htasked⟩ := hfresh.underway_of_ok hjoined
    obtain ⟨i', hi', -, -⟩ := hposts.keeps.state
    have hwatched : s₁.startMonitor s.state.instances.length client data.pullSeconds =
        s₁.watched s.state.instances.length i' client data.pullSeconds := by
      rw [startMonitor, hi']
      rfl
    rw [hwatched]
    obtain ⟨hspares', hheeds', -⟩ := watched_spares hrests i' client data.pullSeconds
    have hserves := watched_serves hposts hrests hunwatched hi' client data.pullSeconds
    have hlively := watched_lively hposts htasked hi' client (pullSeconds_pos data)
    have hall := hspares.trans hspares'
    refine ⟨.serves hserves hlively, hall, hheeds.trans hheeds', hall.placed placed ?_⟩
    rw [watched_instance hi']
    rfl
  next s₁ f hstart =>
    have hjoined : (s.joined i).startFleet s.state.instances.length =
        (s₁, .error (.failure f)) := hstart
    rw [hjoined] at hunwatched hspares hheeds hrests
    obtain ⟨rfl, rfl⟩ := Prod.mk.inj h
    obtain ⟨posts, all, hclosing⟩ := hfresh.closing_of_failure hjoined
    have hstill := hclosing.closeCore hrests fun _ _ j hj => absurd hj (hunwatched j)
    obtain ⟨hspares', hheeds', -⟩ := (s₁.closeCore_stirs s.state.instances.length).spares hrests
    obtain ⟨i', hi', -⟩ := hclosing.state
    have hall := hspares.trans hspares'
    refine ⟨.closed hstill f, hall, hheeds.trans hheeds', hall.placed placed ?_⟩
    rw [present_closeCore, hi']
    rfl
  next s₁ o _ => exact absurd (Prod.mk.inj h).2.symm (returns o)

end Launch

end Agenda

end NodeAgent
