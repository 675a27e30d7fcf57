import Mathlib.Data.List.Nodup
import NodeAgent.Offline
import NodeAgent.Panel.ServerClient
import NodeAgent.Proofs.Launch

/-!
A start of the nodes of an instance that fails. The node that does not start leaves nothing, those that
were started before it are closed, and then nothing is left of any of them, now or later.
-/

namespace NodeAgent

theorem range_eq_append_cons {count n : Nat} {done later : List Nat}
    (h : List.range count = done ++ n :: later) : done = List.range n ∧ n < count := by
  have hlength := congrArg List.length h
  rw [List.length_range, List.length_append, List.length_cons] at hlength
  have hlt : done.length < count := by omega
  have hn : done.length = n := by
    have hget := congrArg (·[done.length]?) h
    simpa [hlt] using hget
  have hdone := congrArg (List.take done.length) h
  rw [List.take_range, List.take_left, Nat.min_eq_left (Nat.le_of_lt hlt)] at hdone
  exact ⟨hn ▸ hdone.symm, hn ▸ hlt⟩

namespace Core

/--
The engine is open, and whatever there is of nodes is of nodes of these tags, but for the counters:
they may be of a node that is not among `all`.
-/
structure Within (c : Core LocalEngine) (all tags : List String) : Prop where
  isOpen : c.engine.closed = false
  listeners : ∀ t ∈ c.engine.entries.keys, t ∈ tags
  limiters : ∀ t ∈ c.limiters.keys, t ∈ tags
  uids : ∀ u ∈ c.uids.keys, ∃ t ∈ tags, isUserOf t u = true
  traffic : ∀ t ∈ all, t ∈ tags ∨ c.traffic.find? t = none

variable {c c' : Core LocalEngine} {all tags : List String} {crew : List (String × NodeInfo)}

theorem Within.with_now (h : c.Within all tags) (now : Instant) :
    Within { c with now } all tags := { h with }

theorem Houses.within (h : c.Houses crew) (hw : c.Withdrawn c') :
    c'.Within (crew.map Prod.fst) (crew.map Prod.fst) where
  isOpen := hw.closed.trans h.isOpen
  listeners := fun t ht => (h.mem_keys_iff t).1 (hw.listeners t ht)
  limiters := fun t ht => h.limiters t (hw.limiters t ht)
  uids := fun u hu => h.uids u (hw.uids u hu)
  traffic := fun _ ht => .inl ht

theorem Within.empty (h : c.Within all []) :
    c.engine.entries = ∅ ∧ c.limiters = ∅ ∧ c.uids = ∅ ∧ ∀ t ∈ all, c.traffic.find? t = none := by
  refine ⟨Table.eq_empty_iff.2 fun t ht => ?_, Table.eq_empty_iff.2 fun t ht => ?_,
    Table.eq_empty_iff.2 fun u hu => ?_, fun t ht => (h.traffic t ht).resolve_left ?_⟩
  · exact absurd (h.listeners t ht) List.not_mem_nil
  · exact absurd (h.limiters t ht) List.not_mem_nil
  · obtain ⟨t, ht, -⟩ := h.uids u hu
    cases ht
  · exact List.not_mem_nil

theorem Within.close {s : Session} (h : c.Within all (s.tag :: tags)) :
    (s.close c).1.Within all tags := by
  obtain ⟨c', hdel, hremoved⟩ := (c.deleteLimiter s.tag).delNode_of_open s.tag h.isOpen
  rw [Session.close, hdel]
  refine ⟨hremoved.isOpen, fun t ht => ?_, fun t ht => ?_, fun u hu => ?_, fun t ht => ?_⟩
  · rw [← LocalEngine.listener?_isSome_iff, hremoved.listener] at ht
    split at ht
    · cases ht
    next hne =>
      have hmem := (LocalEngine.listener?_isSome_iff ..).1 ht
      exact (List.mem_cons.1 (h.listeners t hmem)).resolve_left hne
  · rw [hremoved.limiters, deleteLimiter, Table.mem_keys_erase] at ht
    exact (List.mem_cons.1 (h.limiters t ht.1)).resolve_left ht.2
  · obtain ⟨hmem, hother⟩ := (hremoved.uids u).1 hu
    obtain ⟨t, ht, hof⟩ := h.uids u hmem
    rcases List.mem_cons.1 ht with rfl | ht
    · rw [hother] at hof
      cases hof
    · exact ⟨t, ht, hof⟩
  · rw [hremoved.traffic, Table.find?_erase]
    split
    · exact .inr rfl
    next hne =>
      exact (h.traffic t ht).imp_left fun hmem => (List.mem_cons.1 hmem).resolve_left hne

end Core

namespace Agenda

section Close

variable {χ ε π σ : Type}

theorem closeTasks_frame (s : Agenda χ ε π σ) (tasks : List Nat) :
    (s.closeTasks tasks).state = s.state ∧ (s.closeTasks tasks).timers = s.timers ∧
      ∀ j, (s.closeTasks tasks).key? j = s.key? j := by
  induction tasks generalizing s with
  | nil => exact ⟨rfl, rfl, fun _ => rfl⟩
  | cons i tasks ih =>
    obtain ⟨hstate, -, htimers, hkey⟩ := Timetable.close_frame s i
    obtain ⟨hstate', htimers', hkey'⟩ := ih (Timetable.close s i)
    exact ⟨hstate'.trans hstate, htimers'.trans htimers, fun j => (hkey' j).trans (hkey j)⟩

theorem closed_closeTasks {s : Agenda χ ε π σ} {tasks : List Nat} {j : Nat}
    (h : j ∈ tasks ∨ ∀ t ∈ s.task? j, t.Closed) :
    ∀ t ∈ (s.closeTasks tasks).task? j, t.Closed := by
  induction tasks generalizing s with
  | nil => exact h.resolve_left List.not_mem_nil
  | cons i tasks ih =>
    refine ih (s := Timetable.close s i) ?_
    by_cases hmem : j ∈ tasks
    · exact .inl hmem
    · refine .inr fun t ht => ?_
      rw [Timetable.task?_close] at ht
      split at ht
      · obtain ⟨t', -, rfl⟩ := Option.map_eq_some_iff.1 ht
        exact t'.closed_close
      next hne =>
        have hbefore := h.resolve_left fun hj => (List.mem_cons.1 hj).elim (Ne.symm hne) hmem
        exact hbefore t ht

variable [Engine ε]

theorem closeNode_frame (s : Agenda χ ε π σ) (owner n : Nat) :
    (s.closeNode owner n).1.timers = s.timers ∧
      ∀ j, (s.closeNode owner n).1.key? j = s.key? j := by
  obtain ⟨-, htimers, hkey⟩ :=
    s.closeTasks_frame (((s.state.place? owner n).map (·.node.tasks)).getD [])
  exact ⟨htimers, hkey⟩

theorem closeNodes_frame (s : Agenda χ ε π σ) (owner : Nat) (numbers : List Nat) :
    (s.closeNodes owner numbers).1.timers = s.timers ∧
      ∀ j, (s.closeNodes owner numbers).1.key? j = s.key? j := by
  induction numbers generalizing s with
  | nil => exact ⟨rfl, fun _ => rfl⟩
  | cons n numbers ih =>
    obtain ⟨htimers, hkey⟩ := s.closeNode_frame owner n
    obtain ⟨htimers', hkey'⟩ := ih (s.closeNode owner n).1
    exact ⟨htimers'.trans htimers, fun j => (hkey' j).trans (hkey j)⟩

end Close

variable {χ π σ : Type}

/--
The nodes are at their posts, and those that are to be closed yet may be all that is left of `all`.
Only their tasks may begin a run; every run that waits is one of a task that is known.
-/
structure Closing (s : Agenda χ LocalEngine π σ) (owner : Nat) (posts : List Post)
    (all : List String) (rest : List Nat) : Prop where
  state : s.state.Stands owner posts (·.Within all ((crew posts rest).map Prod.fst))
  closed : ∀ j k, s.key? j = some k → Job.isActive owner rest k = false →
    ∀ t ∈ s.task? j, t.Closed
  manned : ∀ j n d, n ∈ rest → s.key? j = some (.node owner n d) →
    ∃ post, posts[n]? = some post ∧ j ∈ post.tasks
  waiting : ∀ t ∈ s.timers, ∀ j r, t.alarm = .resume j r →
    ∃ k, s.key? j = some k ∧ Job.Fits owner k r

namespace Closing

variable {s : Agenda χ LocalEngine π σ} {owner n : Nat} {posts : List Post} {post : Post}
  {all : List String} {rest : List Nat}

theorem closeNode (h : s.Closing owner posts all (n :: rest)) (hn : n ∉ rest)
    (hpost : posts[n]? = some post) :
    (s.closeNode owner n).1.Closing owner (posts.set n { post with tasks := [] }) all rest := by
  obtain ⟨i, node, -, -, -, hnode, hplace⟩ := h.state.place? hpost
  have hfaces : (posts.set n { post with tasks := [] }).map Post.face = posts.map Post.face :=
    faces_set hpost rfl
  obtain ⟨htimers, hkey⟩ := s.closeNode_frame owner n
  refine ⟨?_, fun j k hk hidle => ?_, fun j m d hm hk => ?_, fun t ht j r halarm => ?_⟩
  · obtain ⟨hstate, -, -⟩ :=
      s.closeTasks_frame (((s.state.place? owner n).map (·.node.tasks)).getD [])
    have hbefore := h.state
    rw [crew_cons hpost, List.map_cons, ← hstate] at hbefore
    simp only [Agenda.closeNode, Agenda.visit]
    refine hbefore.visit hpost { post with tasks := [] }
      (fun c _ => c.Within all ((crew (posts.set n { post with tasks := [] }) rest).map Prod.fst))
      fun p c hnumber hp hc hcore => ?_
    obtain ⟨htag, hinfo, -⟩ := Post.mk.inj hp
    refine ⟨hnumber, congr (congr (congrArg Post.mk htag) hinfo) rfl, ?_⟩
    rw [crew_congr hfaces]
    refine Core.Within.close ?_
    rw [hcore, htag]
    exact hc.with_now _
  · refine closed_closeTasks ?_
    rw [hkey] at hk
    cases k with
    | monitor o => cases hidle
    | node o m d =>
      obtain ⟨rfl, hm⟩ := Job.isActive_eq_false_iff.1 hidle
      -- a task that was closed just now, or one that was closed before
      by_cases hmn : m = n
      · obtain ⟨post', hpost', hj⟩ := h.manned j m d (hmn ▸ List.mem_cons_self ..) hk
        obtain rfl : post = post' := Option.some.inj (hpost.symm.trans (hmn ▸ hpost'))
        have htasks : node.tasks = post.tasks := congrArg Post.tasks hnode
        refine .inl ?_
        rw [hplace, Option.map_some, Option.getD_some, htasks]
        exact hj
      · refine .inr (h.closed j _ hk (Job.isActive_eq_false_iff.2 ⟨rfl, ?_⟩))
        exact fun hmem => (List.mem_cons.1 hmem).elim hmn hm
  · rw [hkey] at hk
    obtain ⟨post', hpost', hj⟩ := h.manned j m d (List.mem_cons_of_mem _ hm) hk
    have hne : n ≠ m := fun hnm => hn (hnm ▸ hm)
    exact ⟨post', (List.getElem?_set_ne hne).trans hpost', hj⟩
  · rw [htimers] at ht
    obtain ⟨k, hk, hfits⟩ := h.waiting t ht j r halarm
    exact ⟨k, (hkey j).trans hk, hfits⟩

theorem closeNodes (h : s.Closing owner posts all rest) (nodup : rest.Nodup)
    (inside : ∀ n ∈ rest, n < posts.length) :
    ∃ posts', (s.closeNodes owner rest).1.Closing owner posts' all [] := by
  -- no node is closed twice: one that was closed has no post with its tasks any more
  induction rest generalizing s posts with
  | nil => exact ⟨posts, h⟩
  | cons n rest ih =>
    obtain ⟨hn, hrest⟩ := List.nodup_cons.1 nodup
    have hlt := inside n (List.mem_cons_self ..)
    have hpost : posts[n]? = some posts[n] := List.getElem?_eq_getElem hlt
    refine ih (h.closeNode hn hpost) hrest fun m hm => ?_
    rw [List.length_set]
    exact inside m (List.mem_cons_of_mem _ hm)

end Closing

section Failed

variable {ε : Type} [Engine ε] [Shell χ] [PanelApi π χ] [ServerApi σ χ]

theorem startNodes_failure {s s' : Agenda χ ε π σ} {owner : Nat} {started numbers : List Nat}
    {f : Failure} (h : s.startNodes owner started numbers = (s', .error (.failure f))) :
    ∃ done n later s₁ s₂ f₀, numbers = done ++ n :: later ∧
      s.startNodes owner started done = (s₁, .ok ()) ∧
      s₁.startNode owner n = (s₂, .error (.failure f₀)) ∧
      f = f₀.during (.startingNode (s₁.nodeTag owner n)) ∧
      s' = (s₂.closeNodes owner (done.reverse ++ started)).1 := by
  induction numbers generalizing s started with
  | nil => cases (Prod.mk.inj h).2
  | cons n numbers ih =>
    simp only [startNodes] at h
    split at h
    next s₁ hnode =>
      obtain ⟨done, m, later, s₂, s₃, f₀, rfl, hdone, hfailed, hf, hs'⟩ := ih h
      refine ⟨n :: done, m, later, s₂, s₃, f₀, rfl, ?_, hfailed, hf, ?_⟩
      · simp only [startNodes, hnode, hdone]
      · rw [List.reverse_cons, List.append_assoc]
        exact hs'
    next s₂ f₀ hnode =>
      obtain ⟨rfl, hf⟩ := Prod.mk.inj h
      exact ⟨[], n, numbers, s, s₂, f₀, rfl, rfl, hnode,
        (Fault.failure.inj (Except.error.inj hf)).symm, rfl⟩
    · cases (Prod.mk.inj h).2

end Failed

/-- No run of a task of the instance's nodes waits for an answer. -/
def Calm {ε : Type} (s : Agenda χ ε π σ) (owner : Nat) : Prop :=
  ∀ t ∈ s.timers, ∀ j ∈ t.alarm.resumed?, ∀ k ∈ s.key? j, Job.isActive owner [] k = true

instance {ε : Type} (s : Agenda χ ε π σ) (owner : Nat) : Decidable (s.Calm owner) :=
  inferInstanceAs (Decidable (∀ t ∈ s.timers, ∀ j ∈ t.alarm.resumed?, ∀ k ∈ s.key? j,
    Job.isActive owner [] k = true))

theorem calm_closeNodes {ε : Type} [Engine ε] (s : Agenda χ ε π σ) (owner : Nat)
    (numbers : List Nat) : (s.closeNodes owner numbers).1.Calm owner ↔ s.Calm owner := by
  obtain ⟨htimers, hkey⟩ := s.closeNodes_frame owner numbers
  simp only [Calm, htimers, hkey]

variable {s : Agenda χ LocalEngine π σ} {owner : Nat} {posts : List Post} {all : List String}

theorem Underway.closing {started : List Nat}
    (h : s.Underway owner posts started fun c' =>
      ∃ c : Core LocalEngine, c.Houses (crew posts started) ∧ c.Withdrawn c') :
    s.Closing owner posts ((crew posts started).map Prod.fst) started where
  state := h.keeps.state.mono fun _ ⟨_, hc, hw⟩ => hc.within hw
  closed := by
    intro j k hk hidle t ht
    obtain ⟨e, he, rfl⟩ := Timetable.exists_of_key? hk
    obtain ⟨e', he', rfl⟩ := Timetable.exists_of_task? ht
    obtain rfl : e = e' := Option.some.inj (he.symm.trans he')
    exact h.keeps.closed e (List.mem_of_getElem? he) hidle
  manned := fun j n d _ hk => h.manned j n d hk
  waiting := by
    intro t ht j r halarm
    obtain ⟨k, hk, -, hfits⟩ := h.keeps.waiting t ht j r halarm
    exact ⟨k, hk, hfits⟩

variable [Shell χ] [PanelApi π χ] [ServerApi σ χ]

theorem Closing.later {i : Instance LocalEngine π σ} (h : s.Closing owner posts all [])
    (hi : s.state.instances[owner]? = some i) (calm : s.Calm owner) (limits : List Instant) :
    let s' : Agenda χ LocalEngine π σ := limits.foldl (·.advanceTo World.actions ·) s
    (s'.state.instances[owner]?).map (·.core) = some i.core ∧
      ∀ j n d, s.key? j = some (.node owner n d) →
        (s'.task? j).map (·.begun) = (s.task? j).map (·.begun) := by
  intro s'
  have hkeeps : s.Keeps (Job.isActive owner []) (Job.Fits owner)
      (·.Stands owner posts (· = i.core)) (s.roll (Job.isActive owner [])) := by
    obtain ⟨i', hi', hposts, -⟩ := h.state
    obtain rfl : i = i' := Option.some.inj (hi.symm.trans hi')
    refine ⟨⟨i, hi, hposts, rfl⟩, fun t ht j r halarm => ?_, fun e he hidle => ?_, rfl⟩
    · obtain ⟨k, hk, hfits⟩ := h.waiting t ht j r halarm
      exact ⟨k, hk, calm t ht j (by rw [halarm]; rfl) k hk, hfits⟩
    · obtain ⟨j, hj⟩ := List.mem_iff_getElem?.1 he
      exact h.closed j e.key (by rw [Timetable.key?, hj]; rfl) hidle e.task
        (by rw [Timetable.task?, hj]; rfl)
  have hlater : s'.Keeps (Job.isActive owner []) (Job.Fits owner)
      (·.Stands owner posts (· = i.core)) (s.roll (Job.isActive owner [])) := by
    have hactions : Actions.Preserves World.actions (Job.isActive owner []) (Job.Fits owner)
        fun w : World χ LocalEngine π σ => w.Stands owner posts (· = i.core) :=
      World.actions_preserve fun _ hn => absurd hn List.not_mem_nil
    exact hkeeps.advanceAll hactions limits
  obtain ⟨i', hi', -, hcore⟩ := hlater.state
  refine ⟨by rw [hi', Option.map_some, hcore], fun j n d hk => ?_⟩
  exact Timetable.begun_eq_of_roll hlater.roll hk
    (Job.isActive_eq_false_iff.2 ⟨rfl, List.not_mem_nil⟩)

/--
All nodes start or none does. After a failure at any of them nothing is left of those that were started
but closed tasks; and if no run of these waits for an answer at that time, then no run of them ever begins
and nothing happens to the core, however long the clock goes on.
-/
theorem startFleet_all_or_nothing {i : Instance LocalEngine π σ} {f : Failure}
    (fresh : s.Fresh owner i) (failed : (s.startFleet owner).2 = .error (.failure f)) :
    let s' := (s.startFleet owner).1
    ∃ i', s'.state.instances[owner]? = some i' ∧
      i'.core.engine.closed = false ∧ i'.core.engine.entries = ∅ ∧ i'.core.limiters = ∅ ∧
      i'.core.uids = ∅ ∧
      (∃ k s₁ s₂ f₀, k < i.fleet.nodes.length ∧
        s.startNodes owner [] (List.range k) = (s₁, .ok ()) ∧
        s₁.startNode owner k = (s₂, .error (.failure f₀)) ∧
        f = f₀.during (.startingNode (s₁.nodeTag owner k)) ∧
        (s'.Calm owner ↔ s₂.Calm owner) ∧
        ∀ node ∈ i.fleet.nodes.take k, i'.core.traffic.find? node.session.tag = none) ∧
      (s'.Calm owner → ∀ limits : List Instant,
        let later : Agenda χ LocalEngine π σ := limits.foldl (·.advanceTo World.actions ·) s'
        (later.state.instances[owner]?).map (·.core) = some i'.core ∧
          ∀ j n d, s'.key? j = some (.node owner n d) →
            (later.task? j).map (·.begun) = (s'.task? j).map (·.begun)) := by
  intro s'
  have hstart : s.startNodes owner [] (List.range i.fleet.nodes.length) =
      (s', .error (.failure f)) := by
    rw [← fresh.startFleet_eq]
    exact Prod.ext rfl failed
  obtain ⟨done, k, later, s₁, s₂, f₀, hnumbers, hdone, hnode, hf, hs'⟩ :=
    startNodes_failure hstart
  obtain ⟨rfl, hk⟩ := range_eq_append_cons hnumbers
  obtain ⟨posts, hfaces, hall⟩ := fresh.underway.startNodes_ok
    (fun n hn => by rw [List.length_map]; exact Nat.lt_trans (List.mem_range.1 hn) hk) hdone
  have hlength : posts.length = i.fleet.nodes.length := by
    have h := congrArg List.length hfaces
    simpa using h
  have hpost : posts[k]? = some posts[k] := List.getElem?_eq_getElem (hlength ▸ hk)
  have hclosing := (hall.startNode_failed hpost hnode).closing
  rw [List.append_nil, crew_congr hfaces] at hclosing
  obtain ⟨posts', hclosed⟩ := hclosing.closeNodes (List.nodup_reverse.2 List.nodup_range)
    fun n hn => by
      rw [List.mem_reverse, List.mem_range] at hn
      exact hlength ▸ Nat.lt_trans hn hk
  rw [List.append_nil] at hs'
  rw [← hs'] at hclosed
  obtain ⟨i', hi', -, hwithin⟩ := id hclosed.state
  obtain ⟨hentries, hlimiters, huids, htraffic⟩ := hwithin.empty
  refine ⟨i', hi', hwithin.isOpen, hentries, hlimiters, huids,
    ⟨k, s₁, s₂, f₀, hk, hdone, hnode, hf, ?_, fun node hmem => htraffic _ (tag_mem_crew hmem)⟩,
    fun calm limits => hclosed.later hi' calm limits⟩
  rw [hs']
  exact s₂.calm_closeNodes owner _

section PortTaken

def onePort : ServerData :=
  { endpoints := some
      [{ kindName := "shadowsocks", port := 1, enable := true, cipher := "aes-128-gcm" },
        { kindName := "vmess", port := 1, enable := true, transport := "tcp" }] }

theorem nothing_left_at_taken_port :
    let s : Agenda Offline LocalEngine ScriptedPanel ServerClient :=
      ofFleet { outside := {} } (.serving [⟨7, "alice", 0, 0⟩] onePort)
    let s' := (s.startFleet 0).1
    ∃ i, s'.state.instances[0]? = some i ∧ i.core.engine.entries = ∅ ∧ i.core.limiters = ∅ ∧
      i.core.uids = ∅ ∧ ∀ limits : List Instant,
        let later : Agenda Offline LocalEngine ScriptedPanel ServerClient :=
          limits.foldl (·.advanceTo World.actions ·) s'
        (later.state.instances[0]?).map (·.core) = some i.core ∧
          (later.task? 0).map (·.begun) = (s'.task? 0).map (·.begun) := by
  intro s s'
  have hfailed : (s.startFleet 0).2 = .error (.failure
      ⟨[.startingNode "[http://p]-vmess:1", .registeringListener "[http://p]-vmess:1"],
        .engine (.portInUse 1 "[http://p]-shadowsocks:1")⟩) := by decide +kernel
  obtain ⟨i, hi, -, hentries, hlimiters, huids, -, hlater⟩ :=
    startFleet_all_or_nothing (s := s) (fresh_ofFleet ..) hfailed
  have hcalm : s'.Calm 0 := by decide +kernel
  refine ⟨i, hi, hentries, hlimiters, huids, fun limits => ?_⟩
  obtain ⟨hcore, hbegun⟩ := hlater hcalm limits
  exact ⟨hcore, hbegun 0 0 .sync (by decide +kernel)⟩

end PortTaken

end Agenda

end NodeAgent
