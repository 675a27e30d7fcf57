import NodeAgent.Agenda
import NodeAgent.Proofs.Posts
import NodeAgent.Scripted.Panel

/-!
Starting the nodes of an instance, one after the other, while the tasks of those that were started go
on. The crew are the nodes that were started, the last one first; the core houses them, and a node of
the tag of an earlier one takes its listener over.
-/

namespace NodeAgent

def Post.face (p : Post) : String × NodeInfo := (p.tag, p.info)

def crew (posts : List Post) (numbers : List Nat) : List (String × NodeInfo) :=
  numbers.filterMap fun n => (posts.map Post.face)[n]?

section Crew

variable {posts posts' : List Post} {post post' : Post} {n : Nat} {numbers : List Nat}

theorem crew_congr (h : posts.map Post.face = posts'.map Post.face) (numbers : List Nat) :
    crew posts numbers = crew posts' numbers := by rw [crew, crew, h]

theorem crew_cons (hpost : posts[n]? = some post) (numbers : List Nat) :
    crew posts (n :: numbers) = post.face :: crew posts numbers :=
  List.filterMap_cons_some (by rw [List.getElem?_map, hpost]; rfl)

theorem mem_crew (hn : n ∈ numbers) (hpost : posts[n]? = some post) :
    post.face ∈ crew posts numbers :=
  List.mem_filterMap.2 ⟨n, hn, by rw [List.getElem?_map, hpost]; rfl⟩

theorem faces_set (hpost : posts[n]? = some post) (hface : post'.face = post.face) :
    (posts.set n post').map Post.face = posts.map Post.face := by
  obtain ⟨hlt, hget⟩ := List.getElem?_eq_some_iff.1 hpost
  have hlt' : n < (posts.map Post.face).length := by rwa [List.length_map]
  have hsame : (posts.map Post.face)[n] = post'.face := by rw [List.getElem_map, hget, hface]
  rw [List.map_set, ← hsame, List.set_getElem_self hlt']

theorem filterMap_range {α : Type} (l : List α) :
    (List.range l.length).filterMap (fun n => l[n]?) = l := by
  induction l with
  | nil => rfl
  | cons a l ih =>
    rw [List.length_cons, List.range_succ_eq_map,
      List.filterMap_cons_some (f := fun n => (a :: l)[n]?) (b := a) rfl, List.filterMap_map]
    exact congrArg (a :: ·) ih

theorem tag_mem_crew {π : Type} {nodes : List (Node π)} {node : Node π} {k : Nat}
    (h : node ∈ nodes.take k) :
    node.session.tag ∈ (crew (nodes.map Node.post) (List.range k).reverse).map Prod.fst := by
  obtain ⟨m, hm, rfl⟩ := List.mem_take_iff_getElem.1 h
  obtain ⟨hmk, hlt⟩ := Nat.lt_min.1 hm
  have hpost : (nodes.map Node.post)[m]? = some nodes[m].post := by
    rw [List.getElem?_map, List.getElem?_eq_getElem hlt]
    rfl
  have hface := mem_crew (List.mem_reverse.2 (List.mem_range.2 hmk)) hpost
  exact List.mem_map.2 ⟨_, hface, rfl⟩

theorem crew_all (posts : List Post) :
    crew posts (List.range posts.length).reverse = (posts.map Post.face).reverse := by
  have hall := filterMap_range (posts.map Post.face)
  rw [List.length_map] at hall
  rw [crew, List.filterMap_reverse, hall]

end Crew

/--
The engine is open and has the listener of the latest node of each tag of the crew, and no other. Only
the crew have limiters, and users with ids.
-/
structure Core.Houses (c : Core LocalEngine) (crew : List (String × NodeInfo)) : Prop where
  isOpen : c.engine.closed = false
  listener : ∀ t, (c.engine.listener? t).map (fun l => (l.kind, l.port)) =
    (crew.find? (·.1 = t)).map fun f => (f.2.kind, f.2.endpoint.port)
  limiters : ∀ t ∈ c.limiters.keys, t ∈ crew.map Prod.fst
  uids : ∀ u ∈ c.uids.keys, ∃ t ∈ crew.map Prod.fst, Core.isUserOf t u = true

namespace Core.Houses

variable {c c' : Core LocalEngine} {crew : List (String × NodeInfo)} {tag : String}
  {info : NodeInfo}

theorem with_clock (h : c.Houses crew) (now : Instant) (journal : List JournalEntry) :
    Houses { c with now, journal } crew := { h with }

theorem mem_keys_iff (h : c.Houses crew) (t : String) :
    t ∈ c.engine.entries.keys ↔ t ∈ crew.map Prod.fst := by
  have hsome := congrArg Option.isSome (h.listener t)
  rw [Option.isSome_map, Option.isSome_map] at hsome
  rw [← LocalEngine.listener?_isSome_iff, hsome, List.find?_isSome, List.mem_map]
  simp

theorem tended (h : c.Houses crew) (htag : tag ∈ crew.map Prod.fst) (ht : c.Tended c' tag) :
    c'.Houses crew where
  isOpen := ht.engine.closed.trans h.isOpen
  listener := fun t => by rw [ht.engine.listener, h.listener]
  limiters := fun t hmem => h.limiters t ((ht.limiters t).1 hmem)
  uids := fun u hu => (ht.uids u hu).elim (h.uids u) fun hof => ⟨tag, htag, hof⟩

theorem enrolled (h : c.Houses crew) (he : c.Enrolled c' tag info) :
    c'.Houses ((tag, info) :: crew) where
  isOpen := he.isOpen
  listener := by
    intro t
    by_cases ht : t = tag
    · obtain ⟨l, hl, hkind, hport⟩ := he.listener
      simp [ht, hl, hkind, hport]
    · have hne : ¬tag = t := Ne.symm ht
      simp only [he.elsewhere t ht, h.listener, List.find?_cons, hne, decide_false]
  limiters := by
    intro t hmem
    rw [List.map_cons, List.mem_cons]
    exact (he.limiters t hmem).symm.imp_right (h.limiters t)
  uids := by
    intro u hu
    rcases he.uids u hu with hold | hnew
    · obtain ⟨t, ht, hof⟩ := h.uids u hold
      exact ⟨t, List.mem_cons_of_mem _ ht, hof⟩
    · exact ⟨tag, List.mem_cons_self .., hnew⟩

end Core.Houses

namespace Agenda

variable {χ π σ : Type}

/--
The nodes are at their posts, the tasks of those that were `started` go on, and `Q` holds of the core.
No other task of a node may begin a run, and every task of a node stands in the node's post.
-/
structure Underway (s : Agenda χ LocalEngine π σ) (owner : Nat) (posts : List Post)
    (started : List Nat) (Q : Core LocalEngine → Prop) : Prop where
  keeps : s.Keeps (Job.isActive owner started) (Job.Fits owner) (·.Stands owner posts Q)
    (s.roll (Job.isActive owner started))
  manned : ∀ j n d, s.key? j = some (.node owner n d) → ∃ post, posts[n]? = some post ∧
    j ∈ post.tasks

namespace Underway

variable {s : Agenda χ LocalEngine π σ} {owner n : Nat} {posts : List Post} {post : Post}
  {started : List Nat} {Q Q' : Core LocalEngine → Prop}

theorem mono (h : s.Underway owner posts started Q) (hQ : ∀ c, Q c → Q' c) :
    s.Underway owner posts started Q' where
  keeps := ⟨h.keeps.state.mono hQ, h.keeps.waiting, h.keeps.closed, rfl⟩
  manned := h.manned

theorem visit {α : Type} (h : s.Underway owner posts started Q) (hpost : posts[n]? = some post)
    (default : α) (f : Place χ LocalEngine π → Place χ LocalEngine π × α) (post' : Post)
    (htasks : ∀ j ∈ post.tasks, j ∈ post'.tasks) (R : Core LocalEngine → α → Prop)
    (hf : ∀ p c, p.number = n → p.node.post = post → Q c → p.core = { c with now := s.now } →
      (f p).1.number = n ∧ (f p).1.node.post = post' ∧ R (f p).1.core (f p).2) :
    (s.visit owner n default f).1.Underway owner (posts.set n post') started
      (R · (s.visit owner n default f).2) where
  keeps := ⟨h.keeps.state.visit hpost post' R hf, h.keeps.waiting, h.keeps.closed, rfl⟩
  manned := by
    intro j m d hkey
    obtain ⟨old, hold, hj⟩ := h.manned j m d hkey
    by_cases hm : n = m
    · subst hm
      obtain rfl : old = post := Option.some.inj (hold.symm.trans hpost)
      obtain ⟨hlt, -⟩ := List.getElem?_eq_some_iff.1 hpost
      exact ⟨post', List.getElem?_set_self hlt, htasks j hj⟩
    · exact ⟨old, (List.getElem?_set_ne hm).trans hold, hj⟩

section Tasks

theorem addStarted (h : s.Underway owner posts started Q) (hn : n ∈ started)
    (hpost : posts[n]? = some post) (hmem : s.tasks.length ∈ post.tasks) (duty : Duty)
    (seconds : Nat) : (s.addStarted (.node owner n duty) seconds).Underway owner posts started Q := by
  have hactive : Job.isActive owner started (.node owner n duty) = true := by
    simp [Job.isActive, hn]
  have hadded := h.keeps.add (.node owner n duty) (seconds * 1000)
  have hkey : (s.add (.node owner n duty) (seconds * 1000)).key? s.tasks.length =
      some (.node owner n duty) := (s.key?_add ..).trans (if_pos rfl)
  have hstarted := hadded.start hkey hactive true
  refine ⟨hstarted.self, fun j m d hkey => ?_⟩
  rw [Agenda.addStarted, Timetable.key?_start, Timetable.key?_add] at hkey
  split at hkey
  next hj =>
    obtain ⟨-, rfl, -⟩ := Job.node.inj (Option.some.inj hkey)
    exact ⟨post, hpost, hj ▸ hmem⟩
  · exact h.manned j m d hkey

theorem addNodeTask {tasks : List Nat}
    (h : s.Underway owner (posts.set n { post with tasks }) started Q) (hn : n ∈ started)
    (hlt : n < posts.length) (hQ : ∀ c now, Q c → Q { c with now }) (duty : Duty) (seconds : Nat) :
    ∃ tasks', (s.addNodeTask owner n duty seconds).Underway owner
      (posts.set n { post with tasks := tasks' }) started Q := by
  have hpost : (posts.set n { post with tasks })[n]? = some { post with tasks } :=
    List.getElem?_set_self hlt
  have hvisit := h.visit hpost ()
    (fun p => ({ p with node := { p.node with tasks := p.node.tasks ++ [s.tasks.length] } }, ()))
    { post with tasks := tasks ++ [s.tasks.length] } (fun j hj => List.mem_append_left _ hj)
    (fun c _ => Q c) fun p c hnumber hp hc hcore => by
      refine ⟨hnumber, ?_, hcore ▸ hQ c s.now hc⟩
      obtain ⟨htag, hinfo, htasks⟩ := Post.mk.inj hp
      rw [Node.post, htag, hinfo, htasks]
  rw [List.set_set] at hvisit
  exact ⟨_, hvisit.addStarted hn (List.getElem?_set_self hlt)
    (List.mem_append_right _ (List.mem_singleton_self _)) duty seconds⟩

theorem addNodeTasks (h : s.Underway owner posts started Q) (hn : n ∈ started)
    (hpost : posts[n]? = some post) (hQ : ∀ c now, Q c → Q { c with now }) :
    ∃ tasks, (s.addNodeTasks owner n).Underway owner (posts.set n { post with tasks }) started Q := by
  obtain ⟨i, node, -, -, -, -, hplace⟩ := h.keeps.state.place? hpost
  obtain ⟨hlt, -⟩ := List.getElem?_eq_some_iff.1 hpost
  have hset : s.Underway owner (posts.set n { post with tasks := post.tasks }) started Q := by
    rw [World.set_post hpost]
    exact h
  rw [Agenda.addNodeTasks, hplace]
  dsimp only
  obtain ⟨tasks₁, hsync⟩ := hset.addNodeTask hn hlt hQ .sync node.session.info.pullInterval
  obtain ⟨tasks₂, hreport⟩ := hsync.addNodeTask hn hlt hQ .report node.session.info.pushInterval
  split
  · exact hreport.addNodeTask hn hlt hQ .renew renewalPeriod
  · exact ⟨tasks₂, hreport⟩

end Tasks

theorem activate (h : s.Underway owner posts started Q) (n : Nat) :
    s.Underway owner posts (n :: started) Q where
  keeps := by
    refine h.keeps.activate fun k hk => ?_
    cases k with
    | monitor o => rfl
    | node o m d =>
      simp only [Job.isActive, Bool.or_eq_true, List.contains_cons] at hk ⊢
      exact hk.imp_right .inr
  manned := h.manned

section Await

variable [Shell χ] [PanelApi π χ] [ServerApi σ χ]

theorem advanceTo (h : s.Underway owner posts started Q)
    (hQ : ∀ tag ∈ (crew posts started).map Prod.fst, ∀ c c', c.Tended c' tag → Q c → Q c')
    (limit : Instant) :
    Agenda.Underway (s.advanceTo World.actions limit) owner posts started Q := by
  have hactions : Actions.Preserves World.actions (Job.isActive owner started) (Job.Fits owner)
      fun w : World χ LocalEngine π σ => w.Stands owner posts Q :=
    World.actions_preserve fun n hn post hpost =>
      hQ post.tag (List.mem_map.2 ⟨post.face, mem_crew hn hpost, rfl⟩)
  have hkept := h.keeps.advanceTo hactions limit
  refine ⟨hkept.self, fun j m d hkey => h.manned j m d ?_⟩
  rwa [Timetable.key?_eq_roll, ← hkept.roll, ← Timetable.key?_eq_roll]

/-- A start waits for each answer, and everything else goes on meanwhile. -/
theorem await (hpost : posts[n]? = some post) (fuel : Nat) {pause : Pause}
    (h : s.Underway owner posts started fun c' => ∃ c : Core LocalEngine, c.Houses (crew posts started) ∧
      Core.Enlisting c post.tag post.info c' pause)
    (first : ∀ d stage a, pause = .wait d stage a → stage.task? = none ∧ stage.rank ≤ fuel) :
    (s.await owner n fuel pause).1.Underway owner posts started fun c' =>
      ∃ c : Core LocalEngine, c.Houses (crew posts started) ∧
        Core.Enlisting c post.tag post.info c' (.finished (s.await owner n fuel pause).2) := by
  -- on the number of answers that are still waited for
  induction fuel generalizing s pause with
  | zero =>
    cases pause with
    | finished r => exact h
    | wait d stage a =>
      have hrank := (first d stage a rfl).2
      exact absurd stage.rank_pos (Nat.not_lt.2 hrank)
  | succ fuel ih =>
    cases pause with
    | finished r => exact h
    | wait d stage a =>
      obtain ⟨htask, hrank⟩ := first d stage a rfl
      have hhoused : s.Underway owner posts started (·.Houses (crew posts started)) :=
        h.mono fun c' ⟨c, hc, henlisting⟩ => by
          cases henlisting with
          | waits _ _ _ same => exact same ▸ hc.with_clock c.now c'.journal
      have hlater := hhoused.advanceTo (fun tag htag c c' ht hc => hc.tended htag ht) (s.now + d)
      have hturn := hlater.visit hpost (.finished (.ok ())) (·.resume stage a) post
        (fun _ hj => hj) (fun c' pause => (∃ c : Core LocalEngine,
          c.Houses (crew posts started) ∧ c.Enlisting post.tag post.info c' pause) ∧
            ∀ d next a, pause = .wait d next a → next.task? = none ∧ next.rank ≤ fuel)
        fun p c hnumber hp hc hcore => by
          obtain ⟨hnumber', hpost', hwait⟩ := p.resume_frame stage a
          obtain ⟨htag, hinfo, -⟩ := Post.mk.inj hp
          have henlisting := p.resume_enlisting a htask
          rw [htag, hinfo, hcore] at henlisting
          refine ⟨hnumber'.trans hnumber, hpost'.trans hp, ⟨_, hc.with_clock _ _, henlisting⟩,
            fun d' next a' hnext => ?_⟩
          obtain ⟨hnexttask, hnextrank⟩ := hwait d' next a' hnext
          exact ⟨hnexttask.trans htask, Nat.le_of_lt_succ (Nat.lt_of_lt_of_le hnextrank hrank)⟩
      rw [World.set_post hpost] at hturn
      obtain ⟨i, -, -, -, hfirst⟩ := id hturn.keeps.state
      exact ih (hturn.mono fun _ hc => hc.1) hfirst

theorem awaited (h : s.Underway owner posts started (·.Houses (crew posts started)))
    (hpost : posts[n]? = some post) {s' : Agenda χ LocalEngine π σ} {r : Except Fault Unit}
    (hr : Agenda.await owner n Timetable.mostWaits
      (s.visit owner n (.finished (.ok ())) (·.pursue (.ask .firstUsers))).1
      (s.visit owner n (.finished (.ok ())) (·.pursue (.ask .firstUsers))).2 = (s', r)) :
    s'.Underway owner posts started fun c' => ∃ c : Core LocalEngine,
      c.Houses (crew posts started) ∧ c.Enlisting post.tag post.info c' (.finished r) := by
  have hturn := h.visit hpost (.finished (.ok ())) (·.pursue (.ask .firstUsers)) post
    (fun _ hj => hj) (fun c' pause => (∃ c : Core LocalEngine,
      c.Houses (crew posts started) ∧ c.Enlisting post.tag post.info c' pause) ∧
        ∀ d next a, pause = .wait d next a →
          next.task? = none ∧ next.rank ≤ Timetable.mostWaits)
    fun p c hnumber hp hc hcore => by
      obtain ⟨hnumber', hpost', hwait⟩ := p.pursue_frame (.ask .firstUsers)
      obtain ⟨htag, hinfo, -⟩ := Post.mk.inj hp
      have henlisting := p.pursue_firstUsers_enlisting
      rw [htag, hinfo, hcore] at henlisting
      refine ⟨hnumber'.trans hnumber, hpost'.trans hp, ⟨_, hc.with_clock _ _, henlisting⟩,
        fun d next a hnext => ?_⟩
      obtain ⟨stage, hstage, htask, hrank⟩ := hwait d next a hnext
      cases hstage
      exact ⟨htask, Nat.le_trans hrank (by decide)⟩
  rw [World.set_post hpost] at hturn
  obtain ⟨i, -, -, -, hfirst⟩ := id hturn.keeps.state
  have hended := await hpost Timetable.mostWaits (hturn.mono fun _ hc => hc.1) hfirst
  rwa [hr] at hended

theorem startNode_ok {s' : Agenda χ LocalEngine π σ}
    (h : s.Underway owner posts started (·.Houses (crew posts started)))
    (hpost : posts[n]? = some post) (hstart : s.startNode owner n = (s', .ok ())) :
    ∃ tasks, s'.Underway owner (posts.set n { post with tasks }) (n :: started)
      (·.Houses (crew (posts.set n { post with tasks }) (n :: started))) := by
  simp only [Agenda.startNode] at hstart
  split at hstart
  · cases (Prod.mk.inj hstart).2
  next s₂ hawait =>
    obtain ⟨rfl, -⟩ := Prod.mk.inj hstart
    have hended := h.awaited hpost hawait
    have hhoused : s₂.Underway owner posts started (·.Houses (crew posts (n :: started))) :=
      hended.mono fun c' ⟨c, hc, henlisting⟩ => by
        cases henlisting with
        | enrolled henrolled => exact crew_cons hpost started ▸ hc.enrolled henrolled
    -- the node is active before it gets its tasks, so that these may begin runs
    obtain ⟨tasks, hcrew⟩ := (hhoused.activate n).addNodeTasks (List.mem_cons_self ..) hpost
      fun c now hc => hc.with_clock now c.journal
    have hfaces : (posts.set n { post with tasks }).map Post.face = posts.map Post.face :=
      faces_set hpost rfl
    refine ⟨tasks, ?_⟩
    rwa [crew_congr hfaces]

theorem startNode_failed {s' : Agenda χ LocalEngine π σ} {f : Failure}
    (h : s.Underway owner posts started (·.Houses (crew posts started)))
    (hpost : posts[n]? = some post) (hstart : s.startNode owner n = (s', .error (.failure f))) :
    s'.Underway owner posts started fun c' =>
      ∃ c : Core LocalEngine, c.Houses (crew posts started) ∧ c.Withdrawn c' := by
  simp only [Agenda.startNode] at hstart
  split at hstart
  next s₂ e hawait =>
    obtain ⟨rfl, he⟩ := Prod.mk.inj hstart
    obtain rfl := Except.error.inj he
    exact (h.awaited hpost hawait).mono fun c' ⟨c, hc, henlisting⟩ => by
      cases henlisting with
      | withdrawn _ hwithdrawn => exact ⟨c, hc, hwithdrawn⟩
  · cases (Prod.mk.inj hstart).2

theorem startNodes_ok {numbers : List Nat} {s' : Agenda χ LocalEngine π σ}
    (h : s.Underway owner posts started (·.Houses (crew posts started)))
    (inside : ∀ n ∈ numbers, n < posts.length)
    (hstart : s.startNodes owner started numbers = (s', .ok ())) :
    ∃ posts', posts'.map Post.face = posts.map Post.face ∧
      s'.Underway owner posts' (numbers.reverse ++ started)
        (·.Houses (crew posts' (numbers.reverse ++ started))) := by
  induction numbers generalizing s posts started with
  | nil =>
    obtain ⟨rfl, -⟩ := Prod.mk.inj hstart
    exact ⟨posts, rfl, h⟩
  | cons n numbers ih =>
    have hlt := inside n (List.mem_cons_self ..)
    have hpost : posts[n]? = some posts[n] := List.getElem?_eq_getElem hlt
    simp only [Agenda.startNodes] at hstart
    split at hstart
    next s₁ hnode =>
      obtain ⟨tasks, hcrew⟩ := h.startNode_ok hpost hnode
      obtain ⟨posts', hfaces, hall⟩ := ih hcrew
        (fun m hm => by rw [List.length_set]; exact inside m (List.mem_cons_of_mem _ hm)) hstart
      refine ⟨posts', hfaces.trans (faces_set hpost rfl), ?_⟩
      rw [List.reverse_cons, List.append_assoc]
      exact hall
    · cases (Prod.mk.inj hstart).2
    · cases (Prod.mk.inj hstart).2

end Await

end Underway

/--
The instance is new: its engine is open and has no listeners, nothing is known about users, and none
of its nodes has a task. The timetable may have other tasks, and these may be in the middle of a run.
-/
structure Fresh (s : Agenda χ LocalEngine π σ) (owner : Nat) (i : Instance LocalEngine π σ) :
    Prop where
  there : s.state.instances[owner]? = some i
  isOpen : i.core.engine.closed = false
  unheard : i.core.engine.entries = ∅
  limiters : i.core.limiters = ∅
  uids : i.core.uids = ∅
  tasks : ∀ j n d, s.key? j ≠ some (.node owner n d)
  waiting : ∀ t ∈ s.timers, ∀ j r, t.alarm = .resume j r → (s.key? j).isSome

theorem Fresh.underway {s : Agenda χ LocalEngine π σ} {owner : Nat} {i : Instance LocalEngine π σ}
    (h : s.Fresh owner i) : s.Underway owner (i.fleet.nodes.map Node.post) []
      (·.Houses (crew (i.fleet.nodes.map Node.post) [])) := by
  refine ⟨⟨⟨i, h.there, rfl, h.isOpen, fun t => ?_, fun t ht => ?_, fun u hu => ?_⟩,
    fun t ht j r halarm => ?_, fun e he hidle => ?_, rfl⟩, fun j n d hkey => ?_⟩
  · rw [LocalEngine.listener?, h.unheard]
    rfl
  · rw [h.limiters] at ht
    cases ht
  · rw [h.uids] at hu
    cases hu
  · obtain ⟨k, hk⟩ := Option.isSome_iff_exists.1 (h.waiting t ht j r halarm)
    refine ⟨k, hk, ?_⟩
    cases k with
    | monitor o => exact ⟨rfl, trivial⟩
    | node o n d =>
      have ho : o ≠ owner := fun ho => h.tasks j n d (ho ▸ hk)
      cases r with
      | stage => exact ⟨by simp [Job.isActive, ho], fun howner => absurd howner ho⟩
      | fetched => exact ⟨by simp [Job.isActive, ho], trivial⟩
  · obtain ⟨j, hj⟩ := List.mem_iff_getElem?.1 he
    have hkey : s.key? j = some e.key := by rw [Timetable.key?, hj]; rfl
    cases hk : e.key with
    | monitor o => simp [hk, Job.isActive] at hidle
    | node o n d =>
      have ho : o ≠ owner := fun ho => h.tasks j n d (ho ▸ hk ▸ hkey)
      simp [hk, Job.isActive, ho] at hidle
  · exact absurd hkey (h.tasks j n d)

theorem Fresh.startFleet_eq [Shell χ] [PanelApi π χ] [ServerApi σ χ] {s : Agenda χ LocalEngine π σ}
    {owner : Nat} {i : Instance LocalEngine π σ} (h : s.Fresh owner i) :
    s.startFleet owner = s.startNodes owner [] (List.range i.fleet.nodes.length) := by
  rw [startFleet, nodeCount, h.there, Option.map_some, Option.getD_some]

def ofFleet (host : Host χ) (fleet : Fleet π) : Agenda χ LocalEngine π σ :=
  { state := { host, instances := [{ core := { engine := {} }, fleet }] } }

theorem fresh_ofFleet (host : Host χ) (fleet : Fleet π) :
    (ofFleet host fleet : Agenda χ LocalEngine π σ).Fresh 0 { core := { engine := {} }, fleet } where
  there := rfl
  isOpen := rfl
  unheard := rfl
  limiters := rfl
  uids := rfl
  tasks := fun _ _ _ h => by cases h
  waiting := fun _ ht => absurd ht List.not_mem_nil

end Agenda

def ScriptedPanel.sending (users : List User) : ScriptedPanel where
  host := "http://p"
  users := [.ok (some users)]

def Fleet.serving (users : List User) (data : ServerData) : Fleet ScriptedPanel where
  nodes := (infos 1 data).map (Node.new (.sending users))
  total := (data.endpoints.getD []).length
  disabled := (data.endpoints.getD []).countP (!·.enable)

end NodeAgent
