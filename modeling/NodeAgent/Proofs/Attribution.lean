import NodeAgent.Proofs.Operations

/-!
The ids of the users. The engine's users and the table of ids are changed one after the other, also
by operations that fail in between; whoever the engine serves has his id in the table nevertheless.
-/

namespace NodeAgent

def Registered (uids : Table String Int) (node : String) (users : Table String Binding) : Prop :=
  ∀ u b, users.find? u = some b →
    Core.isUserOf node u = true ∧ b.userTag = u ∧ uids.find? u = some b.uid

namespace Registered

variable {uids uids' : Table String Int} {node : String} {users : Table String Binding}

theorem empty (uids : Table String Int) (node : String) : Registered uids node ∅ :=
  fun _ _ hfind => nomatch hfind

theorem insert (h : Registered uids node users) {b : Binding}
    (hb : Core.isUserOf node b.userTag = true) :
    Registered (uids.insert b.userTag b.uid) node (users.insert b.userTag b) := by
  intro u b' hfind
  by_cases hu : u = b.userTag
  · rw [hu, Table.find?_insert_self] at hfind
    cases hfind
    rw [hu, Table.find?_insert_self]
    exact ⟨hb, rfl, rfl⟩
  · rw [Table.find?_insert_of_ne _ _ hu] at hfind ⊢
    exact h u b' hfind

/-- Of several bindings of one user the last one counts, here and there. -/
theorem insertMany (h : Registered uids node users) {bs : List Binding}
    (hbs : ∀ b ∈ bs, Core.isUserOf node b.userTag = true) :
    Registered (uids.insertMany (bs.map fun b => (b.userTag, b.uid))) node
      (users.insertMany (bs.map fun b => (b.userTag, b))) := by
  induction bs generalizing uids users with
  | nil => exact h
  | cons b bs ih =>
    exact ih (h.insert (hbs b (List.mem_cons_self ..)))
      fun b' hb' => hbs b' (List.mem_cons_of_mem _ hb')

theorem eraseMany (h : Registered uids node users) (gone : List String) :
    Registered (uids.eraseMany gone) node (users.eraseMany gone) := by
  intro u b hfind
  rw [Table.find?_eraseMany] at hfind ⊢
  split at hfind
  · cases hfind
  next hstays =>
    rw [if_neg hstays]
    exact h u b hfind

theorem of_uids (h : Registered uids node users)
    (huids : ∀ u, Core.isUserOf node u = true → uids'.find? u = uids.find? u) :
    Registered uids' node users := by
  intro u b hfind
  obtain ⟨hof, htag, huid⟩ := h u b hfind
  exact ⟨hof, htag, (huids u hof).trans huid⟩

end Registered

namespace Core

variable {c c' : Core LocalEngine} {tag : String}

section OwnNode

variable (h : Registered c.uids tag (c.engine.usersOf tag))
include h

theorem addNode_registered (info : NodeInfo) :
    Registered (c.addNode tag info).1.uids tag ((c.addNode tag info).1.engine.usersOf tag) := by
  rcases hadd : c.addNode tag info with ⟨c', f | u⟩
  · rw [addNode_error hadd]
    exact h
  · unfold addNode at hadd
    split at hadd
    · cases (Prod.mk.inj hadd).2
    · obtain ⟨hact, hc'⟩ := callEngine_ok hadd
      have husers := (LocalEngine.addListener_ok hact).1 tag
      rw [hc', husers]
      exact h

theorem addUsers_registered (hopen : c.engine.closed = false) (info : NodeInfo)
    (users : List User) :
    Registered (c.addUsers tag info users).1.uids tag
      ((c.addUsers tag info users).1.engine.usersOf tag) := by
  unfold addUsers
  split
  · exact h
  next bindings hbindings =>
    have hown : ∀ b ∈ bindings, isUserOf tag b.userTag = true := by
      intro b hb
      obtain ⟨u, -, hu⟩ := exists_of_mem_mapM_ok hbindings hb
      rw [(Binding.ofUser_ok hu).1]
      exact isUserOf_userTag ..
    change Registered (c.uids.insertMany _) tag ((c.engine.addUsers tag bindings).1.usersOf tag)
    by_cases hserves : c.engine.Serves tag
    · have hok := LocalEngine.addUsers_of_serves hserves bindings
      obtain ⟨husers, -⟩ := LocalEngine.addUsers_ok (Prod.ext rfl hok)
      rw [husers]
      exact h.insertMany hown
    · -- the ids come in alone, to a node that has nobody
      rw [LocalEngine.addUsers_of_not_serves hserves,
        LocalEngine.usersOf_of_not_serves hopen hserves]
      exact .empty _ _

theorem delNode_registered :
    Registered (c.delNode tag).1.uids tag ((c.delNode tag).1.engine.usersOf tag) := by
  rcases c.delNode_ends tag with ⟨hengine, huids, -⟩ | ⟨hnobody, -⟩
  · rw [hengine, huids]
    exact h
  · rw [hnobody]
    exact .empty _ _

theorem delUsers_registered (users : List User) :
    Registered (c.delUsers tag users).1.uids tag
      ((c.delUsers tag users).1.engine.usersOf tag) := by
  rcases c.delUsers_ends tag users with ⟨hengine, huids, -⟩ | ⟨hengine, huids, -⟩
  · rw [hengine, huids]
    exact h
  · rw [hengine, huids]
    exact h.eraseMany _

theorem perform_registered (hopen : c.engine.closed = false) (op : Operation) (hop : op.tag = tag) :
    Registered (c.perform op).uids tag ((c.perform op).engine.usersOf tag) := by
  subst hop
  cases op with
  | addNode tag info => exact addNode_registered h info
  | delNode tag => exact delNode_registered h
  | addUsers tag info users => exact addUsers_registered h hopen info users
  | delUsers tag users => exact delUsers_registered h users
  | account tag user upload download => exact h
  | trafficSlice tag threshold =>
    rw [perform, trafficSlice_frame]
    exact h

end OwnNode

structure Attributed (c : Core LocalEngine) (host : String) : Prop where
  isOpen : c.engine.closed = false
  registered : ∀ k i, Registered c.uids (nodeTag host k i) (c.engine.usersOf (nodeTag host k i))
  nobodyElse : ∀ t, (∀ k i, t ≠ nodeTag host k i) → c.engine.usersOf t = ∅

namespace Attributed

variable {host : String}

theorem perform (h : c.Attributed host) {op : Operation} {k : Kind} {i : Int}
    (hop : op.tag = nodeTag host k i) : (c.perform op).Attributed host where
  isOpen := (c.perform_closed op).trans h.isOpen
  registered := by
    intro k' i'
    by_cases hown : op.tag = nodeTag host k' i'
    · exact perform_registered (h.registered k' i') h.isOpen op hown
    · have hforeign : Foreign (nodeTag host k' i') op.tag := by
        rw [hop] at hown ⊢
        exact foreign_nodeTag (Ne.symm hown)
      have halone := c.perform_leavesAlone op hforeign
      rw [LocalEngine.usersOf, halone.entry]
      exact (h.registered k' i').of_uids halone.uids
  nobodyElse := by
    intro t ht
    rw [LocalEngine.usersOf, c.perform_elsewhere op (hop ▸ ht k i)]
    exact h.nobodyElse t ht

theorem run (h : c.Attributed host) {ops : List Operation}
    (hops : ∀ op ∈ ops, ∃ k i, op.tag = nodeTag host k i) : (c.run ops).Attributed host := by
  induction ops generalizing c with
  | nil => exact h
  | cons op ops ih =>
    obtain ⟨k, i, hop⟩ := hops op (List.mem_cons_self ..)
    exact ih (h.perform hop) fun op' hop' => hops op' (List.mem_cons_of_mem _ hop')

theorem uid_of_binding (h : c.Attributed host) {u : String} {b : Binding}
    (hb : (c.engine.usersOf tag).find? u = some b) :
    b.userTag = u ∧ c.uids.find? b.userTag = some b.uid := by
  by_cases htag : ∃ k i, tag = nodeTag host k i
  · obtain ⟨k, i, rfl⟩ := htag
    obtain ⟨-, howner, huid⟩ := h.registered k i u b hb
    exact ⟨howner, howner ▸ huid⟩
  · rw [h.nobodyElse tag fun k i hki => htag ⟨k, i, hki⟩] at hb
    cases hb

end Attributed

/--
Whatever was done to the nodes of one host, be it with success or not: the table of ids gives every
binding of the engine the id that the binding itself has, and a report names each user whom the
engine serves, be it at the reporting node or at another one, by the id he has there.
-/
theorem reported_ids (c₀ : Core LocalEngine) (host : String) (ops : List Operation)
    (hops : ∀ op ∈ ops, ∃ k i, op.tag = nodeTag host k i) :
    let c := run { c₀ with engine := {} } ops
    (∀ tag u b, (c.engine.usersOf tag).find? u = some b →
      b.userTag = u ∧ c.uids.find? b.userTag = some b.uid) ∧
    ∀ node threshold c' l, c.trafficSlice node threshold = (c', .ok l) →
      l = (c.toReport node threshold).map Prod.snd ∧
      ∀ u t, (u, t) ∈ c.toReport node threshold →
        (∀ w, t.bytes w = ((c.traffic.counter node).tally u).bytes w) ∧
        ∀ tag b, (c.engine.usersOf tag).find? u = some b → t.uid = b.uid := by
  intro c
  have hfresh : Attributed { c₀ with engine := {} } host :=
    ⟨rfl, fun k i => .empty _ _, fun _ _ => rfl⟩
  have hc : c.Attributed host := hfresh.run hops
  refine ⟨fun tag u b => hc.uid_of_binding, fun node threshold c' l hslice => ?_⟩
  refine ⟨(trafficSlice_ok hslice).1, fun u t ht => ?_⟩
  obtain ⟨huid, hbytes⟩ := mem_toReport ht
  refine ⟨hbytes, fun tag b hb => ?_⟩
  obtain ⟨howner, hknown⟩ := hc.uid_of_binding hb
  rw [howner, huid] at hknown
  exact Option.some.inj hknown

section Reassigned

def reassigned : List Operation :=
  let node := nodeTag "http://p" .hysteria2 1
  let info : NodeInfo := { id := 1, kind := .hysteria2, endpoint := { port := 1 } }
  [.addUsers node info [⟨7, "alice", 0, 0⟩], .addNode node info,
    .addUsers node info [⟨1, "alice", 0, 0⟩, ⟨2, "alice", 0, 0⟩],
    .account node (userTag node "alice") 5000 0, .delNode (nodeTag "http://p" .hysteria2 11),
    .addUsers node info [⟨3, "alice", 0, 0⟩]]

theorem reassigned_reported :
    let node := nodeTag "http://p" .hysteria2 1
    let c := run { engine := {} } reassigned
    (∀ op ∈ reassigned, ∃ k i, op.tag = nodeTag "http://p" k i) ∧
      (c.trafficSlice node 1).2 = .ok [⟨3, 5000, 0⟩] ∧
      ∃ b, (c.engine.usersOf node).find? (userTag node "alice") = some b ∧ b.uid = 3 ∧
        c.uids.find? b.userTag = some b.uid ∧
        ∀ t, (userTag node "alice", t) ∈ c.toReport node 1 → t.uid = b.uid := by
  intro node c
  have hops : ∀ op ∈ reassigned, ∃ k i, op.tag = nodeTag "http://p" k i := by
    intro op hop
    simp only [reassigned, List.mem_cons, List.not_mem_nil, or_false] at hop
    rcases hop with rfl | rfl | rfl | rfl | rfl | rfl <;> exact ⟨_, _, rfl⟩
  have hslice : (c.trafficSlice node 1).2 = .ok [⟨3, 5000, 0⟩] := by decide +kernel
  have hserved : ((c.engine.usersOf node).find? (userTag node "alice")).map (·.uid) = some 3 := by
    decide +kernel
  obtain ⟨b, hb, huid⟩ := Option.map_eq_some_iff.1 hserved
  obtain ⟨hbindings, hslices⟩ := reported_ids { engine := {} } "http://p" reassigned hops
  obtain ⟨-, hentries⟩ := hslices node 1 _ _ (Prod.ext rfl hslice)
  exact ⟨hops, hslice, b, hb, huid, (hbindings node _ b hb).2,
    fun t ht => (hentries _ t ht).2 node b hb⟩

end Reassigned

end Core

end NodeAgent
