import Std.Data.String.ToInt
import NodeAgent.Proofs.Neighbours

/-!
Nodes of one host do not mix. Kind and id can be read off the tag of a node, off the tags of its users
and off the paths of its certificate files; so taking a node out takes nothing of another one.
-/

namespace NodeAgent

section Tags

variable {host u u' : String} {k k' : Kind} {i i' : Int}

theorem nodeTag_eq_iff : nodeTag host k i = nodeTag host k' i' ↔ k = k' ∧ i = i' := by
  constructor
  · intro h
    have hlist := congrArg String.toList h
    simp only [nodeTag, String.toList_append, List.append_assoc, List.append_cancel_left_eq] at hlist
    have hprefix : k.name.toList ++ ':' :: (toString i).toList <+:
        k'.name.toList ++ ':' :: (toString i').toList := ⟨[], (List.append_nil _).trans hlist⟩
    obtain ⟨hname, -⟩ := eq_of_prefix_mark k.colon_notMem_name k'.colon_notMem_name hprefix
    obtain rfl := Kind.eq_of_name_eq (String.toList_inj.1 hname)
    rw [nodeTag, nodeTag, String.append_right_inj] at h
    exact ⟨rfl, Int.repr_inj.1 h⟩
  · rintro ⟨rfl, rfl⟩
    rfl

theorem isUserOf_nodeTag_iff :
    Core.isUserOf (nodeTag host k i) (userTag (nodeTag host k' i') u) = true ↔ k = k' ∧ i = i' := by
  refine ⟨fun h => nodeTag_eq_iff.1 (nodeTag_eq_of_isUserOf h), ?_⟩
  rintro ⟨rfl, rfl⟩
  exact isUserOf_userTag ..

theorem userTag_eq_iff :
    userTag (nodeTag host k i) u = userTag (nodeTag host k' i') u' ↔ k = k' ∧ i = i' ∧ u = u' := by
  constructor
  · intro h
    have huser := isUserOf_userTag (nodeTag host k i) u
    rw [h] at huser
    obtain ⟨rfl, rfl⟩ := isUserOf_nodeTag_iff.1 huser
    exact ⟨rfl, rfl, userTag_inj.1 h⟩
  · rintro ⟨rfl, rfl, rfl⟩
    rfl

end Tags

section Files

def CertPaths.files (p : CertPaths) : List String := [p.cert, p.key]

theorem joinPath_inj {dir a b : String} (ha : a.toList.head? ≠ some '/')
    (hb : b.toList.head? ≠ some '/') : joinPath dir a = joinPath dir b ↔ a = b := by
  by_cases hdir : dir = ""
  · simp [joinPath, hdir]
  · by_cases hslash : dir.toList.getLast? = some '/'
    · simp [joinPath, hdir, ha, hb, hslash, String.append_right_inj]
    · simp [joinPath, hdir, ha, hb, hslash, String.append_right_inj]

namespace Kind

variable {k k' : Kind}

theorem eq_of_name_start (h : k.name.toList <+: k'.name.toList) : k = k' := by
  revert h
  cases k <;> cases k' <;> decide

/-- A name may end in a digit, but none goes on where another one ends. -/
theorem name_append_inj {x y : String} : k.name ++ x = k'.name ++ y ↔ k = k' ∧ x = y := by
  constructor
  · intro h
    have hlist := congrArg String.toList h
    rw [String.toList_append, String.toList_append] at hlist
    have hk : k = k' := by
      rcases List.prefix_or_prefix_of_prefix ⟨_, hlist⟩ (List.prefix_append ..) with hle | hge
      · exact eq_of_name_start hle
      · exact (eq_of_name_start hge).symm
    subst hk
    exact ⟨rfl, (String.append_right_inj _).1 h⟩
  · rintro ⟨rfl, rfl⟩
    rfl

theorem head?_name_append (k : Kind) (x : String) : (k.name ++ x).toList.head? ≠ some '/' := by
  rw [String.toList_append]
  cases k <;> simp [name]

end Kind

variable {dir ending ending' : String} {k k' : Kind} {i i' : Int}

theorem eq_of_nodeFile_eq
    (h : joinPath dir (k.name ++ toString i ++ ending) =
      joinPath dir (k'.name ++ toString i' ++ ending'))
    (hlength : ending.toList.length = ending'.toList.length) : k = k' ∧ i = i' := by
  rw [String.append_assoc, String.append_assoc,
    joinPath_inj (k.head?_name_append _) (k'.head?_name_append _), Kind.name_append_inj] at h
  have hlist := congrArg String.toList h.2
  rw [String.toList_append, String.toList_append] at hlist
  obtain ⟨hid, -⟩ := List.append_inj' hlist hlength
  exact ⟨h.1, Int.repr_inj.1 (String.toList_inj.1 hid)⟩

theorem shares_file_iff :
    (∃ f ∈ (certPaths dir k i).files, f ∈ (certPaths dir k' i').files) ↔ k = k' ∧ i = i' := by
  constructor
  · rintro ⟨f, hf, hf'⟩
    simp only [certPaths, CertPaths.files, List.mem_cons, List.not_mem_nil, or_false] at hf hf'
    rcases hf with rfl | rfl <;> rcases hf' with h | h <;>
      exact eq_of_nodeFile_eq h (by decide +kernel)
  · rintro ⟨rfl, rfl⟩
    exact ⟨_, List.mem_cons_self .., List.mem_cons_self ..⟩

end Files

namespace Core

theorem delNode_ok {c c' : Core LocalEngine} {tag : String} (h : c.delNode tag = (c', .ok ())) :
    Removed c c' tag := by
  cases hopen : c.engine.closed with
  | true =>
    have hrefused : (c.engine.removeListener tag).2 = .error .closed := by
      rw [LocalEngine.removeListener, if_pos hopen]
    unfold delNode at h
    split at h
    · cases (Prod.mk.inj h).2
    next hcall =>
      obtain ⟨hact, -⟩ := callEngine_ok hcall
      rw [show c.engine.removeListener tag = _ from hact] at hrefused
      cases hrefused
  | false =>
    obtain ⟨c₁, hdel, hremoved⟩ := c.delNode_of_open tag hopen
    obtain ⟨rfl, -⟩ := Prod.mk.inj (hdel.symm.trans h)
    exact hremoved

theorem Removed.nothing_left {c c' : Core LocalEngine} {tag : String} (h : Removed c c' tag) :
    c'.engine.entries.find? tag = none ∧ c'.traffic.find? tag = none ∧
      ∀ t, isUserOf tag t = true → c'.uids.find? t = none := by
  have hlistener := h.listener tag
  rw [if_pos rfl, LocalEngine.listener?, Option.map_eq_none_iff] at hlistener
  refine ⟨hlistener, ?_, fun t ht => ?_⟩
  · rw [h.traffic, Table.find?_erase, if_pos rfl]
  · rw [Table.find?_eq_none_iff, h.uids, ht]
    simp

end Core

/--
Two users of one host have one tag, a node counts a user as its own, and two nodes have a certificate
file in common, only where kind and id are the same. When a node is taken out, whatever there was of it
is gone, and whatever there is of the other nodes of the host stays.
-/
theorem nodes_apart (host dir : String) (k k' : Kind) (i i' : Int) :
    (∀ u u', userTag (nodeTag host k i) u = userTag (nodeTag host k' i') u' ↔
      k = k' ∧ i = i' ∧ u = u') ∧
    (∀ u, (userTag (nodeTag host k i) "").toList <+: (userTag (nodeTag host k' i') u).toList ↔
      k = k' ∧ i = i') ∧
    ((∃ f ∈ (certPaths dir k i).files, f ∈ (certPaths dir k' i').files) ↔ k = k' ∧ i = i') ∧
    ∀ c c' : Core LocalEngine, c.delNode (nodeTag host k i) = (c', .ok ()) →
      (c'.engine.entries.find? (nodeTag host k i) = none ∧
        c'.traffic.find? (nodeTag host k i) = none ∧
        ∀ u, c'.uids.find? (userTag (nodeTag host k i) u) = none) ∧
      (¬(k = k' ∧ i = i') →
        c'.engine.listener? (nodeTag host k' i') = c.engine.listener? (nodeTag host k' i') ∧
        c'.engine.usersOf (nodeTag host k' i') = c.engine.usersOf (nodeTag host k' i') ∧
        c'.traffic.find? (nodeTag host k' i') = c.traffic.find? (nodeTag host k' i') ∧
        ∀ u, c'.uids.find? (userTag (nodeTag host k' i') u) =
          c.uids.find? (userTag (nodeTag host k' i') u)) := by
  refine ⟨fun _ _ => userTag_eq_iff, fun u => ?_, shares_file_iff, fun c c' hdel => ⟨?_, ?_⟩⟩
  · have hcounts : Core.isUserOf (nodeTag host k i) (userTag (nodeTag host k' i') u) = true ↔
        k = k' ∧ i = i' := isUserOf_nodeTag_iff
    rwa [Core.isUserOf, List.isPrefixOf_iff_prefix] at hcounts
  · obtain ⟨hentry, hcounter, huids⟩ := (Core.delNode_ok hdel).nothing_left
    exact ⟨hentry, hcounter, fun u => huids _ (isUserOf_userTag ..)⟩
  · intro hne
    have hforeign : Foreign (nodeTag host k' i') (nodeTag host k i) :=
      foreign_nodeTag fun h => hne ((nodeTag_eq_iff.1 h).imp Eq.symm Eq.symm)
    have halone := Core.delNode_leavesAlone (c := c) hforeign
    rw [hdel] at halone
    refine ⟨?_, ?_, halone.counter, fun u => halone.uids _ (isUserOf_userTag ..)⟩
    · rw [LocalEngine.listener?, LocalEngine.listener?, halone.entry]
    · rw [LocalEngine.usersOf, LocalEngine.usersOf, halone.entry]

section Eleven

/-- The tag of the first node is the start of the tag of the second one. -/
def oneAndEleven : Core LocalEngine :=
  let c : Core LocalEngine := { engine := {} }
  let add (c : Core LocalEngine) (id : Int) (port : UInt16) :=
    let info : NodeInfo := { id, kind := .hysteria2, endpoint := { port } }
    let tag := nodeTag "http://p" .hysteria2 id
    let c := ((c.addNode tag info).1.addUsers tag info [⟨id, "alice|1", 0, 0⟩]).1
    c.account tag (userTag tag "alice|1") 5 5
  add (add c 1 1) 11 2

theorem eleven_outlives_one :
    let one := nodeTag "http://p" .hysteria2 1
    let eleven := nodeTag "http://p" .hysteria2 11
    let c := (oneAndEleven.delNode one).1
    c.uids.find? (userTag one "alice|1") = none ∧
      c.uids.find? (userTag eleven "alice|1") = some 11 ∧
      (c.traffic.find? eleven).map Table.size = some 1 ∧
      (c.engine.usersOf eleven).keys = [userTag eleven "alice|1"] := by
  intro one eleven c
  have hok : (oneAndEleven.delNode one).2 = .ok () := by decide +kernel
  have hthere : oneAndEleven.uids.find? (userTag eleven "alice|1") = some 11 ∧
      (oneAndEleven.traffic.find? eleven).map Table.size = some 1 ∧
      (oneAndEleven.engine.usersOf eleven).keys = [userTag eleven "alice|1"] := by decide +kernel
  have hdel : oneAndEleven.delNode one = (c, .ok ()) := Prod.ext rfl hok
  obtain ⟨-, -, -, hdeleted⟩ := nodes_apart "http://p" "" .hysteria2 .hysteria2 1 11
  obtain ⟨⟨-, -, hgone⟩, hkept⟩ := hdeleted oneAndEleven c hdel
  obtain ⟨-, husers, htraffic, huids⟩ := hkept (by decide)
  rw [← huids, ← htraffic, ← husers] at hthere
  exact ⟨hgone _, hthere⟩

end Eleven

end NodeAgent
