import NodeAgent.Core

/-! Tags tell nodes of one host, and users of one node, apart. -/

namespace NodeAgent

theorem userTag_inj {node a b : String} : userTag node a = userTag node b ↔ a = b := by
  rw [userTag, userTag, String.append_right_inj]

theorem isUserOf_userTag (node uuid : String) : Core.isUserOf node (userTag node uuid) = true := by
  rw [Core.isUserOf, List.isPrefixOf_iff_prefix]
  simp [userTag, String.toList_append]

theorem eq_of_prefix_mark {α : Type} {c : α} {a b x y : List α} (ha : c ∉ a) (hb : c ∉ b)
    (h : a ++ c :: x <+: b ++ c :: y) : a = b ∧ x <+: y := by
  induction a generalizing b with
  | nil =>
    cases b with
    | nil => exact ⟨rfl, (List.cons_prefix_cons.1 h).2⟩
    | cons d b =>
      -- the mark would stand in `b`
      have hd : c = d := (List.cons_prefix_cons.1 h).1
      exact absurd (hd ▸ List.mem_cons_self ..) hb
  | cons e a ih =>
    cases b with
    | nil =>
      have he : e = c := (List.cons_prefix_cons.1 h).1
      exact absurd (he ▸ List.mem_cons_self ..) ha
    | cons d b =>
      obtain ⟨rfl, hr⟩ := List.cons_prefix_cons.1 h
      have ha' : c ∉ a := fun hm => ha (List.mem_cons_of_mem _ hm)
      have hb' : c ∉ b := fun hm => hb (List.mem_cons_of_mem _ hm)
      obtain ⟨rfl, hxy⟩ := ih ha' hb' hr
      exact ⟨rfl, hxy⟩

theorem Kind.colon_notMem_name (k : Kind) : ':' ∉ k.name.toList := by
  cases k <;> decide

theorem bar_notMem_toString (i : Int) : '|' ∉ (toString i).toList := by
  have hdigits (n : Nat) : '|' ∉ n.repr.toList := by
    rw [Nat.toList_repr]
    exact fun h => absurd (Nat.isDigit_of_mem_toDigits (by decide) (by decide) h) (by decide)
  cases i with
  | ofNat n => exact hdigits n
  | negSucc n =>
    change '|' ∉ ("-" ++ (n + 1).repr).toList
    rw [String.toList_append, List.mem_append, not_or]
    exact ⟨by decide, hdigits (n + 1)⟩

theorem nodeTag_eq_of_isUserOf {host uuid : String} {k k' : Kind} {i i' : Int}
    (h : Core.isUserOf (nodeTag host k i) (userTag (nodeTag host k' i') uuid) = true) :
    nodeTag host k i = nodeTag host k' i' := by
  rw [Core.isUserOf, List.isPrefixOf_iff_prefix] at h
  simp only [userTag, nodeTag, String.toList_append, List.append_assoc,
    List.prefix_append_right_inj] at h
  obtain ⟨hkind, h⟩ := eq_of_prefix_mark k.colon_notMem_name k'.colon_notMem_name h
  obtain ⟨hid, -⟩ := eq_of_prefix_mark (bar_notMem_toString i) (bar_notMem_toString i') h
  rw [nodeTag, nodeTag, String.toList_inj.1 hkind, String.toList_inj.1 hid]

theorem Kind.eq_of_name_eq {k k' : Kind} (h : k.name = k'.name) : k = k' := by
  revert h
  cases k <;> cases k' <;> decide

theorem nodeTag_inj {host : String} {k k' : Kind} {i : Int} :
    nodeTag host k i = nodeTag host k' i ↔ k = k' := by
  refine ⟨fun h => Kind.eq_of_name_eq ?_, fun h => by rw [h]⟩
  simpa only [nodeTag, String.append_right_inj, String.append_left_inj, String.append_assoc] using h

end NodeAgent
