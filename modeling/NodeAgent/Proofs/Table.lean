import NodeAgent.Table

/-! What each operation on a table does to its view `find?`, and to the set of its keys. -/

namespace NodeAgent.Table

variable {κ ν μ : Type} [DecidableEq κ]

theorem lookup_eq_some_iff {l : List (κ × ν)} (h : (l.map Prod.fst).Nodup) (k : κ) (v : ν) :
    lookup k l = some v ↔ (k, v) ∈ l := by
  induction l with
  | nil => simp [lookup]
  | cons e r ih =>
    obtain ⟨k', v'⟩ := e
    obtain ⟨hk, hr⟩ := List.nodup_cons.1 h
    by_cases hkk : k' = k
    · subst hkk
      have hne : (k', v) ∉ r := fun hm => hk (List.mem_map.2 ⟨(k', v), hm, rfl⟩)
      simp [lookup, hne, eq_comm]
    · simp [lookup, hkk, ih hr, Ne.symm hkk]

theorem lookup_eq_none_iff (k : κ) (l : List (κ × ν)) :
    lookup k l = none ↔ k ∉ l.map Prod.fst := by
  induction l with
  | nil => simp [lookup]
  | cons e r ih =>
    obtain ⟨k', v⟩ := e
    by_cases hkk : k' = k
    · simp [lookup, hkk]
    · simpa [lookup, hkk, Ne.symm hkk] using ih

theorem find?_eq_some_iff (t : Table κ ν) (k : κ) (v : ν) :
    t.find? k = some v ↔ (k, v) ∈ t.entries := lookup_eq_some_iff t.nodup k v

theorem find?_eq_none_iff (t : Table κ ν) (k : κ) : t.find? k = none ↔ k ∉ t.keys :=
  lookup_eq_none_iff k t.entries

omit [DecidableEq κ] in
theorem eq_empty_iff {t : Table κ ν} : t = ∅ ↔ ∀ k, k ∉ t.keys := by
  refine ⟨?_, fun h => ?_⟩
  · rintro rfl k hk
    cases hk
  · exact Table.ext (List.map_eq_nil_iff.1 (List.eq_nil_iff_forall_not_mem.2 h))

theorem mem_keys_iff (t : Table κ ν) (k : κ) : k ∈ t.keys ↔ ∃ v, t.find? k = some v := by
  cases h : t.find? k with
  | none => simpa using (t.find?_eq_none_iff k).1 h
  | some v =>
    have hm : k ∈ t.keys := List.mem_map.2 ⟨(k, v), (t.find?_eq_some_iff k v).1 h, rfl⟩
    simpa using hm

theorem mem_values_iff {t : Table κ ν} {v : ν} : v ∈ t.values ↔ ∃ k, t.find? k = some v := by
  constructor
  · intro h
    obtain ⟨⟨k, v⟩, he, rfl⟩ := List.mem_map.1 h
    exact ⟨k, (t.find?_eq_some_iff k v).2 he⟩
  · rintro ⟨k, h⟩
    exact List.mem_map.2 ⟨(k, v), (t.find?_eq_some_iff k v).1 h, rfl⟩

theorem find?_filter (t : Table κ ν) (p : κ → ν → Bool) (k : κ) :
    (t.filter p).find? k = (t.find? k).filter (p k) := by
  ext v
  simp [find?_eq_some_iff, filter]

theorem find?_erase (t : Table κ ν) (k k' : κ) :
    (t.erase k).find? k' = if k' = k then none else t.find? k' := by
  rw [erase, find?_filter]
  by_cases h : k' = k <;> cases t.find? k' <;> simp [h]

theorem find?_insert (t : Table κ ν) (k k' : κ) (v : ν) :
    (t.insert k v).find? k' = if k' = k then some v else t.find? k' := by
  by_cases h : k' = k
  · simp [find?, insert, lookup, h]
  · have hne : k ≠ k' := Ne.symm h
    simpa [find?, insert, lookup, h, hne] using t.find?_erase k k'

@[simp] theorem find?_insert_self (t : Table κ ν) (k : κ) (v : ν) :
    (t.insert k v).find? k = some v := by
  simp [find?_insert]

theorem find?_insert_of_ne (t : Table κ ν) {k k' : κ} (v : ν) (h : k' ≠ k) :
    (t.insert k v).find? k' = t.find? k' := by
  simp [find?_insert, h]

theorem insert_insert_self (t : Table κ ν) (k : κ) (v v' : ν) :
    (t.insert k v).insert k v' = t.insert k v' := by
  have herase : (t.insert k v).erase k = t.erase k := by
    refine Table.ext ?_
    simp [erase, insert, filter]
  refine Table.ext ?_
  change (k, v') :: ((t.insert k v).erase k).entries = (k, v') :: (t.erase k).entries
  rw [herase]

theorem find?_map (t : Table κ ν) (f : κ → ν → μ) (k : κ) :
    (t.map f).find? k = (t.find? k).map (f k) := by
  obtain ⟨l, hl⟩ := t
  simp only [find?, map]
  clear hl
  induction l with
  | nil => rfl
  | cons e r ih =>
    by_cases h : e.1 = k
    · simp [lookup, h]
    · simpa [lookup, h] using ih

theorem find?_modify (t : Table κ ν) (k k' : κ) (f : ν → ν) :
    (t.modify k f).find? k' = if k' = k then (t.find? k').map f else t.find? k' := by
  rw [modify, find?_map]
  by_cases h : k' = k <;> simp [h]

theorem find?_eraseMany (t : Table κ ν) (l : List κ) (k : κ) :
    (t.eraseMany l).find? k = if k ∈ l then none else t.find? k := by
  induction l generalizing t with
  | nil => simp [eraseMany]
  | cons k' r ih =>
    have h := ih (t.erase k')
    rw [find?_erase] at h
    rw [eraseMany, List.foldl_cons]
    refine h.trans ?_
    by_cases hk : k = k' <;> by_cases hr : k ∈ r <;> simp [hk, hr]

theorem find?_insertMany_of_notMem (t : Table κ ν) (l : List (κ × ν)) {k : κ}
    (h : k ∉ l.map Prod.fst) : (t.insertMany l).find? k = t.find? k := by
  induction l generalizing t with
  | nil => rfl
  | cons e r ih =>
    rw [List.map_cons, List.mem_cons, not_or] at h
    rw [insertMany, List.foldl_cons]
    exact (ih (t.insert e.1 e.2) h.2).trans (t.find?_insert_of_ne e.2 h.1)

theorem mem_keys_insert (t : Table κ ν) (k k' : κ) (v : ν) :
    k' ∈ (t.insert k v).keys ↔ k' = k ∨ k' ∈ t.keys := by
  by_cases h : k' = k <;> simp [mem_keys_iff, find?_insert, h]

theorem mem_keys_erase (t : Table κ ν) (k k' : κ) :
    k' ∈ (t.erase k).keys ↔ k' ∈ t.keys ∧ k' ≠ k := by
  by_cases h : k' = k <;> simp [mem_keys_iff, find?_erase, h]

theorem mem_keys_eraseMany (t : Table κ ν) (l : List κ) (k : κ) :
    k ∈ (t.eraseMany l).keys ↔ k ∈ t.keys ∧ k ∉ l := by
  by_cases h : k ∈ l <;> simp [mem_keys_iff, find?_eraseMany, h]

theorem mem_keys_insertMany (t : Table κ ν) (l : List (κ × ν)) (k : κ) :
    k ∈ (t.insertMany l).keys ↔ k ∈ t.keys ∨ k ∈ l.map Prod.fst := by
  induction l generalizing t with
  | nil => simp [insertMany]
  | cons e r ih =>
    rw [insertMany, List.foldl_cons]
    refine (ih (t.insert e.1 e.2)).trans ?_
    rw [mem_keys_insert, List.map_cons, List.mem_cons, or_comm (a := k = e.1), or_assoc]

theorem find?_insertMany_of_mem (t : Table κ ν) {l : List (κ × ν)} (h : (l.map Prod.fst).Nodup)
    {k : κ} {v : ν} (hm : (k, v) ∈ l) : (t.insertMany l).find? k = some v := by
  induction l generalizing t with
  | nil => cases hm
  | cons e r ih =>
    obtain ⟨he, hr⟩ := List.nodup_cons.1 h
    rw [insertMany, List.foldl_cons]
    rcases List.mem_cons.1 hm with rfl | hm
    · exact (find?_insertMany_of_notMem _ r he).trans (t.find?_insert_self k v)
    · exact ih (t.insert e.1 e.2) hr hm

theorem find?_insertMany_empty {l : List (κ × ν)} (h : (l.map Prod.fst).Nodup) {k : κ} {v : ν} :
    ((∅ : Table κ ν).insertMany l).find? k = some v ↔ (k, v) ∈ l := by
  refine ⟨fun hfind => ?_, find?_insertMany_of_mem ∅ h⟩
  by_cases hk : k ∈ l.map Prod.fst
  · obtain ⟨⟨k', v'⟩, hmem, rfl⟩ := List.mem_map.1 hk
    have hfind' := find?_insertMany_of_mem ∅ h hmem
    obtain rfl : v = v' := Option.some.inj (hfind.symm.trans hfind')
    exact hmem
  · rw [find?_insertMany_of_notMem ∅ l hk] at hfind
    cases hfind

theorem map_find?_insertMany {α : Type} {f : ν → α} {g : μ → α} {t : Table κ ν} {s : Table κ μ}
    {l : List (κ × ν)} {m : List (κ × μ)} (h : ∀ k, (t.find? k).map f = (s.find? k).map g)
    (hl : l.map (fun e => (e.1, f e.2)) = m.map fun e => (e.1, g e.2)) (k : κ) :
    ((t.insertMany l).find? k).map f = ((s.insertMany m).find? k).map g := by
  induction l generalizing t s m with
  | nil =>
    obtain rfl := List.map_eq_nil_iff.1 hl.symm
    exact h k
  | cons e l ih =>
    obtain ⟨e', m', rfl, hhead, hrest⟩ := List.map_eq_cons_iff.1 hl.symm
    obtain ⟨hkey, hvalue⟩ := Prod.mk.inj hhead
    rw [insertMany, insertMany, List.foldl_cons, List.foldl_cons]
    refine ih (fun k' => ?_) hrest.symm
    rw [find?_insert, find?_insert, hkey]
    split
    · exact congrArg some hvalue.symm
    · exact h k'

omit [DecidableEq κ] in
theorem size_filter_le (t : Table κ ν) (p : κ → ν → Bool) : (t.filter p).size ≤ t.size :=
  List.length_filter_le ..

theorem keys_erase (t : Table κ ν) (k : κ) : (t.erase k).keys = t.keys.erase k := by
  have hnodup : t.keys.Nodup := t.nodup
  rw [hnodup.erase_eq_filter, keys, keys, erase, filter, List.filter_map]
  congr 1
  refine List.filter_congr fun e _ => ?_
  by_cases he : e.1 = k <;> simp [he]

theorem size_insert_le (t : Table κ ν) (k : κ) (v : ν) : (t.insert k v).size ≤ t.size + 1 :=
  Nat.succ_le_succ (t.size_filter_le _)

theorem size_insert_of_mem {t : Table κ ν} {k : κ} (h : k ∈ t.keys) (v : ν) :
    (t.insert k v).size = t.size := by
  have hsize : (t.erase k).size = t.size - 1 := by
    have herase := List.length_erase_of_mem h
    rwa [← keys_erase, keys, keys, List.length_map, List.length_map] at herase
  have hpos : 0 < t.size := by
    have hkeys := List.length_pos_of_mem h
    rwa [keys, List.length_map] at hkeys
  change (t.erase k).size + 1 = t.size
  rw [hsize, Nat.sub_add_cancel hpos]

theorem contains_iff (t : Table κ ν) (k : κ) : t.contains k = true ↔ k ∈ t.keys := by
  rw [contains, Option.isSome_iff_exists, mem_keys_iff]

end NodeAgent.Table
