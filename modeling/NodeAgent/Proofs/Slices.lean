import NodeAgent.Proofs.Counters

/-!
What a report takes from the counters, to the last entry, and what it leaves of them. Who is over
the threshold and has an id is reported once, with all his bytes, and counts from zero again; who is
over it without an id loses his counter; nothing else changes. So the next report, if nothing is
counted before it, has nothing to take.
-/

namespace NodeAgent

namespace Core

/-- A threshold is in kilobytes; one that is too great for a word of bytes is the greatest word. -/
theorem toNat_bytesOver (threshold : UInt64) :
    (bytesOver threshold).toNat = min (1000 * threshold.toNat) (UInt64.size - 1) := by
  have hthousand : bytesPerKilobyte.toNat = 1000 := rfl
  unfold bytesOver Overflow.saturatingMul64
  split
  next hfits =>
    rw [hthousand] at hfits
    have hmul : (threshold * bytesPerKilobyte).toNat = threshold.toNat * 1000 := by
      rw [UInt64.toNat_mul, hthousand]
      exact Nat.mod_eq_of_lt hfits
    rw [hmul]
    omega
  next hfits =>
    rw [hthousand] at hfits
    have hgreatest : (UInt64.ofNat (UInt64.size - 1)).toNat = UInt64.size - 1 := by decide
    rw [hgreatest]
    omega

end Core

namespace Tally

variable {t : Tally} {threshold : UInt64}

def Over (t : Tally) (threshold : UInt64) : Prop :=
  min (1000 * threshold.toNat) (UInt64.size - 1) < t.upload.toNat + t.download.toNat

instance (t : Tally) (threshold : UInt64) : Decidable (t.Over threshold) := Nat.decLt ..

instance (t : Tally) : Decidable t.InRange := Nat.decLt ..

theorem exceeds_iff_over : t.exceeds (Core.bytesOver threshold) = true ↔ t.Over threshold := by
  rw [exceeds, decide_eq_true_iff, Core.toNat_bytesOver, Over]

theorem Over.pos (h : t.Over threshold) : 0 < t.upload.toNat + t.download.toNat :=
  Nat.lt_of_le_of_lt (Nat.zero_le _) h

theorem over_zero_iff : t.Over 0 ↔ 0 < t.upload.toNat + t.download.toNat := by
  rw [Over, show (0 : UInt64).toNat = 0 from rfl, Nat.mul_zero, Nat.zero_min]

theorem not_exceeds_left (t : Tally) (threshold : UInt64) :
    (t.left threshold).exceeds threshold = false := by
  unfold left
  split
  · exact exceeds_zero threshold
  next hunder => exact eq_false_of_ne_true hunder

end Tally

namespace TrafficCounter

variable {c : TrafficCounter} {threshold : UInt64}

theorem drainOver_of_under (h : ∀ e ∈ c.entries, e.2.InRange)
    (hunder : ∀ e ∈ c.entries, e.2.exceeds threshold = false) :
    c.drainOver threshold = (c, .ok []) := by
  have hleft : (c.map fun _ t => t.left threshold) = c := by
    refine Table.ext ?_
    rw [Table.map, List.map_eq_iff]
    intro i
    cases hi : c.entries[i]? with
    | none => rfl
    | some e =>
      have he := hunder e (List.mem_of_getElem? hi)
      rw [Option.map_some, Tally.left, if_neg (by simp [he])]
  have htaken : (c.entries.filter fun e => e.2.exceeds threshold) = [] :=
    List.filter_eq_nil_iff.2 fun e he => by simp [hunder e he]
  rw [drainOver_of_inRange threshold h, hleft, htaken]

end TrafficCounter

namespace Core

variable {ε : Type} {c c' : Core ε} {tag user : String} {threshold : UInt64}

theorem names_reported_sublist (uids : Table String Int) (threshold : UInt64)
    (l : List (String × Tally)) :
    ((reported uids threshold l).map Prod.fst).Sublist (l.map Prod.fst) := by
  have hover : ((l.filter fun e => e.2.exceeds threshold).map Prod.fst).Sublist (l.map Prod.fst) :=
    List.filter_sublist.map Prod.fst
  refine List.Sublist.trans ?_ hover
  rw [reported]
  generalize l.filter (fun e => e.2.exceeds threshold) = taken
  clear hover
  induction taken with
  | nil => exact .slnil
  | cons e taken ih =>
    rw [List.map_cons, List.filterMap_cons]
    cases uids.find? e.1 with
    | none => exact ih.cons e.1
    | some uid => exact ih.cons_cons e.1

theorem nodup_toReport (c : Core ε) (tag : String) (threshold : UInt64) :
    ((c.toReport tag threshold).map Prod.fst).Nodup :=
  (c.traffic.counter tag).nodup.sublist (names_reported_sublist ..)

theorem mem_toReport_iff {r : UserTraffic} : (user, r) ∈ c.toReport tag threshold ↔
    ∃ t, (c.traffic.counter tag).find? user = some t ∧ t.Over threshold ∧
      c.uids.find? user = some r.uid ∧ r.upload = t.upload ∧ r.download = t.download := by
  rw [toReport, reported, List.mem_filterMap]
  constructor
  · rintro ⟨⟨name, t⟩, he, hentry⟩
    obtain ⟨hmem, hover⟩ := List.mem_filter.1 he
    obtain ⟨uid, huid, hpair⟩ := Option.map_eq_some_iff.1 hentry
    obtain ⟨rfl, rfl⟩ := Prod.mk.inj hpair
    exact ⟨t, (Table.find?_eq_some_iff ..).2 hmem, Tally.exceeds_iff_over.1 hover, huid, rfl, rfl⟩
  · rintro ⟨t, hfind, hover, huid, hup, hdown⟩
    have hmem : (user, t) ∈ (c.traffic.counter tag).entries := (Table.find?_eq_some_iff ..).1 hfind
    refine ⟨(user, t), List.mem_filter.2 ⟨hmem, Tally.exceeds_iff_over.2 hover⟩, ?_⟩
    rw [huid, ← hup, ← hdown]
    rfl

structure Sliced (c c' : Core ε) (tag : String) (threshold : UInt64) : Prop where
  emptied : ∀ user t, (c.traffic.counter tag).find? user = some t → t.Over threshold →
    user ∈ c.uids.keys → (c'.traffic.counter tag).find? user = some {}
  dropped : ∀ user t, (c.traffic.counter tag).find? user = some t → t.Over threshold →
    user ∉ c.uids.keys → (c'.traffic.counter tag).find? user = none
  kept : ∀ user t, (c.traffic.counter tag).find? user = some t → ¬t.Over threshold →
    (c'.traffic.counter tag).find? user = some t
  uncounted : ∀ user, (c.traffic.counter tag).find? user = none →
    (c'.traffic.counter tag).find? user = none
  elsewhere : ∀ node, node ≠ tag → c'.traffic.find? node = c.traffic.find? node
  frame : c' = { c with traffic := c'.traffic }

theorem trafficSlice_of_under {counter : TrafficCounter} (h : c.traffic.find? tag = some counter)
    (hrange : ∀ e ∈ counter.entries, e.2.InRange)
    (hunder : ∀ e ∈ counter.entries, e.2.exceeds (bytesOver threshold) = false) :
    c.trafficSlice tag threshold =
      ({ c with traffic := c.traffic.insert tag counter }, .ok []) := by
  have hdrain := TrafficCounter.drainOver_of_under hrange hunder
  rw [bytesOver] at hdrain
  rw [trafficSlice, h]
  simp only [hdrain]
  rfl

theorem under_of_mem_cleared {uids : Table String Int} {counter : TrafficCounter}
    (hrange : ∀ e ∈ counter.entries, e.2.InRange) {e : String × Tally}
    (he : e ∈ (cleared uids threshold counter).entries) :
    e.2.InRange ∧ e.2.exceeds threshold = false := by
  have hfind := ((cleared uids threshold counter).find?_eq_some_iff e.1 e.2).2 he
  rw [find?_cleared] at hfind
  obtain ⟨t, ht, hleft⟩ := Option.bind_eq_some_iff.1 hfind
  split at hleft
  · cases hleft
  · rw [← Option.some.inj hleft]
    exact ⟨(hrange _ ((counter.find?_eq_some_iff e.1 t).1 ht)).left threshold,
      t.not_exceeds_left threshold⟩

theorem sliced_of_find? (frame : c' = { c with traffic := c'.traffic })
    (elsewhere : ∀ node, node ≠ tag → c'.traffic.find? node = c.traffic.find? node)
    (h : ∀ u, (c'.traffic.counter tag).find? u = ((c.traffic.counter tag).find? u).bind fun t =>
      if t.exceeds (bytesOver threshold) = true ∧ u ∉ c.uids.keys then none
      else some (t.left (bytesOver threshold))) : Sliced c c' tag threshold where
  emptied := by
    intro u t hfind hover hknown
    rw [h, hfind, Option.bind_some, if_neg fun horphan => horphan.2 hknown, Tally.left,
      if_pos (Tally.exceeds_iff_over.2 hover)]
  dropped := by
    intro u t hfind hover hunknown
    rw [h, hfind, Option.bind_some, if_pos ⟨Tally.exceeds_iff_over.2 hover, hunknown⟩]
  kept := by
    intro u t hfind hunder
    have hexceeds : ¬t.exceeds (bytesOver threshold) = true :=
      fun hex => hunder (Tally.exceeds_iff_over.1 hex)
    rw [h, hfind, Option.bind_some, if_neg fun horphan => hexceeds horphan.1, Tally.left,
      if_neg hexceeds]
  uncounted := by
    intro u hfind
    rw [h, hfind]
    rfl
  elsewhere := elsewhere
  frame := frame

theorem exists_sliced (range : ∀ u, ((c.traffic.counter tag).tally u).InRange)
    (threshold : UInt64) : ∃ c', c.trafficSlice tag threshold =
        (c', .ok ((c.toReport tag threshold).map Prod.snd)) ∧
      Sliced c c' tag threshold ∧ c'.trafficSlice tag threshold = (c', .ok []) := by
  cases hfind : c.traffic.find? tag with
  | none =>
    have hcounter := TrafficRegistry.counter_of_none hfind
    refine ⟨c, ?_, sliced_of_find? rfl (fun _ _ => rfl) fun u => ?_,
      trafficSlice_of_none hfind threshold⟩
    · rw [trafficSlice_of_none hfind, toReport, hcounter]
      rfl
    · rw [hcounter]
      rfl
  | some counter =>
    have hcounter := TrafficRegistry.counter_of_some hfind
    have hentries : ∀ e ∈ counter.entries, e.2.InRange := fun e he =>
      TrafficCounter.tally_of_mem he ▸ hcounter ▸ range e.1
    refine ⟨_, trafficSlice_of_some hfind hentries threshold,
      sliced_of_find? rfl (fun node hnode => Table.find?_insert_of_ne _ _ hnode) fun u => ?_, ?_⟩
    · rw [hcounter, TrafficRegistry.counter_insert, find?_cleared]
    · rw [trafficSlice_of_under (Table.find?_insert_self ..)
        (fun e he => (under_of_mem_cleared hentries he).1)
        fun e he => (under_of_mem_cleared hentries he).2, Table.insert_insert_self]

/--
A report with totals in range has a result. It names, each once, the users of the node who are over
the threshold and have an id, with that id and all that their counters say. Besides, it changes
nothing but what `Sliced` says, and a second one right after it takes nothing and changes nothing.
-/
theorem slice_exact (range : ∀ user, ((c.traffic.counter tag).tally user).InRange)
    (threshold : UInt64) : ∃ (c' : Core ε) (named : List (String × UserTraffic)),
      c.trafficSlice tag threshold = (c', .ok (named.map Prod.snd)) ∧
      (named.map Prod.fst).Nodup ∧
      (∀ user r, (user, r) ∈ named ↔ ∃ t, (c.traffic.counter tag).find? user = some t ∧
        t.Over threshold ∧ c.uids.find? user = some r.uid ∧
        r.upload = t.upload ∧ r.download = t.download) ∧
      Sliced c c' tag threshold ∧ c'.trafficSlice tag threshold = (c', .ok []) := by
  obtain ⟨c', hslice, hsliced, hagain⟩ := exists_sliced range threshold
  exact ⟨c', c.toReport tag threshold, hslice, c.nodup_toReport tag threshold,
    fun _ _ => mem_toReport_iff, hsliced, hagain⟩

section ThreeUsers

def threeUsers : Core Unit where
  engine := ()
  traffic := Table.ofList [("n", Table.ofList
    [("n|alice", ⟨1500, 500⟩), ("n|bob", ⟨1000, 0⟩), ("n|carol", ⟨0, 5000⟩)])]
  uids := Table.ofList [("n|alice", 7), ("n|bob", 8)]

theorem slice_of_threeUsers :
    (∀ user, ((threeUsers.traffic.counter "n").tally user).InRange) ∧
      ∃ c', threeUsers.trafficSlice "n" 1 = (c', .ok [⟨7, 1500, 500⟩]) ∧
        (c'.traffic.counter "n").find? "n|alice" = some {} ∧
        (c'.traffic.counter "n").find? "n|bob" = some ⟨1000, 0⟩ ∧
        (c'.traffic.counter "n").find? "n|carol" = none ∧
        c'.trafficSlice "n" 1 = (c', .ok []) := by
  have hrange : ∀ user, ((threeUsers.traffic.counter "n").tally user).InRange :=
    TrafficCounter.inRange_of_entries (by decide)
  obtain ⟨c', named, hslice, -, -, hsliced, hagain⟩ := slice_exact hrange 1
  have hposted : (threeUsers.trafficSlice "n" 1).2 = .ok [⟨7, 1500, 500⟩] := by rfl
  rw [hslice] at hposted
  refine ⟨hrange, c', hslice.trans (Prod.ext rfl hposted), ?_, ?_, ?_, hagain⟩
  · exact hsliced.emptied "n|alice" ⟨1500, 500⟩ rfl (by decide) (by decide)
  · exact hsliced.kept "n|bob" ⟨1000, 0⟩ rfl (by decide)
  · exact hsliced.dropped "n|carol" ⟨0, 5000⟩ rfl (by decide) (by decide)

end ThreeUsers

end Core

end NodeAgent
