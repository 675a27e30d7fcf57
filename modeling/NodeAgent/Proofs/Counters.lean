import NodeAgent.Core
import NodeAgent.Proofs.Table

/-!
What counting adds to the counters and what a report takes from them. As long as the totals are in
range, nothing wraps around, and a report takes all bytes of each user who has more than the
threshold and none of any other. Bytes of a user without an id are taken and go nowhere.
-/

namespace NodeAgent

inductive Way
  | up
  | down

def UserTraffic.bytes (l : UserTraffic) : Way → Nat
  | .up => l.upload.toNat
  | .down => l.download.toNat

namespace Tally

variable {t : Tally} {threshold : UInt64}

def bytes (t : Tally) : Way → Nat
  | .up => t.upload.toNat
  | .down => t.download.toNat

def InRange (t : Tally) : Prop := t.upload.toNat + t.download.toNat < UInt64.size

def exceeds (t : Tally) (threshold : UInt64) : Bool :=
  threshold.toNat < t.upload.toNat + t.download.toNat

def left (t : Tally) (threshold : UInt64) : Tally := if t.exceeds threshold then {} else t

@[simp] theorem bytes_zero (w : Way) : ({} : Tally).bytes w = 0 := by
  cases w <;> rfl

theorem exceeds_zero (threshold : UInt64) : ({} : Tally).exceeds threshold = false := by
  simp [exceeds]

theorem left_zero (threshold : UInt64) : ({} : Tally).left threshold = {} := ite_self _

theorem inRange_zero : ({} : Tally).InRange := by
  unfold InRange
  decide

theorem InRange.left (h : t.InRange) (threshold : UInt64) : (t.left threshold).InRange := by
  unfold Tally.left
  split
  · exact inRange_zero
  · exact h

theorem bytes_lt (t : Tally) (w : Way) : t.bytes w < UInt64.size := by
  cases w <;> exact UInt64.toNat_lt_size _

theorem bytes_add_mod (t : Tally) (upload download : UInt64) (w : Way) :
    (t.add upload download).bytes w =
      (t.bytes w + bytes ⟨upload, download⟩ w) % UInt64.size := by
  cases w <;> exact UInt64.toNat_add ..

theorem bytes_add {upload download : UInt64}
    (h : t.upload.toNat + t.download.toNat + upload.toNat + download.toNat < UInt64.size) (w : Way) :
    (t.add upload download).bytes w = t.bytes w + bytes ⟨upload, download⟩ w := by
  cases w with
  | up =>
    refine (UInt64.toNat_add ..).trans (Nat.mod_eq_of_lt ?_)
    change _ < UInt64.size
    omega
  | down =>
    refine (UInt64.toNat_add ..).trans (Nat.mod_eq_of_lt ?_)
    change _ < UInt64.size
    omega

theorem inRange_add {upload download : UInt64}
    (h : t.upload.toNat + t.download.toNat + upload.toNat + download.toNat < UInt64.size) :
    (t.add upload download).InRange := by
  have hup : (t.add upload download).upload.toNat = t.upload.toNat + upload.toNat := bytes_add h .up
  have hdown : (t.add upload download).download.toNat = t.download.toNat + download.toNat :=
    bytes_add h .down
  rw [InRange, hup, hdown]
  omega

theorem InRange.total_eq (h : t.InRange) : t.total = .ok (t.upload + t.download) := if_pos h

theorem InRange.toNat_add (h : t.InRange) :
    (t.upload + t.download).toNat = t.upload.toNat + t.download.toNat := by
  rw [UInt64.toNat_add]
  exact Nat.mod_eq_of_lt h

theorem InRange.le_iff (h : t.InRange) :
    t.upload + t.download ≤ threshold ↔ t.exceeds threshold = false := by
  rw [UInt64.le_iff_toNat_le, h.toNat_add, exceeds, decide_eq_false_iff_not, Nat.not_lt]

end Tally

namespace TrafficCounter

section Entries

variable {threshold : UInt64} {user : String} {t : Tally} {r : List (String × Tally)}

theorem drainEntries_cons (ht : t.InRange) : drainEntries threshold ((user, t) :: r) =
    ((user, t.left threshold) :: (drainEntries threshold r).1,
      (drainEntries threshold r).2.map fun taken =>
        if t.exceeds threshold then (user, t) :: taken else taken) := by
  rw [drainEntries, ht.total_eq]
  by_cases hex : t.exceeds threshold = true
  · have hover : ¬t.upload + t.download ≤ threshold := fun hle => by
      simp [ht.le_iff.1 hle] at hex
    simp [hex, hover, Tally.left]
  · have hle := ht.le_iff.2 (eq_false_of_ne_true hex)
    cases hr : (drainEntries threshold r).2 <;> simp [hex, hle, hr, Tally.left, Except.map]

theorem drainEntries_cons_out (ht : ¬t.InRange) :
    drainEntries threshold ((user, t) :: r) = ((user, t) :: r, .error .add) := by
  have htotal : t.total = .error .add := if_neg ht
  rw [drainEntries, htotal]

end Entries

theorem drainEntries_of_inRange (threshold : UInt64) {l : List (String × Tally)}
    (h : ∀ e ∈ l, e.2.InRange) :
    drainEntries threshold l = (l.map fun e => (e.1, e.2.left threshold),
      .ok (l.filter fun e => e.2.exceeds threshold)) := by
  induction l with
  | nil => rfl
  | cons e r ih =>
    obtain ⟨user, t⟩ := e
    have ht : t.InRange := h (user, t) (List.mem_cons_self ..)
    rw [drainEntries_cons ht, ih fun e he => h e (List.mem_cons_of_mem _ he)]
    by_cases hex : t.exceeds threshold = true <;> simp [hex, Except.map]

theorem drainOver_of_inRange {c : TrafficCounter} (threshold : UInt64)
    (h : ∀ e ∈ c.entries, e.2.InRange) :
    c.drainOver threshold = (c.map fun _ t => t.left threshold,
      .ok (c.entries.filter fun e => e.2.exceeds threshold)) := by
  have hdrain := drainEntries_of_inRange threshold h
  have hleft : (drainEntries threshold c.entries).1 = _ := congrArg Prod.fst hdrain
  have htaken : (drainEntries threshold c.entries).2 = _ := congrArg Prod.snd hdrain
  exact Prod.ext (Table.ext hleft) htaken

theorem inRange_of_drainEntries {threshold : UInt64} {l left taken : List (String × Tally)}
    (h : drainEntries threshold l = (left, .ok taken)) : ∀ e ∈ l, e.2.InRange := by
  induction l generalizing left taken with
  | nil => nofun
  | cons e r ih =>
    obtain ⟨user, t⟩ := e
    by_cases ht : t.InRange
    · rw [drainEntries_cons ht] at h
      rcases hr : drainEntries threshold r with ⟨left', o | taken'⟩
      · rw [hr] at h
        cases (Prod.mk.inj h).2
      · intro e he
        rcases List.mem_cons.1 he with rfl | he
        · exact ht
        · exact ih hr e he
    · rw [drainEntries_cons_out ht] at h
      cases (Prod.mk.inj h).2

theorem lookup_drainEntries (threshold : UInt64) (l : List (String × Tally)) (user : String) :
    (Table.lookup user (drainEntries threshold l).1).getD {} = (Table.lookup user l).getD {} ∨
      (Table.lookup user (drainEntries threshold l).1).getD {} = {} := by
  induction l with
  | nil => exact .inl rfl
  | cons e r ih =>
    obtain ⟨other, t⟩ := e
    rw [drainEntries]
    cases t.total with
    | error o => exact .inl rfl
    | ok n =>
      dsimp only
      by_cases huser : other = user
      · split
        · exact .inl (by simp [Table.lookup, huser])
        · exact .inr (by simp [Table.lookup, huser])
      · split <;> simpa only [Table.lookup, if_neg huser] using ih

theorem tally_drainOver (c : TrafficCounter) (threshold : UInt64) (user : String) :
    (c.drainOver threshold).1.tally user = c.tally user ∨
      (c.drainOver threshold).1.tally user = {} :=
  lookup_drainEntries threshold c.entries user

theorem tally_of_mem {c : TrafficCounter} {e : String × Tally} (h : e ∈ c.entries) :
    c.tally e.1 = e.2 := by
  rw [tally, (c.find?_eq_some_iff e.1 e.2).2 h]
  rfl

theorem inRange_of_entries {c : TrafficCounter} (h : ∀ e ∈ c.entries, e.2.InRange) (user : String) :
    (c.tally user).InRange := by
  rw [tally]
  cases hfind : c.find? user with
  | none => exact Tally.inRange_zero
  | some t => exact h _ ((c.find?_eq_some_iff user t).1 hfind)

theorem drainEntries_of_drainOver {c c' : TrafficCounter} {threshold : UInt64}
    {r : Except Overflow (List (String × Tally))}
    (h : c.drainOver threshold = (c', r)) :
    drainEntries threshold c.entries = (c'.entries, r) := by
  have hleft : (c.drainOver threshold).1 = c' := congrArg Prod.fst h
  have hresult : (c.drainOver threshold).2 = r := congrArg Prod.snd h
  exact Prod.ext (congrArg Table.entries hleft) hresult

theorem tally_left (c : TrafficCounter) (threshold : UInt64) (user : String) :
    tally (c.map fun _ t => t.left threshold) user = (c.tally user).left threshold := by
  rw [tally, tally, Table.find?_map]
  cases c.find? user with
  | none => exact (Tally.left_zero threshold).symm
  | some t => rfl

theorem tally_eraseMany (c : TrafficCounter) (gone : List String) (user : String) :
    tally (c.eraseMany gone) user = if user ∈ gone then {} else c.tally user := by
  rw [tally, Table.find?_eraseMany]
  split <;> rfl

theorem tally_add (c : TrafficCounter) (user other : String) (upload download : UInt64) :
    (c.add user upload download).tally other =
      if other = user then (c.tally user).add upload download else c.tally other := by
  rw [tally, add, Table.find?_insert]
  split <;> rfl

end TrafficCounter

theorem TrafficRegistry.tally_account (r : TrafficRegistry) (node user tag other : String)
    (upload download : UInt64) : ((r.account node user upload download).counter tag).tally other =
      if tag = node ∧ other = user then ((r.counter node).tally user).add upload download
      else (r.counter tag).tally other := by
  by_cases hnode : tag = node
  · rw [hnode, counter, account, Table.find?_insert_self, Option.getD_some,
      TrafficCounter.tally_add]
    simp
  · rw [if_neg fun h => hnode h.1, counter, account, Table.find?_insert_of_ne _ _ hnode]
    rfl

namespace TrafficRegistry

variable {r : TrafficRegistry} {node : String}

theorem counter_of_none (h : r.find? node = none) : r.counter node = ∅ := by
  rw [counter, h]
  rfl

theorem counter_of_some {counter : TrafficCounter} (h : r.find? node = some counter) :
    r.counter node = counter := by
  rw [TrafficRegistry.counter, h, Option.getD_some]

theorem counter_insert (r : TrafficRegistry) (node : String) (counter : TrafficCounter) :
    TrafficRegistry.counter (r.insert node counter) node = counter :=
  counter_of_some (Table.find?_insert_self ..)

end TrafficRegistry

def carried (user : String) (w : Way) : List (String × UserTraffic) → Nat
  | [] => 0
  | e :: l => (if e.1 = user then e.2.bytes w else 0) + carried user w l

theorem carried_nil (user : String) (w : Way) : carried user w [] = 0 := rfl

namespace Core

variable {ε : Type} {uids : Table String Int} {threshold : UInt64} {user : String} {w : Way}

def reported (uids : Table String Int) (threshold : UInt64) (l : List (String × Tally)) :
    List (String × UserTraffic) :=
  (l.filter fun e => e.2.exceeds threshold).filterMap fun e =>
    (uids.find? e.1).map fun uid => (e.1, ⟨uid, e.2.upload, e.2.download⟩)

def share (uids : Table String Int) (threshold : UInt64) (user : String) (w : Way) (t : Tally) : Nat :=
  if t.exceeds threshold = true ∧ user ∈ uids.keys then t.bytes w else 0

theorem bytes_mk (uid : Int) (t : Tally) (w : Way) :
    UserTraffic.bytes ⟨uid, t.upload, t.download⟩ w = t.bytes w := by
  cases w <;> rfl

/-- The bytes of a user without an id that a report drops. -/
def waste (uids : Table String Int) (threshold : UInt64) (user : String) (w : Way) (t : Tally) : Nat :=
  if t.exceeds threshold = true ∧ user ∉ uids.keys then t.bytes w else 0

theorem share_add_waste (uids : Table String Int) (threshold : UInt64) (user : String) (w : Way)
    (t : Tally) : share uids threshold user w t + waste uids threshold user w t +
      (t.left threshold).bytes w = t.bytes w := by
  unfold share waste Tally.left
  by_cases hex : t.exceeds threshold = true <;> by_cases hknown : user ∈ uids.keys <;>
    simp [hex, hknown]

theorem carried_reported_cons (e : String × Tally) (l : List (String × Tally)) :
    carried user w (reported uids threshold (e :: l)) =
      (if e.1 = user then share uids threshold user w e.2 else 0) +
        carried user w (reported uids threshold l) := by
  obtain ⟨user', t⟩ := e
  unfold reported
  rw [List.filter_cons]
  by_cases hex : t.exceeds threshold = true
  · rw [if_pos hex]
    cases hfind : uids.find? user' with
    | none =>
      have hunknown : user' ∉ uids.keys := (uids.find?_eq_none_iff user').1 hfind
      have hshare : share uids threshold user' w t = 0 := if_neg fun h => hunknown h.2
      rw [List.filterMap_cons_none (by rw [hfind]; rfl)]
      split
      next huser =>
        obtain rfl : user' = user := huser
        rw [hshare, Nat.zero_add]
      · rw [Nat.zero_add]
    | some uid =>
      have hknown : user' ∈ uids.keys := (uids.mem_keys_iff user').2 ⟨uid, hfind⟩
      rw [List.filterMap_cons_some (by rw [hfind]; rfl), carried]
      by_cases huser : user' = user
      · rw [if_pos huser, if_pos huser, share, if_pos ⟨hex, huser ▸ hknown⟩, bytes_mk]
      · rw [if_neg huser, if_neg huser]
  · have hshare : share uids threshold user w t = 0 := if_neg fun h => hex h.1
    rw [if_neg hex, hshare, ite_self, Nat.zero_add]

theorem carried_reported {l : List (String × Tally)} (h : (l.map Prod.fst).Nodup) :
    carried user w (reported uids threshold l) =
      share uids threshold user w ((Table.lookup user l).getD {}) := by
  induction l with
  | nil => simp [reported, carried, Table.lookup, share, Tally.exceeds_zero]
  | cons e r ih =>
    obtain ⟨he, hr⟩ := List.nodup_cons.1 h
    rw [carried_reported_cons, ih hr, Table.lookup]
    split
    next huser =>
      -- the names differ, so that no later entry is the user's
      have hnone : Table.lookup user r = none :=
        (Table.lookup_eq_none_iff user r).2 (huser ▸ he)
      simp [hnone, share]
    · rw [Nat.zero_add]

variable (c : Core ε) (tag : String)

def bytesOver (threshold : UInt64) : UInt64 :=
  Overflow.saturatingMul64 threshold bytesPerKilobyte

def toReport (threshold : UInt64) : List (String × UserTraffic) :=
  reported c.uids (bytesOver threshold) (c.traffic.counter tag).entries

theorem carried_toReport : carried user w (c.toReport tag threshold) =
    share c.uids (bytesOver threshold) user w ((c.traffic.counter tag).tally user) :=
  carried_reported (c.traffic.counter tag).nodup

variable {c tag}

theorem mem_toReport {t : UserTraffic} (h : (user, t) ∈ c.toReport tag threshold) :
    c.uids.find? user = some t.uid ∧
      ∀ w, t.bytes w = ((c.traffic.counter tag).tally user).bytes w := by
  obtain ⟨e, he, hentry⟩ := List.mem_filterMap.1 h
  obtain ⟨uid, huid, hpair⟩ := Option.map_eq_some_iff.1 hentry
  obtain ⟨rfl, rfl⟩ := Prod.mk.inj hpair
  refine ⟨huid, fun w => ?_⟩
  rw [bytes_mk, TrafficCounter.tally_of_mem (List.mem_filter.1 he).1]

def cleared (uids : Table String Int) (threshold : UInt64) (counter : TrafficCounter) :
    TrafficCounter :=
  (counter.map fun _ t => t.left threshold).eraseMany
    (((counter.entries.filter fun e => e.2.exceeds threshold).filter
      fun e => !uids.contains e.1).map Prod.fst)

theorem find?_cleared (uids : Table String Int) (threshold : UInt64) (counter : TrafficCounter)
    (user : String) : (cleared uids threshold counter).find? user =
      (counter.find? user).bind fun t =>
        if t.exceeds threshold = true ∧ user ∉ uids.keys then none
        else some (t.left threshold) := by
  rw [cleared, Table.find?_eraseMany, Table.find?_map]
  cases hfind : counter.find? user with
  | none => exact ite_self _
  | some t =>
    have hmem : (user, t) ∈ counter.entries := (counter.find?_eq_some_iff user t).1 hfind
    refine ite_congr (propext ⟨fun horphan => ?_, fun ⟨hover, hunknown⟩ => ?_⟩)
      (fun _ => rfl) fun _ => rfl
    · obtain ⟨⟨name, t'⟩, he, rfl⟩ := List.mem_map.1 horphan
      obtain ⟨hover, hunknown⟩ := List.mem_filter.1 he
      obtain ⟨hmem', hexceeds⟩ := List.mem_filter.1 hover
      have hfind' := (counter.find?_eq_some_iff name t').2 hmem'
      obtain rfl : t = t' := Option.some.inj (hfind.symm.trans hfind')
      exact ⟨hexceeds, fun hknown => by simp [(uids.contains_iff name).2 hknown] at hunknown⟩
    · have hcontains : uids.contains user = false :=
        eq_false_of_ne_true fun hc => hunknown ((uids.contains_iff user).1 hc)
      refine List.mem_map.2 ⟨(user, t), ?_, rfl⟩
      exact List.mem_filter.2 ⟨List.mem_filter.2 ⟨hmem, hover⟩, by rw [hcontains]; rfl⟩

theorem trafficSlice_of_none (h : c.traffic.find? tag = none) (threshold : UInt64) :
    c.trafficSlice tag threshold = (c, .ok []) := by
  rw [trafficSlice, h]

theorem trafficSlice_of_some {counter : TrafficCounter} (h : c.traffic.find? tag = some counter)
    (hrange : ∀ e ∈ counter.entries, e.2.InRange) (threshold : UInt64) :
    c.trafficSlice tag threshold =
      ({ c with traffic := c.traffic.insert tag (cleared c.uids (bytesOver threshold) counter) },
        .ok ((c.toReport tag threshold).map Prod.snd)) := by
  have hcounter := TrafficRegistry.counter_of_some h
  simp only [trafficSlice, h, TrafficCounter.drainOver_of_inRange _ hrange]
  refine Prod.ext rfl (congrArg Except.ok ?_)
  rw [toReport, hcounter, reported, List.map_filterMap]
  simp only [Option.map_map]
  rfl

theorem trafficSlice_of_inRange (h : ∀ user, ((c.traffic.counter tag).tally user).InRange)
    (threshold : UInt64) : ∃ c', c.trafficSlice tag threshold =
        (c', .ok ((c.toReport tag threshold).map Prod.snd)) ∧
      ∀ user, (c'.traffic.counter tag).tally user =
        ((c.traffic.counter tag).tally user).left (bytesOver threshold) := by
  cases hfind : c.traffic.find? tag with
  | none =>
    have hcounter := TrafficRegistry.counter_of_none hfind
    refine ⟨c, ?_, fun user => ?_⟩
    · rw [trafficSlice_of_none hfind, toReport, hcounter]
      rfl
    · rw [hcounter]
      exact (Tally.left_zero (bytesOver threshold)).symm
  | some counter =>
    have hcounter := TrafficRegistry.counter_of_some hfind
    rw [hcounter] at h ⊢
    have hentries : ∀ e ∈ counter.entries, e.2.InRange := fun e he =>
      TrafficCounter.tally_of_mem he ▸ h e.1
    refine ⟨_, trafficSlice_of_some hfind hentries threshold, fun user => ?_⟩
    rw [TrafficRegistry.counter_insert, TrafficCounter.tally, find?_cleared, TrafficCounter.tally]
    cases counter.find? user with
    | none => exact (Tally.left_zero (bytesOver threshold)).symm
    | some t =>
      rw [Option.bind_some, Option.getD_some]
      split
      -- whoever is dropped was over the threshold
      next horphan => exact (if_pos horphan.1).symm
      · rfl

variable {c' : Core ε} {l : List UserTraffic}

theorem inRange_of_trafficSlice (h : c.trafficSlice tag threshold = (c', .ok l)) (user : String) :
    ((c.traffic.counter tag).tally user).InRange := by
  rw [trafficSlice] at h
  rw [TrafficRegistry.counter]
  cases hfind : c.traffic.find? tag with
  | none => exact Tally.inRange_zero
  | some counter =>
    rw [hfind] at h
    dsimp only at h
    split at h
    · cases (Prod.mk.inj h).2
    next left taken hdrain =>
      have hpass := TrafficCounter.drainEntries_of_drainOver hdrain
      exact TrafficCounter.inRange_of_entries (TrafficCounter.inRange_of_drainEntries hpass) user

theorem trafficSlice_ok (h : c.trafficSlice tag threshold = (c', .ok l)) :
    l = (c.toReport tag threshold).map Prod.snd ∧
      ∀ user, (c'.traffic.counter tag).tally user =
        ((c.traffic.counter tag).tally user).left (bytesOver threshold) := by
  obtain ⟨c'', hslice, htally⟩ := trafficSlice_of_inRange (inRange_of_trafficSlice h) threshold
  rw [h] at hslice
  obtain ⟨rfl, hl⟩ := Prod.mk.inj hslice
  exact ⟨Except.ok.inj hl, htally⟩

theorem tally_trafficSlice (c : Core ε) (tag : String) (threshold : UInt64) (user : String) :
    ((c.trafficSlice tag threshold).1.traffic.counter tag).tally user =
        (c.traffic.counter tag).tally user ∨
      ((c.trafficSlice tag threshold).1.traffic.counter tag).tally user = {} := by
  rw [trafficSlice]
  cases hfind : c.traffic.find? tag with
  | none => exact .inl rfl
  | some counter =>
    have hcounter := TrafficRegistry.counter_of_some hfind
    have htally := counter.tally_drainOver (bytesOver threshold) user
    rw [bytesOver] at htally
    rw [hcounter]
    dsimp only
    split
    next left o hdrain =>
      rw [hdrain] at htally
      rw [TrafficRegistry.counter_insert]
      exact htally
    next left taken hdrain =>
      rw [hdrain] at htally
      rw [TrafficRegistry.counter_insert, TrafficCounter.tally_eraseMany]
      split
      · exact .inr rfl
      · exact htally

end Core

end NodeAgent
