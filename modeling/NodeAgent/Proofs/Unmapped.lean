import NodeAgent.Proofs.Discards
import NodeAgent.Proofs.Slices

/-!
Counters of users who have no id. A report takes such a counter away if it is over the threshold,
and passes over it otherwise. What it passes over is still there when the user is added again, and a
later report posts it under his new id.
-/

namespace NodeAgent

theorem Tally.eq_zero_iff {t : Tally} : t = {} ↔ ∀ w, t.bytes w = 0 := by
  refine ⟨fun h w => h ▸ Tally.bytes_zero w, fun h => ?_⟩
  have hup : t.upload = 0 := UInt64.toNat_inj.1 (h .up)
  have hdown : t.download = 0 := UInt64.toNat_inj.1 (h .down)
  cases t
  simp_all

namespace Core

variable {c c' : Core LocalEngine} {tag : String} {threshold : UInt64}

/-- No report that comes later holds bytes of the user that were counted up to now. -/
def Forgets (c : Core LocalEngine) (tag user : String) : Prop :=
  ∀ after w, reportedAlong tag user w c after ≤ counted tag user w after

def anyPassword : NodeInfo := { id := 0, kind := .hysteria2, endpoint := {} }

theorem addUsers_anyPassword (c : Core LocalEngine) (tag uuid : String) :
    let c₁ := (c.addUsers tag anyPassword [⟨0, uuid, 0, 0⟩]).1
    c₁.traffic = c.traffic ∧ userTag tag uuid ∈ c₁.uids.keys := by
  intro c₁
  refine ⟨rfl, ?_⟩
  change userTag tag uuid ∈ (c.uids.insert (userTag tag uuid) 0).keys
  exact (Table.mem_keys_insert ..).2 (.inl rfl)

def readded (tag uuid : String) : List Operation :=
  [.addUsers tag anyPassword [⟨0, uuid, 0, 0⟩], .trafficSlice tag 0]

theorem reportedAlong_readded (range : ∀ u, ((c.traffic.counter tag).tally u).InRange)
    (uuid : String) (w : Way) : reportedAlong tag (userTag tag uuid) w c (readded tag uuid) =
      ((c.traffic.counter tag).tally (userTag tag uuid)).bytes w := by
  obtain ⟨htraffic, hknown⟩ := c.addUsers_anyPassword tag uuid
  generalize hc₁ : (c.addUsers tag anyPassword [⟨0, uuid, 0, 0⟩]).1 = c₁ at htraffic hknown
  rw [← htraffic] at range ⊢
  obtain ⟨c₂, hslice, -, -⟩ := exists_sliced range 0
  have hreports : c₁.reports tag (userTag tag uuid) w (.trafficSlice tag 0) =
      share c₁.uids (bytesOver 0) (userTag tag uuid) w
        ((c₁.traffic.counter tag).tally (userTag tag uuid)) := by
    rw [reports, if_pos ⟨rfl, by rw [hslice]; rfl⟩, carried_toReport]
  have hrun : reportedAlong tag (userTag tag uuid) w c (readded tag uuid) =
      c₁.reports tag (userTag tag uuid) w (.trafficSlice tag 0) := by
    rw [← hc₁]
    exact Nat.zero_add _
  rw [hrun, hreports, share]
  by_cases hover : ((c₁.traffic.counter tag).tally (userTag tag uuid)).Over 0
  · exact if_pos ⟨Tally.exceeds_iff_over.2 hover, hknown⟩
  · rw [if_neg fun h => hover (Tally.exceeds_iff_over.1 h.1)]
    rw [Tally.over_zero_iff] at hover
    cases w with
    | up => exact (Nat.le_zero.1 (Nat.le_trans (Nat.le_add_right ..) (Nat.not_lt.1 hover))).symm
    | down => exact (Nat.le_zero.1 (Nat.le_trans (Nat.le_add_left ..) (Nat.not_lt.1 hover))).symm

theorem counted_readded (tag user uuid : String) (w : Way) :
    counted tag user w (readded tag uuid) = 0 := rfl

theorem forgets_iff (range : ∀ u, ((c.traffic.counter tag).tally u).InRange) (uuid : String) :
    c.Forgets tag (userTag tag uuid) ↔ (c.traffic.counter tag).tally (userTag tag uuid) = {} := by
  refine ⟨fun h => Tally.eq_zero_iff.2 fun w => ?_, fun h after w => ?_⟩
  · have hbound := h (readded tag uuid) w
    rw [reportedAlong_readded range, counted_readded] at hbound
    exact Nat.le_zero.1 hbound
  · have hbound := c.reportedAlong_run after tag (userTag tag uuid) w
    rw [h, Tally.bytes_zero, Nat.zero_add] at hbound
    exact Nat.le_trans (Nat.le_add_right ..) hbound

theorem Sliced.tally (h : Sliced c c' tag threshold) {user : String}
    (hunknown : user ∉ c.uids.keys) : (c'.traffic.counter tag).tally user =
      if ((c.traffic.counter tag).tally user).Over threshold then {}
      else (c.traffic.counter tag).tally user := by
  cases hfind : (c.traffic.counter tag).find? user with
  | none =>
    rw [TrafficCounter.tally, TrafficCounter.tally, h.uncounted user hfind, hfind]
    exact (ite_self _).symm
  | some t =>
    rw [TrafficCounter.tally, TrafficCounter.tally, hfind, Option.getD_some]
    split
    next hover => rw [h.dropped user t hfind hover hunknown, Option.getD_none]
    next hunder => rw [h.kept user t hfind hunder, Option.getD_some]

theorem Sliced.mem_keys_iff (h : Sliced c c' tag threshold) (user : String) :
    user ∈ (c'.traffic.counter tag).keys ↔ user ∈ (c.traffic.counter tag).keys ∧
      (((c.traffic.counter tag).tally user).Over threshold → user ∈ c.uids.keys) := by
  rw [Table.mem_keys_iff, Table.mem_keys_iff, TrafficCounter.tally]
  cases hfind : (c.traffic.counter tag).find? user with
  | none => simp [h.uncounted user hfind]
  | some t =>
    rw [Option.getD_some]
    by_cases hover : t.Over threshold
    · by_cases hknown : user ∈ c.uids.keys
      · simp [h.emptied user t hfind hover hknown, hknown]
      · simp [h.dropped user t hfind hover hknown, hover, hknown]
    · simp [h.kept user t hfind hover, hover]

/--
The counters that a report leaves are those of the users who have an id and of those who have none
and are not over the threshold. So it leaves no counter without an id exactly when everybody without
an id is over the threshold; and what was counted for a user without an id never comes into a later
report exactly when he is over the threshold or nothing was counted.
-/
theorem orphans_cleared_iff (range : ∀ user, ((c.traffic.counter tag).tally user).InRange)
    (threshold : UInt64) : let counter := c.traffic.counter tag
    ∃ c' l, c.trafficSlice tag threshold = (c', .ok l) ∧
      (∀ user, user ∈ (c'.traffic.counter tag).keys ↔ user ∈ counter.keys ∧
        ((counter.tally user).Over threshold → user ∈ c.uids.keys)) ∧
      ((∀ user ∈ (c'.traffic.counter tag).keys, user ∈ c'.uids.keys) ↔
        ∀ user ∈ counter.keys, user ∉ c.uids.keys → (counter.tally user).Over threshold) ∧
      ∀ uuid, userTag tag uuid ∉ c.uids.keys → (c'.Forgets tag (userTag tag uuid) ↔
        (counter.tally (userTag tag uuid)).Over threshold ∨
          counter.tally (userTag tag uuid) = {}) := by
  intro counter
  obtain ⟨c', hslice, hsliced, -⟩ := exists_sliced range threshold
  have hids : c'.uids = c.uids := by rw [hsliced.frame]
  have hrange : ∀ u, ((c'.traffic.counter tag).tally u).InRange := by
    intro u
    rw [(trafficSlice_ok hslice).2]
    exact (range u).left _
  refine ⟨c', _, hslice, hsliced.mem_keys_iff, ?_, fun uuid hunknown => ?_⟩
  · rw [hids]
    constructor
    · intro h user huser hunknown
      by_contra hunder
      exact hunknown (h user ((hsliced.mem_keys_iff user).2
        ⟨huser, fun hover => absurd hover hunder⟩))
    · intro h user huser
      obtain ⟨hcounted, hknown⟩ := (hsliced.mem_keys_iff user).1 huser
      by_contra hunknown
      exact hunknown (hknown (h user hcounted hunknown))
  · rw [forgets_iff hrange, hsliced.tally hunknown]
    split
    next hover => exact ⟨fun _ => .inl hover, fun _ => rfl⟩
    next hunder => exact ⟨.inr, fun h => h.resolve_left hunder⟩

section Returns

def aliceGone : Core LocalEngine :=
  run { engine := {} } [.addNode "n" anyPassword, .addUsers "n" anyPassword [⟨7, "alice", 0, 0⟩],
    .delUsers "n" [⟨7, "alice", 0, 0⟩], .account "n" (userTag "n" "alice") 500 0,
    .account "n" (userTag "n" "bob") 0 2000]

def aliceReturns : List Operation :=
  [.addUsers "n" anyPassword [⟨7, "alice", 0, 0⟩], .account "n" (userTag "n" "alice") 2000 0]

/-- A report leaves her counter though she has no id, and the one after her return posts it. -/
theorem orphan_reported_later :
    let c := (aliceGone.trafficSlice "n" 1).1
    userTag "n" "alice" ∈ (c.traffic.counter "n").keys ∧ userTag "n" "alice" ∉ c.uids.keys ∧
      (aliceGone.trafficSlice "n" 1).2 = .ok [] ∧
      ((c.run aliceReturns).trafficSlice "n" 1).2 = .ok [⟨7, 2500, 0⟩] ∧
      counted "n" (userTag "n" "alice") .up aliceReturns = 2000 := by
  decide +kernel

theorem bob_forgotten_and_alice_not :
    (∀ user, ((aliceGone.traffic.counter "n").tally user).InRange) ∧
      ∃ c' l, aliceGone.trafficSlice "n" 1 = (c', .ok l) ∧
        c'.Forgets "n" (userTag "n" "bob") ∧ ¬c'.Forgets "n" (userTag "n" "alice") := by
  have hrange : ∀ user, ((aliceGone.traffic.counter "n").tally user).InRange :=
    TrafficCounter.inRange_of_entries (by decide +kernel)
  obtain ⟨c', l, hslice, -, -, hforgets⟩ := orphans_cleared_iff hrange 1
  refine ⟨hrange, c', l, hslice, ?_, ?_⟩
  · exact (hforgets "bob" (by decide +kernel)).2 (.inl (by decide +kernel))
  · rw [hforgets "alice" (by decide +kernel)]
    decide +kernel

end Returns

end Core

end NodeAgent
