import Mathlib.Data.Finset.Image
import NodeAgent.Proofs.Diff
import NodeAgent.Proofs.Operations

/-!
Records of one user that differ in speed. Lists are compared by user and speed, whereas the engine
knows a user only once: whoever has a record to be removed goes, and comes back only with a record
that is new.
-/

namespace NodeAgent

def speedsOf (users : List User) (uuid : String) : Finset UInt64 :=
  ((users.filter fun u => u.uuid = uuid).map (·.speedLimit)).toFinset

theorem mem_speedsOf {users : List User} {uuid : String} {speed : UInt64} :
    speed ∈ speedsOf users uuid ↔ ∃ u ∈ users, u.uuid = uuid ∧ u.speedLimit = speed := by
  simp [speedsOf, and_assoc]

theorem User.mem_keys_iff_speed {u : User} {users : List User} :
    u.key ∈ users.map User.key ↔ u.speedLimit ∈ speedsOf users u.uuid := by
  simp only [User.mem_keys_iff, User.key_eq_iff, mem_speedsOf]

theorem not_ssubset_of_distinct {old new : List User} (h : Distinct old) {u : User} (hu : u ∈ new) :
    ¬speedsOf new u.uuid ⊂ speedsOf old u.uuid := by
  intro hfewer
  obtain ⟨speed, hold, hnew⟩ := Finset.exists_of_ssubset hfewer
  obtain ⟨v, hv, hvu, rfl⟩ := mem_speedsOf.1 hold
  have hkept : u.speedLimit ∈ speedsOf old u.uuid :=
    hfewer.subset (mem_speedsOf.2 ⟨u, hu, rfl, rfl⟩)
  obtain ⟨w, hw, hwu, hspeed⟩ := mem_speedsOf.1 hkept
  obtain rfl : v = w := eq_of_uuid_eq h hv hw (hvu.trans hwu.symm)
  exact hnew (mem_speedsOf.2 ⟨u, hu, rfl, hspeed.symm⟩)

namespace UserDiff

variable {old new : List User} {node t : String}

theorem mem_userTags_added_iff : t ∈ userTags node (between old new).added ↔
    ∃ u ∈ new, userTag node u.uuid = t ∧ ¬speedsOf new u.uuid ⊆ speedsOf old u.uuid := by
  simp only [mem_userTags, mem_added, User.mem_keys_iff_speed, Finset.not_subset]
  constructor
  · rintro ⟨u, ⟨hu, hspeed⟩, rfl⟩
    exact ⟨u, hu, rfl, u.speedLimit, mem_speedsOf.2 ⟨u, hu, rfl, rfl⟩, hspeed⟩
  · rintro ⟨u, -, rfl, speed, hnew, hold⟩
    obtain ⟨v, hv, hvu, rfl⟩ := mem_speedsOf.1 hnew
    exact ⟨v, ⟨hv, hvu ▸ hold⟩, by rw [hvu]⟩

theorem mem_userTags_kept_iff :
    t ∈ userTags node old ∧ t ∉ userTags node (between old new).deleted ↔
      ∃ u ∈ old, userTag node u.uuid = t ∧ speedsOf old u.uuid ⊆ speedsOf new u.uuid := by
  constructor
  · rintro ⟨ht, hkept⟩
    obtain ⟨u, hu, rfl⟩ := mem_userTags.1 ht
    refine ⟨u, hu, rfl, fun speed hspeed => ?_⟩
    obtain ⟨v, hv, hvu, rfl⟩ := mem_speedsOf.1 hspeed
    apply Classical.byContradiction
    intro hdropped
    refine hkept (userTag_mem_userTags.2 ⟨v, mem_deleted.2 ⟨hv, fun hkey => hdropped ?_⟩, hvu⟩)
    exact hvu ▸ User.mem_keys_iff_speed.1 hkey
  · rintro ⟨u, hu, rfl, hspeeds⟩
    refine ⟨userTag_mem_userTags.2 ⟨u, hu, rfl⟩, fun hgone => ?_⟩
    obtain ⟨v, hv, hvu⟩ := userTag_mem_userTags.1 hgone
    obtain ⟨hvold, hdropped⟩ := mem_deleted.1 hv
    refine hdropped (User.mem_keys_iff_speed.2 (hvu ▸ hspeeds ?_))
    exact mem_speedsOf.2 ⟨v, hvold, hvu, rfl⟩

theorem mem_userTags_between_iff :
    (t ∈ userTags node old ∧ t ∉ userTags node (between old new).deleted) ∨
      t ∈ userTags node (between old new).added ↔
    ∃ u ∈ new, userTag node u.uuid = t ∧ ¬speedsOf new u.uuid ⊂ speedsOf old u.uuid := by
  rw [mem_userTags_kept_iff, mem_userTags_added_iff]
  constructor
  · rintro (⟨u, hu, rfl, hspeeds⟩ | ⟨u, hu, rfl, hnew⟩)
    · obtain ⟨v, hv, hvu, -⟩ := mem_speedsOf.1 (hspeeds (mem_speedsOf.2 ⟨u, hu, rfl, rfl⟩))
      exact ⟨v, hv, by rw [hvu], fun hfewer => hfewer.not_subset (hvu ▸ hspeeds)⟩
    · exact ⟨u, hu, rfl, fun hfewer => hnew hfewer.subset⟩
  · rintro ⟨u, hu, rfl, hspeeds⟩
    by_cases hnew : speedsOf new u.uuid ⊆ speedsOf old u.uuid
    · obtain ⟨v, hv, hvu, -⟩ := mem_speedsOf.1 (hnew (mem_speedsOf.2 ⟨u, hu, rfl, rfl⟩))
      refine .inl ⟨v, hv, by rw [hvu], ?_⟩
      rw [hvu]
      exact Classical.byContradiction fun hold => hspeeds ⟨hnew, hold⟩
    · exact .inr ⟨u, hu, rfl, hnew⟩

end UserDiff

namespace Core

variable {c : Core LocalEngine} {tag : String} {info : NodeInfo} {old new : List User}

/--
A listener with the users of the old list, whom the diff takes out and in: it then has the users of
the new list but for those whose speeds are some of their old ones and not all. So it has exactly
the new users if and only if there are none of these, as where no user is twice in the old list.
-/
theorem diff_reaches_iff (hserves : c.engine.Serves tag)
    (hold : ∀ t, t ∈ (c.engine.usersOf tag).keys ↔ t ∈ userTags tag old)
    (hbuilt : ∃ bindings,
      Binding.ofUsers info tag (UserDiff.between old new).added = .ok bindings) :
    let d := UserDiff.between old new
    ∃ c₁ c₂ n, c.delUsers tag d.deleted = (c₁, .ok ()) ∧
      c₁.addUsers tag info d.added = (c₂, .ok n) ∧
      (∀ t, t ∈ (c₂.engine.usersOf tag).keys ↔
        ∃ u ∈ new, userTag tag u.uuid = t ∧ ¬speedsOf new u.uuid ⊂ speedsOf old u.uuid) ∧
      ((∀ t, t ∈ (c₂.engine.usersOf tag).keys ↔ t ∈ userTags tag new) ↔
        ∀ u ∈ new, ¬speedsOf new u.uuid ⊂ speedsOf old u.uuid) ∧
      (Distinct old → ∀ t, t ∈ (c₂.engine.usersOf tag).keys ↔ t ∈ userTags tag new) := by
  intro d
  obtain ⟨c₁, hdel⟩ := delUsers_of_serves hserves d.deleted
  obtain ⟨hleft, -⟩ := delUsers_ok hdel
  obtain ⟨c₂, n, hadd⟩ := (addUsers_of_serves (hleft.serves _ hserves) info d.added).2 hbuilt
  obtain ⟨hcame, -⟩ := addUsers_ok hadd
  have hkeys : ∀ t, t ∈ (c₂.engine.usersOf tag).keys ↔
      ∃ u ∈ new, userTag tag u.uuid = t ∧ ¬speedsOf new u.uuid ⊂ speedsOf old u.uuid := fun t => by
    rw [(hleft.trans hcame).engine, hold, UserDiff.mem_userTags_between_iff]
  have hall : (∀ t, t ∈ (c₂.engine.usersOf tag).keys ↔ t ∈ userTags tag new) ↔
      ∀ u ∈ new, ¬speedsOf new u.uuid ⊂ speedsOf old u.uuid := by
    simp only [hkeys, mem_userTags]
    constructor
    · intro h u hu
      obtain ⟨v, -, hvu, hspeeds⟩ := (h (userTag tag u.uuid)).2 ⟨u, hu, rfl⟩
      rwa [userTag_inj.1 hvu] at hspeeds
    · intro h t
      constructor
      · rintro ⟨u, hu, ht, -⟩
        exact ⟨u, hu, ht⟩
      · rintro ⟨u, hu, ht⟩
        exact ⟨u, hu, ht, h u hu⟩
  exact ⟨c₁, c₂, n, hdel, hadd, hkeys, hall, fun hdistinct =>
    hall.2 fun u hu => not_ssubset_of_distinct hdistinct hu⟩

section Alice

def aliceTwice : List User := [⟨7, "alice", 1, 0⟩, ⟨7, "alice", 2, 0⟩]

def aliceInfo : NodeInfo := { id := 1, kind := .shadowsocks }

def aliceServed : Core LocalEngine :=
  ({ engine := {} } : Core LocalEngine).run
    [.addNode "node" aliceInfo, .addUsers "node" aliceInfo aliceTwice]

theorem aliceServed_serves : aliceServed.engine.Serves "node" := ⟨by decide, by decide⟩

theorem mem_aliceServed (t : String) :
    t ∈ (aliceServed.engine.usersOf "node").keys ↔ t ∈ userTags "node" aliceTwice := by
  have hkeys : (aliceServed.engine.usersOf "node").keys = ["node|alice"] := by decide
  have htags : userTags "node" aliceTwice = ["node|alice", "node|alice"] := by decide
  rw [hkeys, htags]
  simp

theorem alice_comes_back :
    let new : List User := [⟨7, "alice", 2, 0⟩, ⟨7, "alice", 3, 0⟩, ⟨8, "bob", 0, 0⟩]
    aliceServed.engine.Serves "node" ∧
      (∀ t, t ∈ (aliceServed.engine.usersOf "node").keys ↔ t ∈ userTags "node" aliceTwice) ∧
      ∃ c₁ c₂ n, aliceServed.delUsers "node" [⟨7, "alice", 1, 0⟩] = (c₁, .ok ()) ∧
        c₁.addUsers "node" aliceInfo [⟨7, "alice", 3, 0⟩, ⟨8, "bob", 0, 0⟩] = (c₂, .ok n) ∧
        ∀ t, t ∈ (c₂.engine.usersOf "node").keys ↔ t ∈ userTags "node" new := by
  intro new
  have hbuilt : ∃ bindings, Binding.ofUsers aliceInfo "node"
      (UserDiff.between aliceTwice new).added = .ok bindings := ⟨_, rfl⟩
  obtain ⟨c₁, c₂, n, hdel, hadd, -, hreaches, -⟩ :=
    diff_reaches_iff aliceServed_serves mem_aliceServed hbuilt
  exact ⟨aliceServed_serves, mem_aliceServed, c₁, c₂, n, hdel, hadd, hreaches.2 (by decide)⟩

theorem alice_lost_with_record :
    let new : List User := [⟨7, "alice", 1, 0⟩]
    let d := UserDiff.between aliceTwice new
    (aliceTwice.map User.key).Nodup ∧ (new.map User.key).Nodup ∧
      (∀ t, t ∈ (aliceServed.engine.usersOf "node").keys ↔ t ∈ userTags "node" aliceTwice) ∧
      ∃ c₁ c₂, aliceServed.delUsers "node" d.deleted = (c₁, .ok ()) ∧
        c₁.addUsers "node" aliceInfo d.added = (c₂, .ok 0) ∧
        userTags "node" new = ["node|alice"] ∧ (c₂.engine.usersOf "node").keys = [] :=
  ⟨by decide, by decide, mem_aliceServed, _, _, rfl, rfl, by decide, by decide⟩

end Alice

end Core

end NodeAgent
