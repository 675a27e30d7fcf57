import NodeAgent.Limit.Limiter
import NodeAgent.Proofs.Except
import NodeAgent.Proofs.Moves

/-! The limits that a node's users get, and those that they have after others came and went. -/

namespace NodeAgent

/-- The user's speed, in megabits, counts a number of bytes that fits a word. -/
def LimitDefaults.Fits (d : LimitDefaults) (u : User) : Prop :=
  (resolveLimit d.speedLimit u.speedLimit).toNat * 1000000 < UInt64.size

instance (d : LimitDefaults) (u : User) : Decidable (d.Fits u) := Nat.decLt ..

def UserLimit.Obeys (limit : UserLimit) (d : LimitDefaults) (u : User) : Prop :=
  if resolveLimit d.speedLimit u.speedLimit = 0 then limit.bucket = none
  else ∃ b, limit.bucket = some b ∧
    bytesPerSecond (resolveLimit d.speedLimit u.speedLimit) = .ok b.rate

theorem bytesPerSecond_of_fits {mbps : UInt64} (h : mbps.toNat * 1000000 < UInt64.size) :
    bytesPerSecond mbps = .ok (mbps * 1000000 / 8) := by
  have hword : (1000000 : UInt64).toNat = 1000000 := rfl
  rw [bytesPerSecond, Overflow.mul64, if_pos (hword ▸ h)]
  rfl

namespace Limiter

variable {l l' : Limiter} {now : Instant}

theorem userLimit_ok {u : User} {limit : UserLimit} (h : l.userLimit u now = .ok limit) :
    limit.Obeys l.defaults u := by
  unfold userLimit at h
  unfold UserLimit.Obeys
  by_cases hspeed : resolveLimit l.defaults.speedLimit u.speedLimit = 0
  · rw [if_pos hspeed]
    simp only [hspeed, if_true] at h
    cases h
    rfl
  · rw [if_neg hspeed]
    simp only [hspeed, if_false] at h
    cases hrate : bytesPerSecond (resolveLimit l.defaults.speedLimit u.speedLimit) with
    | error o =>
      rw [hrate] at h
      cases h
    | ok rate =>
      rw [hrate] at h
      cases h
      exact ⟨Bucket.new rate now, rfl, rfl⟩

theorem userLimit_of_fits {u : User} (now : Instant) (h : l.defaults.Fits u) :
    ∃ limit, l.userLimit u now = .ok limit := by
  unfold userLimit
  by_cases hspeed : resolveLimit l.defaults.speedLimit u.speedLimit = 0
  · simp only [hspeed, if_true]
    exact ⟨_, rfl⟩
  · simp only [hspeed, if_false, bytesPerSecond_of_fits h]
    exact ⟨_, rfl⟩

theorem tagged_userLimit_ok {u : User} {e : String × UserLimit}
    (h : (l.userLimit u now).map (userTag l.tag u.uuid, ·) = .ok e) :
    e.1 = userTag l.tag u.uuid ∧ e.2.Obeys l.defaults u := by
  cases hu : l.userLimit u now with
  | error o =>
    rw [hu] at h
    cases h
  | ok limit =>
    rw [hu] at h
    cases h
    exact ⟨rfl, userLimit_ok hu⟩

structure Updated (l l' : Limiter) (come gone : List User) : Prop where
  tag : l'.tag = l.tag
  defaults : l'.defaults = l.defaults
  keys : ∀ t, t ∈ l'.users.keys ↔
    (t ∈ l.users.keys ∧ t ∉ userTags l.tag gone) ∨ t ∈ userTags l.tag come
  kept : ∀ t, t ∉ userTags l.tag gone → t ∉ userTags l.tag come →
    l'.users.find? t = l.users.find? t
  new : (come.map (·.uuid)).Nodup → ∀ u ∈ come,
    ∃ limit, l'.users.find? (userTag l.tag u.uuid) = some limit ∧ limit.Obeys l.defaults u

theorem Updated.refl (l : Limiter) : Updated l l [] [] where
  tag := rfl
  defaults := rfl
  keys := by simp [userTags]
  kept := fun _ _ _ => rfl
  new := fun _ _ hu => absurd hu List.not_mem_nil

theorem nodup_userTags {tag : String} {users : List User} (h : (users.map (·.uuid)).Nodup) :
    (userTags tag users).Nodup := by
  have hmap : userTags tag users = (users.map (·.uuid)).map (userTag tag) := by
    simp [userTags]
  rw [hmap]
  exact List.Pairwise.map _ (fun a b hne h => hne (userTag_inj.1 h)) h

theorem update_ok {come gone : List User} (h : l.update come gone now = .ok l') :
    Updated l l' come gone := by
  unfold update at h
  cases hm : come.mapM fun u => (l.userLimit u now).map (userTag l.tag u.uuid, ·) with
  | error o =>
    rw [hm] at h
    cases h
  | ok limits =>
    rw [hm] at h
    cases h
    have htags : limits.map Prod.fst = userTags l.tag come :=
      map_eq_of_mapM_ok (fun _ _ hu => (tagged_userLimit_ok hu).1) hm
    refine ⟨rfl, rfl, fun t => ?_, fun t hg hc => ?_, fun hnodup u hu => ?_⟩
    · rw [Table.mem_keys_insertMany, Table.mem_keys_eraseMany, htags]
      rfl
    · refine (Table.find?_insertMany_of_notMem _ _ (htags ▸ hc)).trans ?_
      exact (Table.find?_eraseMany ..).trans (if_neg hg)
    · obtain ⟨⟨t, limit⟩, hmem, hlimit⟩ := exists_of_mapM_ok hm hu
      obtain ⟨rfl, hobeys⟩ := tagged_userLimit_ok hlimit
      exact ⟨limit, Table.find?_insertMany_of_mem _ (htags ▸ nodup_userTags hnodup) hmem, hobeys⟩

theorem update_of_fits {come : List User} (gone : List User) (now : Instant)
    (h : ∀ u ∈ come, l.defaults.Fits u) :
    ∃ l', l.update come gone now = .ok l' := by
  unfold update
  cases hm : come.mapM fun u => (l.userLimit u now).map (userTag l.tag u.uuid, ·) with
  | error o =>
    obtain ⟨u, hu, herror⟩ := exists_of_mapM_error hm
    obtain ⟨limit, hlimit⟩ := userLimit_of_fits now (h u hu)
    rw [hlimit] at herror
    cases herror
  | ok limits => exact ⟨_, rfl⟩

end Limiter

end NodeAgent
