import NodeAgent.Proofs.Limits
import NodeAgent.Session

/-!
A sync brings a node from one user list to another. `Session.Synced` says everything that the
panel's list can do to a node with a listener: it is taken over, or refused after the departures, or
its limits are out of range.
-/

namespace NodeAgent

abbrev Distinct (users : List User) : Prop := (users.map (·.uuid)).Nodup

theorem eq_of_uuid_eq {users : List User} (h : Distinct users) {u v : User} (hu : u ∈ users)
    (hv : v ∈ users) (huv : u.uuid = v.uuid) : u = v := by
  induction users with
  | nil => cases hu
  | cons w r ih =>
    obtain ⟨hw, hr⟩ := List.nodup_cons.1 h
    rcases List.mem_cons.1 hu with hu | hu <;> rcases List.mem_cons.1 hv with hv | hv
    · rw [hu, hv]
    · exact absurd (List.mem_map.2 ⟨v, hv, huv.symm.trans (hu ▸ rfl)⟩) hw
    · exact absurd (List.mem_map.2 ⟨u, hu, huv.trans (hv ▸ rfl)⟩) hw
    · exact ih hr hu hv

namespace User

theorem key_eq_iff {u v : User} : u.key = v.key ↔ u.uuid = v.uuid ∧ u.speedLimit = v.speedLimit := by
  rw [key, key, Prod.mk.injEq]

theorem mem_keys_iff {k : String × UInt64} {users : List User} :
    k ∈ users.map key ↔ ∃ u ∈ users, u.key = k := List.mem_map

end User

namespace UserDiff

variable {old new : List User}

theorem mem_deleted {u : User} :
    u ∈ (between old new).deleted ↔ u ∈ old ∧ u.key ∉ new.map User.key := by
  simp [between]

theorem mem_added {u : User} :
    u ∈ (between old new).added ↔ u ∈ new ∧ u.key ∉ old.map User.key := by
  simp [between]

theorem distinct_added (h : Distinct new) : Distinct (between old new).added :=
  h.sublist (List.filter_sublist.map _)

theorem mem_userTags_new {node t : String} (ht : t ∈ userTags node old)
    (hd : t ∉ userTags node (between old new).deleted) : t ∈ userTags node new := by
  obtain ⟨u, hu, rfl⟩ := mem_userTags.1 ht
  by_cases hkey : u.key ∈ new.map User.key
  · obtain ⟨v, hv, hvu⟩ := User.mem_keys_iff.1 hkey
    exact userTag_mem_userTags.2 ⟨v, hv, (User.key_eq_iff.1 hvu).1⟩
  · exact absurd (userTag_mem_userTags.2 ⟨u, mem_deleted.2 ⟨hu, hkey⟩, rfl⟩) hd

theorem mem_userTags_of_added {node t : String}
    (ht : t ∈ userTags node (between old new).added) : t ∈ userTags node new := by
  obtain ⟨u, hu, rfl⟩ := mem_userTags.1 ht
  exact userTag_mem_userTags.2 ⟨u, (mem_added.1 hu).1, rfl⟩

theorem mem_userTags_of_deleted {node t : String}
    (ht : t ∈ userTags node (between old new).deleted) : t ∈ userTags node old := by
  obtain ⟨u, hu, rfl⟩ := mem_userTags.1 ht
  exact userTag_mem_userTags.2 ⟨u, (mem_deleted.1 hu).1, rfl⟩

theorem notMem_deleted_of_kept (h : Distinct old) {node : String} {u : User} (hu : u ∈ old)
    (hkey : u.key ∈ new.map User.key) :
    userTag node u.uuid ∉ userTags node (between old new).deleted := by
  intro hd
  obtain ⟨w, hw, hwu⟩ := userTag_mem_userTags.1 hd
  obtain ⟨hwold, hwnew⟩ := mem_deleted.1 hw
  exact hwnew (eq_of_uuid_eq h hwold hu hwu ▸ hkey)

theorem notMem_added_of_kept (h : Distinct new) {node : String} {u : User} (hu : u ∈ new)
    (hkey : u.key ∈ old.map User.key) :
    userTag node u.uuid ∉ userTags node (between old new).added := by
  intro ha
  obtain ⟨w, hw, hwu⟩ := userTag_mem_userTags.1 ha
  obtain ⟨hwnew, hwold⟩ := mem_added.1 hw
  exact hwold (eq_of_uuid_eq h hwnew hu hwu ▸ hkey)

theorem mem_userTags_between (h : Distinct old) {node t : String} :
    (t ∈ userTags node old ∧ t ∉ userTags node (between old new).deleted) ∨
      t ∈ userTags node (between old new).added ↔ t ∈ userTags node new := by
  constructor
  · rintro (⟨ht, hd⟩ | ht)
    · exact mem_userTags_new ht hd
    · exact mem_userTags_of_added ht
  · intro ht
    obtain ⟨v, hv, rfl⟩ := mem_userTags.1 ht
    by_cases hkey : v.key ∈ old.map User.key
    · obtain ⟨u, hu, huv⟩ := User.mem_keys_iff.1 hkey
      have huuid : u.uuid = v.uuid := (User.key_eq_iff.1 huv).1
      have hkept : u.key ∈ new.map User.key := User.mem_keys_iff.2 ⟨v, hv, huv.symm⟩
      refine .inl ⟨userTag_mem_userTags.2 ⟨u, hu, huuid⟩, ?_⟩
      exact huuid ▸ notMem_deleted_of_kept h hu hkept
    · exact .inr (userTag_mem_userTags.2 ⟨v, mem_added.2 ⟨hv, hkey⟩, rfl⟩)

theorem isEmpty_iff {d : UserDiff} : d.isEmpty = true ↔ d.deleted = [] ∧ d.added = [] := by
  simp [isEmpty, List.isEmpty_iff]

end UserDiff

namespace Core

variable {c c' : Core LocalEngine} {tag : String} {d : UserDiff}

theorem departures_ok {users : List User}
    (h : (if users.isEmpty then (c, .ok ()) else c.delUsers tag users) = (c', .ok ())) :
    Moved c c' tag users [] ∧ c'.limiters = c.limiters := by
  split at h
  next hempty =>
    obtain ⟨rfl, -⟩ := Prod.mk.inj h
    rw [List.isEmpty_iff.1 hempty]
    exact ⟨Moved.refl c tag, rfl⟩
  · exact delUsers_ok h

theorem arrivals_ok {users : List User} {info : NodeInfo} {n : Nat}
    (h : (if users.isEmpty then (c, .ok 0) else c.addUsers tag info users) = (c', .ok n)) :
    Moved c c' tag [] users ∧ c'.limiters = c.limiters := by
  split at h
  next hempty =>
    obtain ⟨rfl, -⟩ := Prod.mk.inj h
    rw [List.isEmpty_iff.1 hempty]
    exact ⟨Moved.refl c tag, rfl⟩
  · exact addUsers_ok h

structure LimitsFollow (c c' : Core LocalEngine) (tag : String) (d : UserDiff) : Prop where
  node : ∀ l, c.limiters.find? tag = some l →
    ∃ l', c'.limiters.find? tag = some l' ∧ Limiter.Updated l l' d.added d.deleted
  elsewhere : ∀ n, n ≠ tag → c'.limiters.find? n = c.limiters.find? n

theorem LimitsFollow.refl (c : Core LocalEngine) (tag : String) : LimitsFollow c c tag ⟨[], []⟩ where
  node := fun l hl => ⟨l, hl, Limiter.Updated.refl l⟩
  elsewhere := fun _ _ => rfl

theorem updateLimiter_fields {r : Except Overflow Unit} (h : c.updateLimiter tag d = (c', r)) :
    c' = { c with limiters := c'.limiters } := by
  unfold updateLimiter at h
  split at h
  · obtain ⟨rfl, -⟩ := Prod.mk.inj h
    rfl
  · split at h <;> (obtain ⟨rfl, -⟩ := Prod.mk.inj h; rfl)

theorem updateLimiter_ok (h : c.updateLimiter tag d = (c', .ok ())) : LimitsFollow c c' tag d := by
  unfold updateLimiter at h
  split at h
  next hnone =>
    obtain ⟨rfl, -⟩ := Prod.mk.inj h
    exact ⟨fun l hl => by simp [hnone] at hl, fun _ _ => rfl⟩
  next l hl =>
    split at h
    · simp at h
    next l' hupdate =>
      obtain ⟨rfl, -⟩ := Prod.mk.inj h
      refine ⟨fun l₁ hl₁ => ?_, fun n hn => Table.find?_insert_of_ne _ _ hn⟩
      obtain rfl : l = l₁ := Option.some.inj (hl.symm.trans hl₁)
      exact ⟨l', Table.find?_insert_self .., Limiter.update_ok hupdate⟩

theorem updateLimiter_error {o : Overflow} (h : c.updateLimiter tag d = (c', .error o)) :
    c' = c ∧ ∃ l, c.limiters.find? tag = some l ∧ ∃ u ∈ d.added, ¬l.defaults.Fits u := by
  unfold updateLimiter at h
  split at h
  · simp at h
  next l hl =>
    split at h
    next hupdate =>
      refine ⟨(Prod.mk.inj h).1.symm, l, hl, ?_⟩
      apply Classical.byContradiction
      intro hall
      have hfits : ∀ u ∈ d.added, l.defaults.Fits u := fun u hu =>
        Classical.byContradiction fun hu' => hall ⟨u, hu, hu'⟩
      obtain ⟨l', hl'⟩ := Limiter.update_of_fits d.deleted c.now hfits
      rw [hl'] at hupdate
      cases hupdate
    · simp at h

theorem Moved.with_limiters {c₁ : Core LocalEngine} {gone come : List User}
    (h : Moved c c₁ tag gone come) (hc' : c' = { c₁ with limiters := c'.limiters }) :
    Moved c c' tag gone come := by
  rw [hc']
  exact { h with }

end Core

namespace Session

variable {s : Session} {c c' : Core LocalEngine} {d : UserDiff}

theorem applyDiff_not_failure {r : Except Fault Unit} (h : s.applyDiff c d = (c', r))
    (hr : ∀ f, r ≠ .error (.failure f)) :
    ∃ c₁ r₁, Core.Moved c c₁ s.tag d.deleted d.added ∧ c₁.limiters = c.limiters ∧
      c₁.updateLimiter s.tag d = (c', r₁) ∧ r = r₁.mapError .overflow := by
  unfold applyDiff at h
  split at h
  next f _ => exact absurd (Prod.mk.inj h).2.symm (hr f)
  next c₁ hdel =>
    obtain ⟨hleft, hlimits⟩ := Core.departures_ok hdel
    split at h
    next f _ => exact absurd (Prod.mk.inj h).2.symm (hr f)
    next c₂ n hadd =>
      obtain ⟨hcame, hlimits'⟩ := Core.arrivals_ok hadd
      obtain ⟨rfl, rfl⟩ := Prod.mk.inj h
      exact ⟨c₂, _, hleft.trans hcame, hlimits'.trans hlimits, rfl, rfl⟩

theorem applyDiff_failure {f : Failure} (h : s.applyDiff c d = (c', .error (.failure f)))
    (hserves : c.engine.Serves s.tag) :
    Core.Moved c c' s.tag d.deleted [] ∧ c'.limiters = c.limiters := by
  unfold applyDiff at h
  split at h
  next f' hdel =>
    split at hdel
    · simp at hdel
    · exact absurd hserves (Core.delUsers_error hdel)
  next c₁ hdel =>
    obtain ⟨hleft, hlimits⟩ := Core.departures_ok hdel
    split at h
    next f' hadd =>
      split at hadd
      · simp at hadd
      · obtain ⟨rfl, -⟩ := Prod.mk.inj h
        rw [(Core.addUsers_error hadd (hleft.serves _ hserves)).1]
        exact ⟨hleft, hlimits⟩
    next c₂ n hadd =>
      -- a limiter may overflow, but it does not fail
      rcases hup : c₂.updateLimiter s.tag d with ⟨c₃, o | u⟩ <;>
        simp [hup, mapError_ok, mapError_error] at h

theorem afterUsers_ok {users : List User} {s' : Session}
    (h : s.afterUsers c (.ok (some users)) = ⟨s', c', .finished (.ok ())⟩) :
    let d := UserDiff.between s.users users
    s' = { s with users } ∧ Core.Moved c c' s.tag d.deleted d.added ∧
      Core.LimitsFollow c c' s.tag d := by
  intro d
  simp only [afterUsers] at h
  split at h
  next c₁ hdiff =>
    obtain ⟨rfl, rfl, -⟩ := Advance.mk.inj h
    refine ⟨rfl, ?_⟩
    split at hdiff
    next hempty =>
      obtain ⟨rfl, -⟩ := Prod.mk.inj hdiff
      obtain ⟨hdel, hadd⟩ := UserDiff.isEmpty_iff.1 hempty
      have hd : d = ⟨[], []⟩ := congr (congrArg UserDiff.mk hdel) hadd
      rw [hd]
      exact ⟨Core.Moved.refl c s.tag, Core.LimitsFollow.refl c s.tag⟩
    · obtain ⟨c₂, r, hmoved, hlimits, hup, hr⟩ :=
        applyDiff_not_failure hdiff (fun _ hf => by cases hf)
      cases r with
      | error o => cases hr
      | ok u =>
        obtain ⟨hnode, helse⟩ := Core.updateLimiter_ok hup
        rw [hlimits] at hnode helse
        exact ⟨hmoved.with_limiters (Core.updateLimiter_fields hup), hnode, helse⟩
  next => simp at h
  next => simp at h

inductive Synced (s : Session) (c : Core LocalEngine) (users : List User) :
    Advance LocalEngine → Prop
  | taken (c' : Core LocalEngine)
      (moved : Core.Moved c c' s.tag (UserDiff.between s.users users).deleted
        (UserDiff.between s.users users).added)
      (limits : Core.LimitsFollow c c' s.tag (UserDiff.between s.users users)) :
      Synced s c users ⟨{ s with users }, c', .finished (.ok ())⟩
  | refused (f : Failure) (c' : Core LocalEngine)
      (moved : Core.Moved c c' s.tag (UserDiff.between s.users users).deleted [])
      (limits : c'.limiters = c.limiters) :
      Synced s c users ⟨s, c', .ask (.invalidate f)⟩
  | overflowed (o : Overflow) (c' : Core LocalEngine)
      (moved : Core.Moved c c' s.tag (UserDiff.between s.users users).deleted
        (UserDiff.between s.users users).added)
      (limits : c'.limiters = c.limiters)
      (unfit : ∃ l, c.limiters.find? s.tag = some l ∧ ∃ u ∈ users, ¬l.defaults.Fits u) :
      Synced s c users ⟨s, c', .finished (.error (.overflow o))⟩

theorem Synced.moved {users : List User} {r : Advance LocalEngine} (h : Synced s c users r) :
    r.session.tag = s.tag ∧ ∃ come, Core.Moved c r.core s.tag
      (UserDiff.between s.users users).deleted come := by
  cases h with
  | taken c' moved => exact ⟨rfl, _, moved⟩
  | refused f c' moved => exact ⟨rfl, _, moved⟩
  | overflowed o c' moved => exact ⟨rfl, _, moved⟩

theorem afterUsers_synced {users : List User} (hserves : c.engine.Serves s.tag) :
    Synced s c users (s.afterUsers c (.ok (some users))) := by
  rcases hend : s.afterUsers c (.ok (some users)) with ⟨s', c', p⟩
  have h := hend
  simp only [afterUsers] at h
  split at h
  · obtain ⟨-, -, rfl⟩ := Advance.mk.inj h
    obtain ⟨rfl, hmoved, hlimits⟩ := afterUsers_ok hend
    exact .taken c' hmoved hlimits
  next c₁ f hdiff =>
    obtain ⟨rfl, rfl, rfl⟩ := Advance.mk.inj h
    split at hdiff
    · simp at hdiff
    · obtain ⟨hmoved, hlimits⟩ := applyDiff_failure hdiff hserves
      exact .refused f c₁ hmoved hlimits
  next c₁ o hdiff =>
    obtain ⟨rfl, rfl, rfl⟩ := Advance.mk.inj h
    split at hdiff
    · simp at hdiff
    · obtain ⟨c₂, r, hmoved, hlimits, hup, hr⟩ :=
        applyDiff_not_failure hdiff (fun _ hf => by cases hf)
      cases r with
      | ok u => cases hr
      | error o' =>
        obtain ⟨rfl, l, hl, u, hu, hfits⟩ := Core.updateLimiter_error hup
        exact .overflowed o c₁ hmoved hlimits
          ⟨l, hlimits ▸ hl, u, (UserDiff.mem_added.1 hu).1, hfits⟩

end Session

end NodeAgent
