import NodeAgent.Proofs.Records

/-!
What a limiter is asked over time, and by which record of the panel each user is known to it: the
one that came last, unless the user went after it.
-/

namespace NodeAgent

inductive LimiterCall
  | check (user ip : String)
  | devices
  | userCount
  | setAlive (alive : AliveCounts)
  | update (added deleted : List User)

inductive LimiterReply
  | verdict (v : Limiter.Verdict)
  | devices (online : List OnlineDevice)
  | count (users : Nat)
  | done
  | overflow (o : Overflow)

structure TimedCall where
  instant : Instant
  call : LimiterCall

abbrev Roster := Table String User

def Roster.update (tag : String) (r : Roster) (added deleted : List User) : Roster :=
  (r.eraseMany (userTags tag deleted)).insertMany (added.map fun u => (userTag tag u.uuid, u))

def LimitDefaults.deviceLimitOf (d : LimitDefaults) (u : User) : UInt32 :=
  resolveLimit d.deviceLimit u.deviceLimit

theorem Sightings.size_recent_le (s : Sightings) (now : Instant) : (s.recent now).size ≤ s.size :=
  Table.size_filter_le ..

namespace Limiter

/-- An update that fails leaves everything as it was. -/
def serve (l : Limiter) (now : Instant) : LimiterCall → Limiter × LimiterReply
  | .check user ip =>
    let (l, v) := l.check user ip now
    (l, .verdict v)
  | .devices =>
    let (l, online) := l.onlineDevices now
    (l, .devices online)
  | .userCount => (l, .count l.users.size)
  | .setAlive alive => (l.setAlive alive, .done)
  | .update added deleted =>
    match l.update added deleted now with
    | .ok l => (l, .done)
    | .error o => (l, .overflow o)

def run (l : Limiter) (calls : List TimedCall) : Limiter :=
  calls.foldl (fun l c => (l.serve c.instant c.call).1) l

def enroll (l : Limiter) (r : Roster) (c : TimedCall) : Roster :=
  match c.call with
  | .update added deleted =>
    match l.update added deleted c.instant with
    | .ok _ => r.update l.tag added deleted
    | .error _ => r
  | _ => r

def rosterAfter (l : Limiter) (r : Roster) : List TimedCall → Roster
  | [] => r
  | c :: calls => (l.serve c.instant c.call).1.rosterAfter (l.enroll r c) calls

def sightings (l : Limiter) (user : String) : Sightings := (l.online.find? user).getD ∅

def here (l : Limiter) (user : String) (now : Instant) : Sightings := (l.sightings user).recent now

def see (l : Limiter) (user : String) (s : Sightings) : Limiter :=
  { l with online := l.online.insert user s }

variable {l l' : Limiter} {user ip : String} {now : Instant}

theorem sightings_see (l : Limiter) (user : String) (s : Sightings) (t : String) :
    (l.see user s).sightings t = if t = user then s else l.sightings t := by
  rw [sightings, see, Table.find?_insert]
  split <;> rfl

theorem mem_keys_see (l : Limiter) (user : String) (s : Sightings) (t : String) :
    t ∈ (l.see user s).online.keys ↔ t = user ∨ t ∈ l.online.keys :=
  Table.mem_keys_insert ..

inductive Checking (l : Limiter) (user ip : String) (now : Instant) : Limiter × Verdict → Prop
  | unknown (none : l.users.find? user = none) :
      Checking l user ip now (l, .refused (.unknownUser user))
  | entered {limit : UserLimit} (found : l.users.find? user = some limit)
      (room : limit.deviceLimit = 0 ∨ ip ∈ (l.here user now).keys ∨
        ∃ n, l.deviceCount limit.uid (l.here user now) = .ok n ∧ n < limit.deviceLimit) :
      Checking l user ip now (l.see user ((l.here user now).insert ip now), .admitted limit.bucket)
  | full {limit : UserLimit} {n : UInt32} (found : l.users.find? user = some limit)
      (limited : limit.deviceLimit ≠ 0) (new : ip ∉ (l.here user now).keys)
      (count : l.deviceCount limit.uid (l.here user now) = .ok n) (taken : limit.deviceLimit ≤ n) :
      Checking l user ip now
        (l.see user (l.here user now), .refused (.deviceLimit limit.uid limit.deviceLimit))
  | overflow {limit : UserLimit} {o : Overflow} (found : l.users.find? user = some limit)
      (limited : limit.deviceLimit ≠ 0) (new : ip ∉ (l.here user now).keys)
      (count : l.deviceCount limit.uid (l.here user now) = .error o) :
      Checking l user ip now (l.see user (l.here user now), .overflow o)

theorem checking (l : Limiter) (user ip : String) (now : Instant) :
    Checking l user ip now (l.check user ip now) := by
  unfold check
  split
  next hnone => exact .unknown hnone
  next limit hfound =>
    dsimp only
    rw [← sightings, ← here]
    simp only [Table.contains_iff]
    split
    next hmay => exact .entered hfound (hmay.imp_right .inl)
    next hmay =>
      obtain ⟨hlimited, hnew⟩ := not_or.1 hmay
      split
      next o hcount => exact .overflow hfound hlimited hnew hcount
      next n hcount =>
        split
        next hover => exact .full hfound hlimited hnew hcount hover
        next hover => exact .entered hfound (.inr (.inr ⟨n, hcount, UInt32.not_le.1 hover⟩))

theorem check_frame (l : Limiter) (user ip : String) (now : Instant) :
    let l' := (l.check user ip now).1
    l'.tag = l.tag ∧ l'.defaults = l.defaults ∧ l'.users = l.users ∧ l'.alive = l.alive := by
  have hchecking := checking l user ip now
  generalize l.check user ip now = p at hchecking ⊢
  cases hchecking <;> exact ⟨rfl, rfl, rfl, rfl⟩

theorem update_eq {added deleted : List User} (h : l.update added deleted now = .ok l') :
    ∃ limits, (added.mapM fun u => (l.userLimit u now).map (userTag l.tag u.uuid, ·)) = .ok limits ∧
      l' = { l with
        users := (l.users.eraseMany (userTags l.tag deleted)).insertMany limits
        online := l.online.eraseMany (userTags l.tag deleted) } := by
  unfold update at h
  obtain ⟨limits, hlimits, hl'⟩ := exists_of_bind_eq_ok h
  exact ⟨limits, hlimits, (Except.ok.inj hl').symm⟩

theorem sightings_update {added deleted : List User} (h : l.update added deleted now = .ok l')
    (t : String) :
    l'.sightings t = if t ∈ userTags l.tag deleted then ∅ else l.sightings t := by
  obtain ⟨limits, -, rfl⟩ := update_eq h
  rw [sightings, Table.find?_eraseMany]
  split <;> rfl

theorem find?_pruned (l : Limiter) (now : Instant) (t : String) : (l.pruned now).find? t =
    if l.users.contains t && !(l.here t now).isEmpty then some (l.here t now) else none := by
  rw [pruned, Table.find?_filter, Table.find?_map, here, sightings]
  cases l.online.find? t with
  | none =>
    have hempty : (Sightings.recent ∅ now).isEmpty = true := rfl
    rw [Option.getD_none, hempty, Bool.not_true, Bool.and_false]
    rfl
  | some s => rw [Option.map_some, Option.filter_some, Option.getD_some]

theorem mem_keys_pruned {t : String} (h : t ∈ (l.pruned now).keys) : t ∈ l.users.keys := by
  obtain ⟨s, hs⟩ := (Table.mem_keys_iff ..).1 h
  rw [find?_pruned] at hs
  split at hs
  next hkept => exact (Table.contains_iff ..).1 (Bool.and_eq_true_iff.1 hkept).1
  · cases hs

theorem sightings_pruned_size_le (l : Limiter) (now : Instant) (t : String) :
    (({ l with online := l.pruned now } : Limiter).sightings t).size ≤ (l.sightings t).size := by
  rw [sightings, sightings, pruned, Table.find?_filter, Table.find?_map]
  cases l.online.find? t with
  | none => exact Nat.le_refl _
  | some s =>
    rw [Option.map_some, Option.filter_some]
    split
    · exact s.size_recent_le now
    · exact Nat.zero_le _

theorem serve_frame (l : Limiter) (c : TimedCall) :
    (l.serve c.instant c.call).1.tag = l.tag ∧
      (l.serve c.instant c.call).1.defaults = l.defaults := by
  rcases c with ⟨now, call⟩
  cases call with
  | check user ip =>
    obtain ⟨htag, hdefaults, -, -⟩ := l.check_frame user ip now
    exact ⟨htag, hdefaults⟩
  | devices => exact ⟨rfl, rfl⟩
  | userCount => exact ⟨rfl, rfl⟩
  | setAlive alive => exact ⟨rfl, rfl⟩
  | update added deleted =>
    rw [serve]
    cases hupdate : l.update added deleted now with
    | error o => exact ⟨rfl, rfl⟩
    | ok l' =>
      obtain ⟨limits, -, rfl⟩ := update_eq hupdate
      exact ⟨rfl, rfl⟩

theorem run_frame (l : Limiter) (calls : List TimedCall) :
    (l.run calls).tag = l.tag ∧ (l.run calls).defaults = l.defaults := by
  induction calls generalizing l with
  | nil => exact ⟨rfl, rfl⟩
  | cons c calls ih =>
    obtain ⟨htag, hdefaults⟩ := l.serve_frame c
    obtain ⟨htag', hdefaults'⟩ := ih (l.serve c.instant c.call).1
    exact ⟨htag'.trans htag, hdefaults'.trans hdefaults⟩

def Known (l : Limiter) : Prop := ∀ t ∈ l.online.keys, t ∈ l.users.keys

theorem known_of_nobody (h : l.online = ∅) : l.Known := by
  intro t ht
  rw [h] at ht
  cases ht

namespace Known

theorem see (h : l.Known) (known : user ∈ l.users.keys) (s : Sightings) :
    (l.see user s).Known := by
  intro t ht
  rcases (l.mem_keys_see user s t).1 ht with rfl | hold
  · exact known
  · exact h t hold

theorem check (h : l.Known) (user ip : String) (now : Instant) :
    (l.check user ip now).1.Known := by
  have hchecking := checking l user ip now
  generalize l.check user ip now = p at hchecking ⊢
  cases hchecking with
  | unknown => exact h
  | entered found => exact h.see ((Table.mem_keys_iff ..).2 ⟨_, found⟩) _
  | full found => exact h.see ((Table.mem_keys_iff ..).2 ⟨_, found⟩) _
  | overflow found => exact h.see ((Table.mem_keys_iff ..).2 ⟨_, found⟩) _

theorem update (h : l.Known) {added deleted : List User}
    (hupdate : l.update added deleted now = .ok l') : l'.Known := by
  intro t ht
  rw [(update_ok hupdate).keys]
  obtain ⟨limits, -, rfl⟩ := update_eq hupdate
  obtain ⟨hold, hstays⟩ := (Table.mem_keys_eraseMany ..).1 ht
  exact .inl ⟨h t hold, hstays⟩

theorem serve (h : l.Known) (c : TimedCall) : (l.serve c.instant c.call).1.Known := by
  rcases c with ⟨now, call⟩
  cases call with
  | check user ip => exact h.check user ip now
  | devices => exact fun t ht => mem_keys_pruned (l := l) ht
  | userCount => exact h
  | setAlive alive => exact h
  | update added deleted =>
    rw [Limiter.serve]
    cases hupdate : l.update added deleted now with
    | error o => exact h
    | ok l' => exact h.update hupdate

theorem run (h : l.Known) (calls : List TimedCall) : (l.run calls).Known := by
  induction calls generalizing l with
  | nil => exact h
  | cons c calls ih => exact ih (h.serve c)

end Known

def Mirrors (l : Limiter) (r : Roster) : Prop :=
  ∀ t, l.limitsOf t = (r.find? t).map fun u => (u.id, l.defaults.deviceLimitOf u)

theorem Mirrors.mem_keys {r : Roster} (h : l.Mirrors r) (t : String) :
    t ∈ l.users.keys ↔ t ∈ r.keys := by
  have hsame := congrArg Option.isSome (h t)
  rw [limitsOf, Option.isSome_map, Option.isSome_map] at hsame
  rw [← Table.contains_iff, ← Table.contains_iff, Table.contains, Table.contains, hsame]

theorem Mirrors.exists_record {r : Roster} (h : l.Mirrors r) {t : String} {limit : UserLimit}
    (found : l.users.find? t = some limit) : ∃ u, r.find? t = some u ∧ limit.uid = u.id ∧
      limit.deviceLimit = l.defaults.deviceLimitOf u := by
  have hlimits := h t
  rw [limitsOf, found, Option.map_some] at hlimits
  obtain ⟨u, hu, hlimit⟩ := Option.map_eq_some_iff.1 hlimits.symm
  obtain ⟨hid, hdevices⟩ := Prod.mk.inj hlimit
  exact ⟨u, hu, hid.symm, hdevices.symm⟩

theorem Mirrors.exists_limit {r : Roster} (h : l.Mirrors r) {t : String} {u : User}
    (hu : r.find? t = some u) : ∃ limit, l.users.find? t = some limit ∧ limit.uid = u.id ∧
      limit.deviceLimit = l.defaults.deviceLimitOf u := by
  have hlimits := h t
  rw [hu, Option.map_some] at hlimits
  obtain ⟨limit, found, hlimit⟩ := Option.map_eq_some_iff.1 hlimits
  obtain ⟨hid, hdevices⟩ := Prod.mk.inj hlimit
  exact ⟨limit, found, hid, hdevices⟩

theorem Mirrors.update {r : Roster} {added deleted : List User} (h : l.Mirrors r)
    (hupdate : l.update added deleted now = .ok l') :
    l'.Mirrors (r.update l.tag added deleted) := by
  obtain ⟨limits, hlimits, rfl⟩ := update_eq hupdate
  have hleft : ∀ k, ((l.users.eraseMany (userTags l.tag deleted)).find? k).map
      (fun limit => (limit.uid, limit.deviceLimit)) =
        ((r.eraseMany (userTags l.tag deleted)).find? k).map
          fun u => (u.id, l.defaults.deviceLimitOf u) := by
    intro k
    rw [Table.find?_eraseMany, Table.find?_eraseMany]
    split
    · rfl
    · exact h k
  -- those who come are entered one by one, in both under their tags and in the same order
  refine Table.map_find?_insertMany hleft ?_
  · rw [List.map_map]
    refine map_eq_of_mapM_ok (fun u e he => ?_) hlimits
    cases hlimit : l.userLimit u now with
    | error o =>
      rw [hlimit] at he
      cases he
    | ok limit =>
      rw [hlimit] at he
      cases he
      obtain ⟨huid, hdevices⟩ := userLimit_record hlimit
      simp only [Function.comp_apply, huid, hdevices, LimitDefaults.deviceLimitOf]

theorem Mirrors.serve {r : Roster} (h : l.Mirrors r) (c : TimedCall) :
    (l.serve c.instant c.call).1.Mirrors (l.enroll r c) := by
  rcases c with ⟨now, call⟩
  cases call with
  | check user ip =>
    obtain ⟨-, hdefaults, husers, -⟩ := l.check_frame user ip now
    intro t
    rw [limitsOf, Limiter.serve, husers, hdefaults]
    exact h t
  | devices => exact h
  | userCount => exact h
  | setAlive alive => exact h
  | update added deleted =>
    rw [Limiter.serve, enroll]
    dsimp only
    cases hupdate : l.update added deleted now with
    | error o => exact h
    | ok l' => exact h.update hupdate

theorem Mirrors.run {r : Roster} (h : l.Mirrors r) (calls : List TimedCall) :
    (l.run calls).Mirrors (l.rosterAfter r calls) := by
  induction calls generalizing l r with
  | nil => exact h
  | cons c calls ih => exact ih (h.serve c)

section OfUsers

variable {tag : String} {d : LimitDefaults} {users : List User} {alive : AliveCounts}

theorem ofUsers_eq (h : ofUsers tag d users alive now = .ok l) :
    ∃ l', update { tag, defaults := d } users [] now = .ok l' ∧ l = l'.setAlive alive := by
  unfold ofUsers at h
  cases hupdate : Limiter.update { tag, defaults := d } users [] now with
  | error o =>
    rw [hupdate] at h
    cases h
  | ok l' =>
    rw [hupdate] at h
    exact ⟨l', rfl, (Except.ok.inj h).symm⟩

theorem ofUsers_frame (h : ofUsers tag d users alive now = .ok l) :
    l.tag = tag ∧ l.defaults = d := by
  obtain ⟨l', hupdate, rfl⟩ := ofUsers_eq h
  obtain ⟨limits, -, rfl⟩ := update_eq hupdate
  exact ⟨rfl, rfl⟩

theorem mirrors_ofUsers (h : ofUsers tag d users alive now = .ok l) :
    l.Mirrors (Roster.update tag ∅ users []) := by
  obtain ⟨l', hupdate, rfl⟩ := ofUsers_eq h
  have hempty : Mirrors { tag, defaults := d } ∅ := fun _ => rfl
  have hmirrors := hempty.update hupdate
  exact hmirrors

end OfUsers

end Limiter

end NodeAgent
