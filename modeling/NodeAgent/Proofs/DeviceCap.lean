import NodeAgent.Proofs.Roster

/-!
No user has more devices than he may, as long as nobody comes a second time without going first. A
device that comes anew finds room beside those that are online here and at other nodes.
-/

namespace NodeAgent.Limiter

/-- A user who is known goes before he comes again. -/
def Renews (l : Limiter) : LimiterCall → Prop
  | .update added deleted =>
    ∀ u ∈ added, userTag l.tag u.uuid ∈ l.users.keys → u.uuid ∈ deleted.map (·.uuid)
  | _ => True

instance (l : Limiter) : (c : LimiterCall) → Decidable (l.Renews c)
  | .update added deleted => inferInstanceAs (Decidable (∀ u ∈ added,
      userTag l.tag u.uuid ∈ l.users.keys → u.uuid ∈ deleted.map (·.uuid)))
  | .check .. | .devices | .userCount | .setAlive _ => .isTrue trivial

def RenewsAlways (l : Limiter) : List TimedCall → Prop
  | [] => True
  | c :: calls => l.Renews c.call ∧ (l.serve c.instant c.call).1.RenewsAlways calls

structure Capped (l : Limiter) : Prop where
  known : ∀ t ∈ l.online.keys, t ∈ l.users.keys
  room : ∀ t limit, l.users.find? t = some limit → limit.deviceLimit ≠ 0 →
    (l.sightings t).size ≤ limit.deviceLimit.toNat

variable {l l' : Limiter} {user ip : String} {now : Instant} {limit : UserLimit}

theorem deviceCount_ok {uid : Int} {here : Sightings} {n : UInt32}
    (h : l.deviceCount uid here = .ok n) (hsmall : here.size < UInt32.size) :
    n.toNat = (l.alive.count uid).toNat + here.size := by
  unfold deviceCount Overflow.add32 at h
  have hsize : (UInt32.ofNat here.size).toNat = here.size := UInt32.toNat_ofNat_of_lt' hsmall
  split at h
  next hfits =>
    obtain rfl := Except.ok.inj h
    rw [UInt32.toNat_add, Nat.mod_eq_of_lt hfits, hsize]
  · cases h

theorem sightings_of_notMem (h : user ∉ l.online.keys) : l.sightings user = ∅ := by
  rw [sightings, (Table.find?_eq_none_iff ..).2 h]
  rfl

namespace Capped

theorem here_size_le (h : l.Capped) (found : l.users.find? user = some limit)
    (limited : limit.deviceLimit ≠ 0) (now : Instant) :
    (l.here user now).size ≤ limit.deviceLimit.toNat :=
  Nat.le_trans ((l.sightings user).size_recent_le now) (h.room user limit found limited)

theorem room_for_new (h : l.Capped) (found : l.users.find? user = some limit)
    (limited : limit.deviceLimit ≠ 0) {n : UInt32}
    (count : l.deviceCount limit.uid (l.here user now) = .ok n) (under : n < limit.deviceLimit)
    (ip : String) :
    (l.alive.count limit.uid).toNat + ((l.here user now).insert ip now).size ≤
      limit.deviceLimit.toNat := by
  have hhere := h.here_size_le found limited now
  have hword := limit.deviceLimit.toNat_lt_size
  have hcount := deviceCount_ok count (Nat.lt_of_le_of_lt hhere hword)
  have hunder : n.toNat < limit.deviceLimit.toNat := UInt32.lt_iff_toNat_lt.1 under
  have hinsert := (l.here user now).size_insert_le ip now
  omega

theorem see (h : l.Capped) (known : user ∈ l.users.keys) {s : Sightings}
    (hs : ∀ limit, l.users.find? user = some limit → limit.deviceLimit ≠ 0 →
      s.size ≤ limit.deviceLimit.toNat) : (l.see user s).Capped := by
  refine ⟨Known.see h.known known s, fun t limit found limited => ?_⟩
  rw [sightings_see]
  split
  next htag =>
    subst htag
    exact hs limit found limited
  · exact h.room t limit found limited

theorem check (h : l.Capped) (user ip : String) (now : Instant) :
    (l.check user ip now).1.Capped := by
  have hchecking := checking l user ip now
  generalize l.check user ip now = p at hchecking ⊢
  have hstay : ∀ limit, l.users.find? user = some limit → (l.see user (l.here user now)).Capped :=
    fun limit found => h.see ((Table.mem_keys_iff ..).2 ⟨limit, found⟩)
      fun _ found' limited => h.here_size_le found' limited now
  cases hchecking with
  | unknown => exact h
  | @entered limit found room =>
    refine h.see ((Table.mem_keys_iff ..).2 ⟨limit, found⟩) fun limit' found' limited => ?_
    obtain rfl : limit = limit' := Option.some.inj (found.symm.trans found')
    rcases room with hzero | hknown | ⟨n, hcount, hunder⟩
    · exact absurd hzero limited
    · rw [Table.size_insert_of_mem hknown]
      exact h.here_size_le found limited now
    · exact Nat.le_trans (Nat.le_add_left ..) (h.room_for_new found limited hcount hunder ip)
  | full found => exact hstay _ found
  | overflow found => exact hstay _ found

theorem update (h : l.Capped) {added deleted : List User} (renews : l.Renews (.update added deleted))
    (hupdate : l.update added deleted now = .ok l') : l'.Capped := by
  have hupdated := update_ok hupdate
  -- who comes anew has no devices: he has just gone, or was not known
  have hfresh : ∀ t ∈ userTags l.tag added, l'.sightings t = ∅ := by
    intro t ht
    obtain ⟨u, hu, rfl⟩ := mem_userTags.1 ht
    rw [sightings_update hupdate]
    split
    · rfl
    next hstays =>
      refine sightings_of_notMem fun honline => hstays ?_
      obtain ⟨v, hv, hsame⟩ := List.mem_map.1 (renews u hu (h.known _ honline))
      exact mem_userTags.2 ⟨v, hv, by rw [hsame]⟩
  refine ⟨Known.update h.known hupdate, fun t limit found limited => ?_⟩
  by_cases hcomes : t ∈ userTags l.tag added
  · rw [hfresh t hcomes]
    exact Nat.zero_le _
  · have hkeys := (hupdated.keys t).1 ((Table.mem_keys_iff ..).2 ⟨limit, found⟩)
    obtain ⟨-, hstays⟩ := hkeys.resolve_right hcomes
    rw [hupdated.kept t hstays hcomes] at found
    rw [sightings_update hupdate, if_neg hstays]
    exact h.room t limit found limited

theorem serve (h : l.Capped) (c : TimedCall) (renews : l.Renews c.call) :
    (l.serve c.instant c.call).1.Capped := by
  rcases c with ⟨now, call⟩
  cases call with
  | check user ip => exact h.check user ip now
  | devices =>
    refine ⟨fun t ht => mem_keys_pruned (l := l) ht, fun t limit found limited => ?_⟩
    exact Nat.le_trans (l.sightings_pruned_size_le now t) (h.room t limit found limited)
  | userCount => exact h
  | setAlive alive => exact ⟨h.known, h.room⟩
  | update added deleted =>
    rw [Limiter.serve]
    cases hupdate : l.update added deleted now with
    | error o => exact h
    | ok l' => exact h.update renews hupdate

theorem run (h : l.Capped) {calls : List TimedCall} (renews : l.RenewsAlways calls) :
    (l.run calls).Capped := by
  induction calls generalizing l with
  | nil => exact h
  | cons c calls ih => exact ih (h.serve c renews.1) renews.2

end Capped

theorem capped_ofUsers {tag : String} {d : LimitDefaults} {users : List User} {alive : AliveCounts}
    (h : ofUsers tag d users alive now = .ok l) : l.Capped := by
  obtain ⟨l', hupdate, rfl⟩ := ofUsers_eq h
  obtain ⟨limits, -, rfl⟩ := update_eq hupdate
  exact ⟨fun t ht => absurd ht List.not_mem_nil, fun t limit _ _ => Nat.zero_le _⟩

theorem check_admitted {bucket : Option (Bucket Instant Float)}
    (h : l.check user ip now = (l', .admitted bucket)) :
    ∃ limit, l.users.find? user = some limit ∧
      l' = l.see user ((l.here user now).insert ip now) ∧ ip ∈ (l'.here user now).keys ∧
      (l'.here user now).size ≤ ((l.here user now).insert ip now).size ∧
      (limit.deviceLimit ≠ 0 → ip ∉ (l.here user now).keys →
        ∃ n, l.deviceCount limit.uid (l.here user now) = .ok n ∧ n < limit.deviceLimit) := by
  have hchecking := checking l user ip now
  rw [h] at hchecking
  cases hchecking with
  | @entered limit found room =>
    have hhere : (l.see user ((l.here user now).insert ip now)).here user now =
        Sightings.recent ((l.here user now).insert ip now) now := by
      rw [here, sightings_see, if_pos rfl]
    refine ⟨limit, found, rfl, ?_, ?_, fun limited new => ?_⟩
    · rw [hhere, Table.mem_keys_iff, Sightings.recent, Table.find?_filter, Table.find?_insert_self]
      exact ⟨now, by simp [onlineSpan]⟩
    · rw [hhere]
      exact Sightings.size_recent_le _ now
    · exact (room.resolve_left limited).resolve_left new

/--
As long as nobody who is known comes without going first: no more devices of a user are recorded
than his record allows, and a device that comes anew finds room beside those that are online here
and at other nodes.
-/
theorem devices_within_limit {tag : String} {d : LimitDefaults} {users : List User}
    {alive : AliveCounts} {start : Instant} (h : ofUsers tag d users alive start = .ok l)
    {calls : List TimedCall} (renews : l.RenewsAlways calls) :
    let after := l.run calls
    let roster := l.rosterAfter (Roster.update tag ∅ users []) calls
    (∀ t, t ∈ after.users.keys ↔ t ∈ roster.keys) ∧
      (∀ t u, roster.find? t = some u → d.deviceLimitOf u ≠ 0 →
        (after.sightings t).size ≤ (d.deviceLimitOf u).toNat) ∧
      ∀ t ip now l' bucket, after.check t ip now = (l', .admitted bucket) →
        ip ∈ (l'.here t now).keys ∧ ∃ u, roster.find? t = some u ∧
          (d.deviceLimitOf u ≠ 0 → ip ∉ (after.here t now).keys →
            (after.alive.count u.id).toNat + (l'.here t now).size ≤ (d.deviceLimitOf u).toNat) := by
  intro after roster
  have hcapped : after.Capped := (capped_ofUsers h).run renews
  have hmirrors : after.Mirrors roster := (mirrors_ofUsers h).run calls
  have hdefaults : after.defaults = d := (l.run_frame calls).2.trans (ofUsers_frame h).2
  refine ⟨hmirrors.mem_keys, fun t u hu limited => ?_, fun t ip now l' bucket hcheck => ?_⟩
  · obtain ⟨limit, hfound, -, hdevices⟩ := hmirrors.exists_limit hu
    rw [hdefaults] at hdevices
    rw [← hdevices] at limited ⊢
    exact hcapped.room t limit hfound limited
  · obtain ⟨limit, hfound, -, hip, hsize, hroom⟩ := check_admitted hcheck
    obtain ⟨u, hu, hid, hdevices⟩ := hmirrors.exists_record hfound
    rw [hdefaults] at hdevices
    refine ⟨hip, u, hu, fun limited new => ?_⟩
    rw [← hdevices] at limited ⊢
    obtain ⟨n, hcount, hunder⟩ := hroom limited new
    rw [← hid]
    exact Nat.le_trans (Nat.add_le_add_left hsize _)
      (hcapped.room_for_new hfound limited hcount hunder ip)

section Renewal

def aliceAllowed (devices : UInt32) : User := ⟨7, "alice", 0, devices⟩

def aliceAlone : Limiter where
  tag := "n"
  defaults := {}
  users := Table.ofList [("n|alice", ⟨7, 1, none⟩)]

def aliceRenewed : List TimedCall :=
  [⟨0, .check "n|alice" "10.0.0.1"⟩, ⟨1, .update [aliceAllowed 3] [aliceAllowed 1]⟩,
    ⟨2, .setAlive (Table.ofList [(7, 1)])⟩, ⟨3, .check "n|alice" "10.0.0.1"⟩]

theorem room_after_renewal :
    ofUsers "n" {} [aliceAllowed 1] ∅ 0 = .ok aliceAlone ∧ aliceAlone.RenewsAlways aliceRenewed ∧
      let l := aliceAlone.run aliceRenewed
      ((l.check "n|alice" "10.0.0.2" 4).1.here "n|alice" 4).size = 2 ∧
        (l.alive.count 7).toNat + 2 ≤ 3 := by
  have hstart : ofUsers "n" {} [aliceAllowed 1] ∅ 0 = .ok aliceAlone := rfl
  have hrenews : aliceAlone.RenewsAlways aliceRenewed :=
    ⟨trivial, by decide +kernel, trivial, trivial, trivial⟩
  refine ⟨hstart, hrenews, by decide +kernel, ?_⟩
  obtain ⟨-, -, hroom⟩ := devices_within_limit hstart hrenews
  obtain ⟨-, u, hu, hfits⟩ := hroom "n|alice" "10.0.0.2" 4 _ none rfl
  obtain rfl : aliceAllowed 3 = u := Option.some.inj hu
  exact hfits (by decide +kernel) (by decide +kernel)

end Renewal

end NodeAgent.Limiter
