import Mathlib.Data.List.Nodup
import NodeAgent.Proofs.Snapshots

/-!
A snapshot drops what has expired, and so does a check that lets nobody in. Nothing else shows that
they were made: without them all other calls get the replies that they get with them. From an
instant on two limiters give the same replies if they know the same users by the same limits and
have the same devices online then, whatever each of them still keeps of older ones.
-/

namespace NodeAgent

theorem OnlineDevice.le_antisymm {a b : OnlineDevice} (hab : a.le b = true) (hba : b.le a = true) :
    a = b := by
  rw [le_iff] at hab hba
  obtain ⟨huid, hip⟩ : a.uid = b.uid ∧ a.ip ≤ b.ip :=
    hab.resolve_left fun hlt => hba.elim (Int.lt_asymm hlt) fun h => Int.ne_of_lt hlt h.1.symm
  obtain ⟨-, hip'⟩ : b.uid = a.uid ∧ b.ip ≤ a.ip :=
    hba.resolve_left fun hlt => Int.ne_of_lt hlt huid.symm
  cases a
  cases b
  exact congr (congrArg OnlineDevice.mk huid) (String.le_antisymm hip hip')

theorem Table.entries_perm {κ ν : Type} [DecidableEq κ] {t s : Table κ ν}
    (h : ∀ k, t.find? k = s.find? k) : t.entries.Perm s.entries := by
  refine (List.perm_ext_iff_of_nodup t.nodup.of_map s.nodup.of_map).2 fun ⟨k, v⟩ => ?_
  rw [← find?_eq_some_iff, ← find?_eq_some_iff, h]

namespace Limiter

variable {l l' : Limiter} {c : TimedCall} {t user ip : String} {now later : Instant}

structure Alike (l l' : Limiter) (now : Instant) : Prop where
  tag : l'.tag = l.tag
  defaults : l'.defaults = l.defaults
  users : l'.users = l.users
  alive : l'.alive = l.alive
  here : ∀ t, l'.here t now = l.here t now

theorem here_recent (l : Limiter) (t : String) (h : now ≤ later) :
    (l.here t now).recent later = l.here t later := Sightings.recent_recent h

theorem here_onlineDevices (l : Limiter) (t : String) (h : now ≤ later) :
    (l.onlineDevices now).1.here t later = if l.users.contains t then l.here t later else ∅ := by
  rw [here, sightings_onlineDevices]
  split
  · exact l.here_recent t h
  · rfl

theorem check_eq (l : Limiter) (user ip : String) (now : Instant) : l.check user ip now =
    match l.users.find? user with
    | none => (l, .refused (.unknownUser user))
    | some limit =>
      if limit.deviceLimit = 0 ∨ (l.here user now).contains ip then
        (l.see user ((l.here user now).insert ip now), .admitted limit.bucket)
      else
        match l.deviceCount limit.uid (l.here user now) with
        | .error o => (l.see user (l.here user now), .overflow o)
        | .ok n =>
          if limit.deviceLimit ≤ n then
            (l.see user (l.here user now), .refused (.deviceLimit limit.uid limit.deviceLimit))
          else (l.see user ((l.here user now).insert ip now), .admitted limit.bucket) := rfl

theorem here_eraseMany (l : Limiter) (users : Table String UserLimit) (gone : List String)
    (t : String) (now : Instant) :
    here { l with users, online := l.online.eraseMany gone } t now =
      if t ∈ gone then ∅ else l.here t now := by
  rw [here, sightings, Table.find?_eraseMany]
  split <;> rfl

namespace Alike

theorem refl (l : Limiter) (now : Instant) : l.Alike l now := ⟨rfl, rfl, rfl, rfl, fun _ => rfl⟩

theorem mono (h : l.Alike l' now) (hlater : now ≤ later) : l.Alike l' later where
  tag := h.tag
  defaults := h.defaults
  users := h.users
  alive := h.alive
  here := fun t => by rw [← here_recent l' t hlater, h.here, here_recent l t hlater]

theorem see (h : l.Alike l' now) (user : String) (s : Sightings) :
    (l.see user s).Alike (l'.see user s) now where
  tag := h.tag
  defaults := h.defaults
  users := h.users
  alive := h.alive
  here := fun t => by rw [here_see, here_see, h.here]

theorem check (h : l.Alike l' now) (user ip : String) :
    (l'.check user ip now).2 = (l.check user ip now).2 ∧
      (l.check user ip now).1.Alike (l'.check user ip now).1 now := by
  have hcount : ∀ uid here, l'.deviceCount uid here = l.deviceCount uid here := fun uid here => by
    rw [deviceCount, deviceCount, h.alive]
  rw [check_eq, check_eq, h.users, h.here]
  cases l.users.find? user with
  | none => exact ⟨rfl, h⟩
  | some limit =>
    dsimp only
    rw [hcount]
    split
    · exact ⟨rfl, h.see user _⟩
    · split
      · exact ⟨rfl, h.see user _⟩
      · split
        · exact ⟨rfl, h.see user _⟩
        · exact ⟨rfl, h.see user _⟩

theorem onlineDevices (h : l.Alike l' now) :
    (l'.onlineDevices now).2 = (l.onlineDevices now).2 ∧
      (l.onlineDevices now).1.Alike (l'.onlineDevices now).1 now := by
  have hpruned : (l'.pruned now).entries.Perm (l.pruned now).entries :=
    Table.entries_perm fun t => by rw [find?_pruned, find?_pruned, h.users, h.here]
  have hdevices : l'.devicesOf = l.devicesOf := by
    funext t s
    rw [devicesOf, devicesOf, h.users]
  refine ⟨?_, h.tag, h.defaults, h.users, h.alive, fun t => ?_⟩
  · -- the same devices are found, in another order, and then they are sorted
    have hfound := hpruned.flatMap_right fun e => l.devicesOf e.1 e.2
    change List.mergeSort _ _ = List.mergeSort _ _
    rw [hdevices]
    refine List.Perm.eq_of_pairwise (fun _ _ _ _ => OnlineDevice.le_antisymm)
      (List.pairwise_mergeSort OnlineDevice.le_trans OnlineDevice.le_total _)
      (List.pairwise_mergeSort OnlineDevice.le_trans OnlineDevice.le_total _) ?_
    exact ((List.mergeSort_perm ..).trans hfound).trans (List.mergeSort_perm ..).symm
  · rw [here_onlineDevices l' t (Nat.le_refl now), here_onlineDevices l t (Nat.le_refl now),
      h.users, h.here]

theorem update (h : l.Alike l' now) (added deleted : List User) :
    (∃ o, l.update added deleted now = .error o ∧ l'.update added deleted now = .error o) ∨
      ∃ l₁ l₁', l.update added deleted now = .ok l₁ ∧ l'.update added deleted now = .ok l₁' ∧
        l₁.Alike l₁' now := by
  have hlimits : (added.mapM fun u => (l'.userLimit u now).map (userTag l'.tag u.uuid, ·)) =
      added.mapM fun u => (l.userLimit u now).map (userTag l.tag u.uuid, ·) := by
    simp only [userLimit, h.tag, h.defaults]
  rw [Limiter.update, Limiter.update, hlimits]
  cases added.mapM fun u => (l.userLimit u now).map (userTag l.tag u.uuid, ·) with
  | error o => exact .inl ⟨o, rfl, rfl⟩
  | ok limits =>
    refine .inr ⟨_, _, rfl, rfl, h.tag, h.defaults, ?_, h.alive, fun t => ?_⟩
    · rw [h.tag, h.users]
    · rw [here_eraseMany, here_eraseMany, h.tag, h.here]

theorem serve (h : l.Alike l' c.instant) :
    (l'.serve c.instant c.call).2 = (l.serve c.instant c.call).2 ∧
      (l.serve c.instant c.call).1.Alike (l'.serve c.instant c.call).1 c.instant := by
  rcases c with ⟨now, call⟩
  cases call with
  | check user ip =>
    obtain ⟨hverdict, halike⟩ := h.check user ip
    exact ⟨congrArg LimiterReply.verdict hverdict, halike⟩
  | devices =>
    obtain ⟨honline, halike⟩ := h.onlineDevices
    exact ⟨congrArg LimiterReply.devices honline, halike⟩
  | userCount => exact ⟨congrArg (fun users => LimiterReply.count (Table.size users)) h.users, h⟩
  | setAlive alive => exact ⟨rfl, h.tag, h.defaults, h.users, rfl, h.here⟩
  | update added deleted =>
    rw [Limiter.serve, Limiter.serve]
    rcases h.update added deleted with ⟨o, ho, ho'⟩ | ⟨l₁, l₁', hl, hl', halike⟩
    · rw [ho, ho']
      exact ⟨rfl, h⟩
    · rw [hl, hl']
      exact ⟨rfl, halike⟩

end Alike

def replies (l : Limiter) : List TimedCall → List LimiterReply
  | [] => []
  | c :: calls =>
    (l.serve c.instant c.call).2 :: (l.serve c.instant c.call).1.replies calls

theorem length_replies (l : Limiter) (calls : List TimedCall) :
    (l.replies calls).length = calls.length := by
  induction calls generalizing l with
  | nil => rfl
  | cons c calls ih => exact congrArg (· + 1) (ih _)

theorem replies_append (l : Limiter) (before after : List TimedCall) :
    l.replies (before ++ after) = l.replies before ++ (l.run before).replies after := by
  induction before generalizing l with
  | nil => rfl
  | cons c before ih => exact congrArg (_ :: ·) (ih _)

theorem Alike.replies (h : l.Alike l' now) {calls : List TimedCall}
    (hlater : ∀ c ∈ calls, now ≤ c.instant)
    (ordered : calls.Pairwise fun c d => c.instant ≤ d.instant) :
    l'.replies calls = l.replies calls := by
  induction calls generalizing l l' now with
  | nil => rfl
  | cons c calls ih =>
    obtain ⟨hfirst, hrest⟩ := List.pairwise_cons.1 ordered
    obtain ⟨hreply, halike⟩ := (h.mono (hlater c (List.mem_cons_self ..))).serve
    rw [Limiter.replies, Limiter.replies, hreply, ih halike hfirst hrest]

/-- A snapshot, or a check that lets nobody in, for whatever reason. -/
def Idles (l : Limiter) (c : TimedCall) : Prop :=
  c.call = .devices ∨
    ∃ user ip, c.call = .check user ip ∧ (l.check user ip c.instant).2.isAdmitted = false

theorem Known.alike_of_idles (h : l.Known) (hidles : l.Idles c) :
    l.Alike (l.serve c.instant c.call).1 c.instant := by
  rcases c with ⟨now, call⟩
  rcases hidles with rfl | ⟨user, ip, rfl, hrefused⟩
  · refine ⟨rfl, rfl, rfl, rfl, fun t => ?_⟩
    rw [Limiter.serve, here, h.sightings_onlineDevices, here_recent l t (Nat.le_refl now)]
  · have hchecking := checking l user ip now
    dsimp only at hrefused
    rw [Limiter.serve]
    generalize l.check user ip now = p at hchecking hrefused ⊢
    have hseen : l.Alike (l.see user (l.here user now)) now :=
      ⟨rfl, rfl, rfl, rfl, fun t => here_see_here (Nat.le_refl now)⟩
    cases hchecking with
    | unknown => exact .refl l now
    | entered => cases hrefused
    | full => exact hseen
    | overflow => exact hseen

/--
A snapshot or a check that lets nobody in leaves no trace. Without it, every other call of the run
gets the reply that it gets with it, as long as no call is made before the one that it follows.
-/
theorem replies_eraseIdx (tag : String) (d : LimitDefaults) {calls : List TimedCall}
    (ordered : calls.Pairwise fun a b => a.instant ≤ b.instant) {i : Nat} {c : TimedCall}
    (hc : calls[i]? = some c) :
    let l : Limiter := { tag, defaults := d }
    (l.run (calls.take i)).Idles c →
      l.replies (calls.eraseIdx i) = (l.replies calls).eraseIdx i := by
  intro l hidles
  obtain ⟨hi, rfl⟩ := List.getElem?_eq_some_iff.1 hc
  have hknown : (l.run (calls.take i)).Known := (known_of_nobody rfl).run _
  have hsplit : calls = calls.take i ++ calls[i] :: calls.drop (i + 1) := by simp
  have hlength : (l.replies (calls.take i)).length = i := by
    rw [length_replies, List.length_take_of_le (Nat.le_of_lt hi)]
  rw [hsplit, List.pairwise_append, List.pairwise_cons] at ordered
  obtain ⟨-, ⟨hlater, hrest⟩, -⟩ := ordered
  have hsame := (hknown.alike_of_idles hidles).replies hlater hrest
  calc l.replies (calls.eraseIdx i)
    _ = l.replies (calls.take i) ++ (l.run (calls.take i)).replies (calls.drop (i + 1)) := by
      rw [List.eraseIdx_eq_take_drop_succ, replies_append]
    _ = (l.replies (calls.take i) ++
        (l.run (calls.take i)).replies (calls[i] :: calls.drop (i + 1))).eraseIdx i := by
      rw [Limiter.replies, hsame, List.eraseIdx_append_of_length_le (Nat.le_of_eq hlength),
        hlength, Nat.sub_self]
      rfl
    _ = (l.replies calls).eraseIdx i := by rw [← replies_append, ← hsplit]

section Refusal

/--
Erin may have two devices. When the third one asks, the first has just expired, but another node
has counted one for her.
-/
def erinNight : List TimedCall :=
  [⟨0, .update [⟨7, "erin", 0, 2⟩] []⟩, ⟨0, .check "n|erin" "10.0.0.1"⟩,
    ⟨10, .check "n|erin" "10.0.0.2"⟩, ⟨20, .setAlive (Table.ofList [(7, 1)])⟩,
    ⟨300005, .check "n|erin" "10.0.0.3"⟩, ⟨300006, .devices⟩, ⟨300007, .setAlive ∅⟩,
    ⟨300008, .check "n|erin" "10.0.0.1"⟩]

theorem erin_refused_unseen :
    let l : Limiter := { tag := "n", defaults := {} }
    let refused : TimedCall := ⟨300005, .check "n|erin" "10.0.0.3"⟩
    (erinNight.Pairwise fun a b => a.instant ≤ b.instant) ∧ erinNight[4]? = some refused ∧
      (l.run (erinNight.take 4)).Idles refused ∧
      (l.run (erinNight.take 4)).online ≠ (l.run (erinNight.take 5)).online ∧
      l.replies (erinNight.eraseIdx 4) = (l.replies erinNight).eraseIdx 4 := by
  intro l refused
  have hordered : erinNight.Pairwise fun a b => a.instant ≤ b.instant := by decide +kernel
  have hidles : (l.run (erinNight.take 4)).Idles refused :=
    .inr ⟨"n|erin", "10.0.0.3", rfl, by decide +kernel⟩
  have hchanged : ((l.run (erinNight.take 4)).sightings "n|erin").size ≠
      ((l.run (erinNight.take 5)).sightings "n|erin").size := by decide +kernel
  refine ⟨hordered, rfl, hidles, fun hsame => hchanged ?_,
    replies_eraseIdx "n" {} hordered rfl hidles⟩
  rw [sightings, sightings, hsame]

end Refusal

end Limiter

end NodeAgent
