import Mathlib.Data.List.Induction
import Mathlib.Data.List.Nodup
import NodeAgent.Proofs.Roster

/-!
The devices that a limiter reports as online, told from what it was asked before. A device that was
let in stays for five minutes, or until its user goes; let in again, it stays anew. When a limiter
drops the addresses that have expired makes no difference.
-/

namespace NodeAgent

namespace Sightings

variable {s : Sightings} {now : Instant}

theorem find?_recent (s : Sightings) (now : Instant) (ip : String) :
    (s.recent now).find? ip = (s.find? ip).filter fun seen => now - seen < onlineSpan :=
  Table.find?_filter ..

theorem recent_recent {earlier : Instant} (h : earlier ≤ now) :
    (s.recent earlier).recent now = s.recent now := by
  refine Table.ext ?_
  simp only [recent, Table.filter, List.filter_filter]
  refine List.filter_congr fun e _ => ?_
  rw [Bool.and_eq_left_iff_imp, decide_eq_true_iff, decide_eq_true_iff]
  exact fun hrecent => Nat.lt_of_le_of_lt (Nat.sub_le_sub_right h _) hrecent

end Sightings

structure Presence where
  user : String
  record : User
  ip : String

def Presence.device (p : Presence) : OnlineDevice := ⟨p.record.id, p.ip⟩

namespace OnlineDevice

theorem le_iff {a b : OnlineDevice} :
    a.le b = true ↔ a.uid < b.uid ∨ a.uid = b.uid ∧ a.ip ≤ b.ip := by
  simp [le]

theorem le_trans (a b c : OnlineDevice) (hab : a.le b = true) (hbc : b.le c = true) :
    a.le c = true := by
  rw [le_iff] at hab hbc ⊢
  rcases hab with hab | ⟨hab, hip⟩
  · rcases hbc with hbc | ⟨hbc, -⟩
    · exact .inl (Int.lt_trans hab hbc)
    · exact .inl (hbc ▸ hab)
  · rcases hbc with hbc | ⟨hbc, hip'⟩
    · exact .inl (hab ▸ hbc)
    · exact .inr ⟨hab.trans hbc, String.le_trans hip hip'⟩

theorem le_total (a b : OnlineDevice) : (a.le b || b.le a) = true := by
  rw [Bool.or_eq_true, le_iff, le_iff]
  rcases Int.lt_trichotomy a.uid b.uid with hlt | heq | hgt
  · exact .inl (.inl hlt)
  · exact (String.le_total a.ip b.ip).imp (fun h => .inr ⟨heq, h⟩) fun h => .inr ⟨heq.symm, h⟩
  · exact .inr (.inl hgt)

end OnlineDevice

namespace Roster

variable {r : Roster} {t : String} {s : Sightings}

def presences (r : Roster) (t : String) (s : Sightings) : List Presence :=
  match r.find? t with
  | none => []
  | some u => s.keys.map (⟨t, u, ·⟩)

theorem mem_presences {p : Presence} :
    p ∈ r.presences t s ↔ p.user = t ∧ r.find? p.user = some p.record ∧ p.ip ∈ s.keys := by
  rw [presences]
  cases hfind : r.find? t with
  | none =>
    refine ⟨nofun, ?_⟩
    rintro ⟨rfl, hrecord, -⟩
    rw [hfind] at hrecord
    cases hrecord
  | some u =>
    rw [List.mem_map]
    constructor
    · rintro ⟨ip, hip, rfl⟩
      exact ⟨rfl, hfind, hip⟩
    · rintro ⟨rfl, hrecord, hip⟩
      obtain rfl : u = p.record := Option.some.inj (hfind.symm.trans hrecord)
      exact ⟨p.ip, hip, rfl⟩

theorem nodup_presences : (r.presences t s).Nodup := by
  rw [presences]
  split
  · exact List.nodup_nil
  · exact List.Nodup.map (fun _ _ h => (Presence.mk.inj h).2.2) s.nodup

end Roster

namespace Limiter

variable {l : Limiter} {c : TimedCall} {t ip : String} {now s : Instant} {r : Roster}

def Verdict.isAdmitted : Verdict → Bool
  | .admitted _ => true
  | _ => false

def Enters (l : Limiter) (c : TimedCall) (t ip : String) : Prop :=
  c.call = .check t ip ∧ (l.check t ip c.instant).2.isAdmitted = true

/--
The call removes a user, who may come again with the same call. An update that fails removes nobody.
-/
def Leaves (l : Limiter) (c : TimedCall) (t : String) : Prop :=
  ∃ added deleted, c.call = .update added deleted ∧ t ∈ userTags l.tag deleted ∧
    ∃ l', l.update added deleted c.instant = .ok l'

def Undisturbed (l : Limiter) (t ip : String) : List TimedCall → Prop
  | [] => True
  | c :: calls =>
    (¬l.Enters c t ip ∧ ¬l.Leaves c t) ∧ (l.serve c.instant c.call).1.Undisturbed t ip calls

def EnteredLast (l : Limiter) (calls : List TimedCall) (t ip : String) (s : Instant) : Prop :=
  ∃ before c after, calls = before ++ c :: after ∧ c.instant = s ∧
    (l.run before).Enters c t ip ∧ (l.run (before ++ [c])).Undisturbed t ip after

theorem run_append (l : Limiter) (before after : List TimedCall) :
    l.run (before ++ after) = (l.run before).run after :=
  List.foldl_append

theorem run_concat (l : Limiter) (calls : List TimedCall) (c : TimedCall) :
    l.run (calls ++ [c]) = ((l.run calls).serve c.instant c.call).1 :=
  l.run_append calls [c]

theorem undisturbed_append {before after : List TimedCall} :
    l.Undisturbed t ip (before ++ after) ↔
      l.Undisturbed t ip before ∧ (l.run before).Undisturbed t ip after := by
  induction before generalizing l with
  | nil => exact (iff_of_eq (true_and _)).symm
  | cons c before ih =>
    rw [List.cons_append, Undisturbed, ih, Undisturbed, ← and_assoc]
    rfl

theorem enteredLast_concat {calls : List TimedCall} :
    l.EnteredLast (calls ++ [c]) t ip s ↔
      ((l.run calls).Enters c t ip ∧ c.instant = s) ∨
        l.EnteredLast calls t ip s ∧ ¬(l.run calls).Enters c t ip ∧ ¬(l.run calls).Leaves c t := by
  constructor
  · rintro ⟨before, d, after, hcalls, hs, henters, hundisturbed⟩
    rcases List.eq_nil_or_concat after with rfl | ⟨after, e, rfl⟩
    · obtain ⟨rfl, hd⟩ := List.append_inj' hcalls rfl
      obtain rfl : c = d := List.singleton_inj.1 hd
      exact .inl ⟨henters, hs⟩
    · rw [List.concat_eq_append, ← List.cons_append, ← List.append_assoc] at hcalls
      obtain ⟨rfl, he⟩ := List.append_inj' hcalls rfl
      obtain rfl : c = e := List.singleton_inj.1 he
      rw [List.concat_eq_append, undisturbed_append, ← run_append, List.append_assoc]
        at hundisturbed
      obtain ⟨hbefore, hquiet, -⟩ := hundisturbed
      exact .inr ⟨⟨before, d, after, rfl, hs, henters, hbefore⟩, hquiet⟩
  · rintro (⟨henters, hs⟩ | ⟨⟨before, d, after, rfl, hs, henters, hundisturbed⟩, hquiet⟩)
    · exact ⟨calls, c, [], rfl, hs, henters, trivial⟩
    · refine ⟨before, d, after ++ [c], by simp, hs, henters, ?_⟩
      rw [undisturbed_append, ← run_append, List.append_assoc]
      exact ⟨hundisturbed, hquiet, trivial⟩

theorem mem_keys_sightings :
    ip ∈ (l.sightings t).keys ↔ ∃ s, l.online.find? t = some s ∧ ip ∈ s.keys := by
  rw [sightings]
  cases l.online.find? t with
  | none =>
    constructor
    · intro h
      cases h
    · rintro ⟨s, h, -⟩
      cases h
  | some s =>
    constructor
    · exact fun h => ⟨s, rfl, h⟩
    · rintro ⟨s', h, hip⟩
      rwa [Option.some.inj h]

theorem sightings_onlineDevices (l : Limiter) (now : Instant) (t : String) :
    (l.onlineDevices now).1.sightings t = if l.users.contains t then l.here t now else ∅ := by
  change ((l.pruned now).find? t).getD ∅ = _
  rw [find?_pruned]
  cases hempty : (l.here t now).isEmpty with
  | true =>
    have hnone : l.here t now = ∅ := Table.ext (List.isEmpty_iff.1 hempty)
    rw [Bool.not_true, Bool.and_false, hnone]
    exact (ite_self _).symm
  | false =>
    rw [Bool.not_false, Bool.and_true]
    split <;> rfl

theorem Known.sightings_onlineDevices (h : l.Known) (now : Instant) (t : String) :
    (l.onlineDevices now).1.sightings t = l.here t now := by
  rw [Limiter.sightings_onlineDevices]
  split
  · rfl
  next hunknown =>
    have hnone : l.online.find? t = none := (Table.find?_eq_none_iff ..).2 fun honline =>
      hunknown ((Table.contains_iff ..).2 (h t honline))
    rw [here, sightings, hnone]
    rfl

theorem ofUsers_eq_run {d : LimitDefaults} {tag : String} {users : List User} {alive : AliveCounts}
    (h : ofUsers tag d users alive now = .ok l) :
    l = run { tag, defaults := d } [⟨now, .update users []⟩, ⟨now, .setAlive alive⟩] := by
  obtain ⟨l', hupdate, rfl⟩ := ofUsers_eq h
  have hserve : serve { tag, defaults := d } now (.update users []) = (l', .done) := by
    rw [serve, hupdate]
  simp only [run, List.foldl_cons, List.foldl_nil, hserve]
  rfl

theorem here_see {user : String} {seen : Sightings} :
    (l.see user seen).here t now = if t = user then seen.recent now else l.here t now := by
  rw [here, sightings_see]
  split <;> rfl

theorem find?_here_of_enters (h : l.Enters c t ip) (now : Instant) :
    ((l.serve c.instant c.call).1.here t now).find? ip =
      (some c.instant).filter fun seen => now - seen < onlineSpan := by
  obtain ⟨hcall, hadmitted⟩ := h
  have hchecking := checking l t ip c.instant
  rw [hcall, serve]
  generalize l.check t ip c.instant = p at hchecking hadmitted ⊢
  cases hchecking with
  | entered => rw [here_see, if_pos rfl, Sightings.find?_recent, Table.find?_insert_self]
  | unknown => cases hadmitted
  | full => cases hadmitted
  | overflow => cases hadmitted

theorem here_of_leaves (h : l.Leaves c t) (now : Instant) :
    (l.serve c.instant c.call).1.here t now = ∅ := by
  obtain ⟨added, deleted, hcall, hgone, l', hupdate⟩ := h
  rw [hcall, serve, hupdate, here, sightings_update hupdate, if_pos hgone]
  rfl

theorem here_see_here {user : String} {earlier : Instant} (h : earlier ≤ now) :
    (l.see user (l.here user earlier)).here t now = l.here t now := by
  rw [here_see]
  split
  next htag => rw [htag, here, Sightings.recent_recent h, here]
  · rfl

theorem Known.find?_here_of_undisturbed (h : l.Known) (henters : ¬l.Enters c t ip)
    (hleaves : ¬l.Leaves c t) (hnow : c.instant ≤ now) :
    ((l.serve c.instant c.call).1.here t now).find? ip = (l.here t now).find? ip := by
  rcases c with ⟨earlier, call⟩
  cases call with
  | check user ip' =>
    have hchecking := checking l user ip' earlier
    rw [Limiter.serve]
    have hother : (l.check user ip' earlier).2.isAdmitted = true → ¬(t = user ∧ ip = ip') := by
      rintro hadmitted ⟨rfl, rfl⟩
      exact henters ⟨rfl, hadmitted⟩
    generalize l.check user ip' earlier = p at hchecking hother ⊢
    cases hchecking with
    | unknown => rfl
    | entered =>
      rw [here_see]
      split
      next htag =>
        have hip : ip ≠ ip' := fun hip => hother rfl ⟨htag, hip⟩
        rw [Sightings.find?_recent, Table.find?_insert_of_ne _ _ hip, ← Sightings.find?_recent,
          here, Sightings.recent_recent hnow, here, htag]
      · rfl
    | full => rw [here_see_here hnow]
    | overflow => rw [here_see_here hnow]
  | devices =>
    have hsightings := h.sightings_onlineDevices earlier t
    rw [Limiter.serve, here, hsightings, here, Sightings.recent_recent hnow, here]
  | userCount => rfl
  | setAlive alive => rfl
  | update added deleted =>
    rw [Limiter.serve]
    cases hupdate : l.update added deleted earlier with
    | error o => rfl
    | ok l' =>
      have hstays : t ∉ userTags l.tag deleted :=
        fun hgone => hleaves ⟨added, deleted, rfl, hgone, l', hupdate⟩
      rw [here, sightings_update hupdate, if_neg hstays, here]

theorem find?_here_run_iff (nobody : l.online = ∅) {calls : List TimedCall}
    (hnow : ∀ c ∈ calls, c.instant ≤ now) :
    ((l.run calls).here t now).find? ip = some s ↔
      l.EnteredLast calls t ip s ∧ now - s < onlineSpan := by
  have hknown : l.Known := known_of_nobody nobody
  -- from the end: the last call settles what is known of the device, or the calls before it do
  induction calls using List.reverseRecOn with
  | nil =>
    have hnone : l.here t now = ∅ := by
      rw [here, sightings, nobody]
      rfl
    rw [run, List.foldl_nil, hnone]
    constructor
    · intro h
      cases h
    · rintro ⟨⟨before, c, after, hcalls, -⟩, -⟩
      simp at hcalls
  | append_singleton calls c ih =>
    rw [List.forall_mem_append] at hnow
    have hc : c.instant ≤ now := hnow.2 c (List.mem_singleton_self c)
    rw [run_concat, enteredLast_concat]
    by_cases henters : (l.run calls).Enters c t ip
    · rw [find?_here_of_enters henters, Option.filter_eq_some_iff, decide_eq_true_iff]
      simp [henters]
    · by_cases hleaves : (l.run calls).Leaves c t
      · have hnone : (∅ : Sightings).find? ip = none := rfl
        rw [here_of_leaves hleaves, hnone]
        simp [henters, hleaves]
      · rw [(hknown.run calls).find?_here_of_undisturbed henters hleaves hc]
        simp [ih hnow.1, henters, hleaves]

def presences (l : Limiter) (r : Roster) (now : Instant) : List Presence :=
  (l.pruned now).entries.flatMap fun e => r.presences e.1 e.2

theorem nodup_presences : (l.presences r now).Nodup := by
  rw [presences, List.nodup_flatMap]
  refine ⟨fun _ _ => Roster.nodup_presences, ?_⟩
  refine (List.pairwise_map.1 (l.pruned now).nodup).imp fun {e e'} hne p hp hp' => hne ?_
  exact (Roster.mem_presences.1 hp).1.symm.trans (Roster.mem_presences.1 hp').1

theorem Known.mem_presences (h : l.Known) {p : Presence} :
    p ∈ l.presences r now ↔
      r.find? p.user = some p.record ∧ p.ip ∈ (l.here p.user now).keys := by
  rw [← h.sightings_onlineDevices, mem_keys_sightings, presences, List.mem_flatMap]
  constructor
  · rintro ⟨⟨t, s⟩, hentry, hp⟩
    obtain ⟨rfl, hrecord, hip⟩ := Roster.mem_presences.1 hp
    exact ⟨hrecord, s, (Table.find?_eq_some_iff ..).2 hentry, hip⟩
  · rintro ⟨hrecord, s, hs, hip⟩
    exact ⟨(p.user, s), (Table.find?_eq_some_iff ..).1 hs,
      Roster.mem_presences.2 ⟨rfl, hrecord, hip⟩⟩

theorem Mirrors.devicesOf (h : l.Mirrors r) (t : String) (s : Sightings) :
    l.devicesOf t s = (r.presences t s).map Presence.device := by
  rw [Limiter.devicesOf, Roster.presences]
  cases hfound : l.users.find? t with
  | none =>
    have hunknown : t ∉ r.keys := by
      rw [← h.mem_keys, ← Table.find?_eq_none_iff]
      exact hfound
    rw [(Table.find?_eq_none_iff ..).2 hunknown]
    rfl
  | some limit =>
    obtain ⟨u, hu, hid, -⟩ := h.exists_record hfound
    rw [hu, List.map_map]
    simp only [Function.comp_def, Presence.device, hid]

theorem Mirrors.onlineDevices (h : l.Mirrors r) (now : Instant) :
    (l.onlineDevices now).2 =
      ((l.presences r now).map Presence.device).mergeSort OnlineDevice.le := by
  have hdevices : (l.pruned now).entries.flatMap (fun e => l.devicesOf e.1 e.2) =
      (l.presences r now).map Presence.device := by
    rw [presences, List.map_flatMap]
    exact List.flatMap_congr fun e _ => h.devicesOf e.1 e.2
  exact congrArg (List.mergeSort · OnlineDevice.le) hdevices

/--
A snapshot at `now`, whatever came before: it is sorted, and it has one entry, under the id of the
user's record, for every device that was let in last less than five minutes ago and whose user was
not removed since.
-/
theorem onlineDevices_exact (tag : String) (d : LimitDefaults) {calls : List TimedCall}
    (hnow : ∀ c ∈ calls, c.instant ≤ now) :
    let l : Limiter := { tag, defaults := d }
    let roster := l.rosterAfter ∅ calls
    let online := ((l.run calls).onlineDevices now).2
    online.Pairwise (fun a b => a.le b = true) ∧
      ∃ found : List Presence, online.Perm (found.map Presence.device) ∧ found.Nodup ∧
        ∀ p, p ∈ found ↔ roster.find? p.user = some p.record ∧
          ∃ s, l.EnteredLast calls p.user p.ip s ∧ now - s < onlineSpan := by
  intro l roster online
  have hmirrors : (l.run calls).Mirrors roster := Mirrors.run (fun _ => rfl) calls
  have hknown : (l.run calls).Known := (known_of_nobody rfl).run calls
  have honline : online = ((((l.run calls).presences roster now).map Presence.device).mergeSort
      OnlineDevice.le) := hmirrors.onlineDevices now
  rw [honline]
  refine ⟨List.pairwise_mergeSort OnlineDevice.le_trans OnlineDevice.le_total _,
    (l.run calls).presences roster now, List.mergeSort_perm .., nodup_presences, fun p => ?_⟩
  rw [hknown.mem_presences, Table.mem_keys_iff]
  exact and_congr_right fun _ => exists_congr fun s => find?_here_run_iff rfl hnow

section Devices

def dana (id : Int) : User := ⟨id, "dana", 0, 2⟩

/--
Dana is renewed under another id and has two devices, so that a third is refused. The first comes
back at the last moment, and the second does not.
-/
def danaDay : List TimedCall :=
  [⟨0, .update [dana 7] []⟩, ⟨0, .check "n|dana" "10.0.0.1"⟩, ⟨10, .update [dana 8] [dana 7]⟩,
    ⟨20, .check "n|dana" "10.0.0.1"⟩, ⟨40, .check "n|dana" "10.0.0.2"⟩,
    ⟨50, .check "n|dana" "10.0.0.3"⟩, ⟨60, .devices⟩, ⟨300000, .check "n|dana" "10.0.0.1"⟩]

theorem dana_online : (∀ c ∈ danaDay, c.instant ≤ 300040) ∧
    let l : Limiter := { tag := "n", defaults := {} }
    ⟨8, "10.0.0.1"⟩ ∈ ((l.run danaDay).onlineDevices 300040).2 ∧
      ∀ s, l.EnteredLast danaDay "n|dana" "10.0.0.2" s → onlineSpan ≤ 300040 - s := by
  have hnow : ∀ c ∈ danaDay, c.instant ≤ 300040 := by decide +kernel
  refine ⟨hnow, ?_⟩
  intro l
  obtain ⟨-, found, hperm, -, hfound⟩ := onlineDevices_exact "n" {} hnow
  have hroster : (l.rosterAfter ∅ danaDay).find? "n|dana" = some (dana 8) := by decide +kernel
  have hmem : ∀ ip s, l.EnteredLast danaDay "n|dana" ip s → 300040 - s < onlineSpan →
      ⟨8, ip⟩ ∈ ((l.run danaDay).onlineDevices 300040).2 := by
    intro ip s hentered hrecent
    have hp := (hfound ⟨"n|dana", dana 8, ip⟩).2 ⟨hroster, s, hentered, hrecent⟩
    exact hperm.mem_iff.2 (List.mem_map.2 ⟨_, hp, rfl⟩)
  refine ⟨hmem "10.0.0.1" 300000 ?_ (by decide), fun s hentered => ?_⟩
  · exact ⟨danaDay.dropLast, ⟨300000, .check "n|dana" "10.0.0.1"⟩, [], rfl, rfl,
      ⟨rfl, by decide +kernel⟩, trivial⟩
  · by_contra hrecent
    have hgone := hmem "10.0.0.2" s hentered (Nat.lt_of_not_le hrecent)
    exact absurd hgone (by decide +kernel)

end Devices

end Limiter

end NodeAgent
