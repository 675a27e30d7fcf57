import NodeAgent.Proofs.DeviceCap
import NodeAgent.Proofs.Snapshots

/-!
When a check comes to its end. For a new device of a user with a limit, the devices that the panel
has counted elsewhere and those that are online here are added up in one word. A check answers in
all other cases, and in this one if the sum fits the word.
-/

namespace NodeAgent

theorem Overflow.add32_ok_iff {a b : UInt32} :
    (∃ n, add32 a b = .ok n) ↔ a.toNat + b.toNat < UInt32.size := by
  unfold add32
  split
  next hfits => exact iff_of_true ⟨_, rfl⟩ hfits
  next hfits => exact iff_of_false nofun hfits

namespace Limiter

variable {l : Limiter} {c : TimedCall} {user ip : String} {now : Instant}

def Verdict.Answers : Verdict → Prop
  | .overflow _ => False
  | _ => True

instance : (v : Verdict) → Decidable v.Answers
  | .admitted _ => .isTrue trivial
  | .refused _ => .isTrue trivial
  | .overflow _ => .isFalse id

def aliveAfter (alive : AliveCounts) : List TimedCall → AliveCounts
  | [] => alive
  | c :: calls => aliveAfter (match c.call with | .setAlive told => told | _ => alive) calls

/-- The device was let in less than five minutes ago, and its user was not removed since. -/
def Online (l : Limiter) (calls : List TimedCall) (user ip : String) (now : Instant) : Prop :=
  ∃ s, l.EnteredLast calls user ip s ∧ now - s < onlineSpan

theorem serve_alive (l : Limiter) (c : TimedCall) : (l.serve c.instant c.call).1.alive =
    match c.call with
    | .setAlive told => told
    | _ => l.alive := by
  rcases c with ⟨now, call⟩
  cases call with
  | check user ip => exact (l.check_frame user ip now).2.2.2
  | devices => rfl
  | userCount => rfl
  | setAlive told => rfl
  | update added deleted =>
    rw [serve]
    cases hupdate : l.update added deleted now with
    | error o => rfl
    | ok l' =>
      obtain ⟨limits, -, rfl⟩ := update_eq hupdate
      rfl

theorem run_alive (l : Limiter) (calls : List TimedCall) :
    (l.run calls).alive = aliveAfter l.alive calls := by
  induction calls generalizing l with
  | nil => rfl
  | cons c calls ih => exact (ih _).trans (congrArg (aliveAfter · calls) (l.serve_alive c))

theorem mem_keys_here_run_iff (nobody : l.online = ∅) {calls : List TimedCall}
    (hnow : ∀ c ∈ calls, c.instant ≤ now) :
    ip ∈ ((l.run calls).here user now).keys ↔ l.Online calls user ip now := by
  rw [Table.mem_keys_iff]
  exact exists_congr fun s => find?_here_run_iff nobody hnow

theorem deviceCount_ok_iff {uid : Int} {here : Sightings} :
    (∃ n, l.deviceCount uid here = .ok n) ↔
      (l.alive.count uid).toNat + here.size % UInt32.size < UInt32.size := by
  rw [deviceCount, Overflow.add32_ok_iff, UInt32.toNat_ofNat']

theorem answers_check_iff : (l.check user ip now).2.Answers ↔
    ∀ limit, l.users.find? user = some limit → limit.deviceLimit ≠ 0 →
      ip ∉ (l.here user now).keys →
        (l.alive.count limit.uid).toNat + (l.here user now).size % UInt32.size < UInt32.size := by
  have hchecking := checking l user ip now
  generalize l.check user ip now = p at hchecking ⊢
  cases hchecking with
  | unknown none => exact iff_of_true trivial fun limit found => by cases none.symm.trans found
  | @entered limit found room =>
    refine iff_of_true trivial fun limit' found' limited new => ?_
    obtain rfl : limit = limit' := Option.some.inj (found.symm.trans found')
    obtain ⟨n, hcount, -⟩ := (room.resolve_left limited).resolve_left new
    exact deviceCount_ok_iff.1 ⟨n, hcount⟩
  | @full limit n found limited new count =>
    refine iff_of_true trivial fun limit' found' _ _ => ?_
    obtain rfl : limit = limit' := Option.some.inj (found.symm.trans found')
    exact deviceCount_ok_iff.1 ⟨n, count⟩
  | @overflow limit o found limited new count =>
    refine iff_of_false id fun h => ?_
    obtain ⟨n, hn⟩ := deviceCount_ok_iff.2 (h limit found limited new)
    cases count.symm.trans hn

theorem Mirrors.forall_limit_iff {r : Roster} (h : l.Mirrors r) (user : String)
    (P : Int → UInt32 → Prop) :
    (∀ limit, l.users.find? user = some limit → P limit.uid limit.deviceLimit) ↔
      ∀ u, r.find? user = some u → P u.id (l.defaults.deviceLimitOf u) := by
  constructor
  · intro hall u hu
    obtain ⟨limit, found, hid, hdevices⟩ := h.exists_limit hu
    exact hid ▸ hdevices ▸ hall limit found
  · intro hall limit found
    obtain ⟨u, hu, hid, hdevices⟩ := h.exists_record found
    exact hid ▸ hdevices ▸ hall u hu

/--
A check answers, whatever came before, unless the device is new, its user has a limit, and the count
that the panel told last for him does not fit a word together with the number of his devices that
are online.
-/
theorem check_answers_iff (tag : String) (d : LimitDefaults) {calls : List TimedCall}
    (hnow : ∀ c ∈ calls, c.instant ≤ now) (user ip : String) :
    let l : Limiter := { tag, defaults := d }
    ∃ here : List String, here.Nodup ∧ (∀ a, a ∈ here ↔ l.Online calls user a now) ∧
      (((l.run calls).check user ip now).2.Answers ↔
        ∀ u, (l.rosterAfter ∅ calls).find? user = some u → d.deviceLimitOf u ≠ 0 → ip ∉ here →
          ((aliveAfter ∅ calls).count u.id).toNat + here.length % UInt32.size < UInt32.size) := by
  intro l
  have hmirrors : (l.run calls).Mirrors (l.rosterAfter ∅ calls) := Mirrors.run (fun _ => rfl) calls
  have hdefaults : (l.run calls).defaults = d := (l.run_frame calls).2
  have halive : (l.run calls).alive = aliveAfter ∅ calls := l.run_alive calls
  have hsize : ((l.run calls).here user now).keys.length = ((l.run calls).here user now).size :=
    List.length_map ..
  refine ⟨((l.run calls).here user now).keys, ((l.run calls).here user now).nodup,
    fun a => mem_keys_here_run_iff rfl hnow, ?_⟩
  rw [answers_check_iff, hmirrors.forall_limit_iff user fun uid limit => limit ≠ 0 →
      ip ∉ ((l.run calls).here user now).keys → ((l.run calls).alive.count uid).toNat +
        ((l.run calls).here user now).size % UInt32.size < UInt32.size,
    hdefaults, halive, hsize]

theorem check_answers_of_renews (tag : String) (d : LimitDefaults) {calls : List TimedCall}
    (renews : RenewsAlways { tag, defaults := d } calls) (user ip : String) (now : Instant)
    (hfits : ∀ u, (rosterAfter { tag, defaults := d } ∅ calls).find? user = some u →
      d.deviceLimitOf u ≠ 0 →
        ((aliveAfter ∅ calls).count u.id).toNat + (d.deviceLimitOf u).toNat < UInt32.size) :
    ((run { tag, defaults := d } calls).check user ip now).2.Answers := by
  have hnobody : Capped { tag, defaults := d } :=
    ⟨fun t ht => absurd ht List.not_mem_nil, fun t limit found => by cases found⟩
  have hmirrors : (run { tag, defaults := d } calls).Mirrors (rosterAfter _ ∅ calls) :=
    Mirrors.run (fun _ => rfl) calls
  have hdefaults : (run { tag, defaults := d } calls).defaults = d := (run_frame _ calls).2
  have halive : (run { tag, defaults := d } calls).alive = aliveAfter ∅ calls := run_alive _ calls
  refine answers_check_iff.2 fun limit found limited _ => ?_
  obtain ⟨u, hu, hid, hdevices⟩ := hmirrors.exists_record found
  have hsize := (hnobody.run renews).here_size_le found limited now
  rw [hdefaults] at hdevices
  rw [hdevices] at hsize limited
  have hroom := hfits u hu limited
  have hmod := Nat.mod_le ((run { tag, defaults := d } calls).here user now).size UInt32.size
  rw [halive, hid]
  omega

section FullElsewhere

def aliceElsewhere : List TimedCall :=
  [⟨0, .update [⟨7, "alice", 0, 2⟩] []⟩, ⟨1, .check "n|alice" "10.0.0.1"⟩,
    ⟨2, .setAlive (Table.ofList [(7, 4294967295)])⟩]

theorem no_answer_beside_greatest_count :
    let l : Limiter := run { tag := "n", defaults := {} } aliceElsewhere
    ¬(l.check "n|alice" "10.0.0.2" 3).2.Answers := by
  decide +kernel

theorem alice_over_word : (∀ c ∈ aliceElsewhere, c.instant ≤ 3) ∧
    ∃ here : List String, here.Nodup ∧
      (∀ a, a ∈ here ↔ Online { tag := "n", defaults := {} } aliceElsewhere "n|alice" a 3) ∧
      "10.0.0.2" ∉ here ∧ UInt32.size ≤ 4294967295 + here.length % UInt32.size := by
  have hnow : ∀ c ∈ aliceElsewhere, c.instant ≤ 3 := by decide +kernel
  obtain ⟨here, hnodup, honline, hanswers⟩ := check_answers_iff "n" {} hnow "n|alice" "10.0.0.2"
  have hroster : (rosterAfter { tag := "n", defaults := {} } ∅ aliceElsewhere).find? "n|alice" =
      some ⟨7, "alice", 0, 2⟩ := by decide +kernel
  have htold : ((aliveAfter ∅ aliceElsewhere).count 7).toNat = 4294967295 := by decide +kernel
  have hfull := mt hanswers.2 (by decide +kernel)
  simp only [not_forall, Nat.not_lt] at hfull
  obtain ⟨u, hu, -, hnew, hover⟩ := hfull
  obtain rfl : _ = u := Option.some.inj (hroster.symm.trans hu)
  rw [htold] at hover
  exact ⟨hnow, here, hnodup, honline, hnew, hover⟩

end FullElsewhere

end Limiter

end NodeAgent
