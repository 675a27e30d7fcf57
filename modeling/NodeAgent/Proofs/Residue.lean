import NodeAgent.Proofs.Ledger
import NodeAgent.Proofs.Start

/-!
Traffic that was counted and not reported yet, when a sync comes. It stays with every user who stays
at his speed. A user of another speed is deleted and added, and what he had in his counter is gone.
-/

namespace NodeAgent

def NodeEvent.countsOrReports : NodeEvent → Bool
  | .account .. => true
  | .beginReport => true
  | _ => false

theorem UserDiff.leaves_iff {old new : List User} (hold : Distinct old) (hnew : Distinct new)
    {v u : User} (hv : v ∈ old) (hu : u ∈ new) (huuid : v.uuid = u.uuid) (node : String) :
    userTag node u.uuid ∈ userTags node (between old new).deleted ↔
      v.speedLimit ≠ u.speedLimit := by
  constructor
  · intro hleaves hspeed
    have hkey : v.key ∈ new.map User.key :=
      User.mem_keys_iff.2 ⟨u, hu, User.key_eq_iff.2 ⟨huuid.symm, hspeed.symm⟩⟩
    exact notMem_deleted_of_kept hold hv hkey (huuid ▸ hleaves)
  · intro hspeed
    refine userTag_mem_userTags.2 ⟨v, mem_deleted.2 ⟨hv, fun hkey => ?_⟩, huuid⟩
    -- the only record of the new list with this uuid has another speed
    obtain ⟨w, hw, hwv⟩ := User.mem_keys_iff.1 hkey
    obtain ⟨hwuuid, hwspeed⟩ := User.key_eq_iff.1 hwv
    obtain rfl : w = u := eq_of_uuid_eq hnew hw hu (hwuuid.trans huuid)
    exact hspeed hwspeed.symm

namespace RunningNode

variable {x : RunningNode LocalEngine} {new : List User}

theorem step_traffic (x : RunningNode LocalEngine) {e : NodeEvent} (he : e.list? = none)
    (hcounts : e.countsOrReports = false) : (x.step e).core.traffic = x.core.traffic := by
  cases e with
  | account => cases hcounts
  | beginReport => cases hcounts
  | elapse => rfl
  | note => rfl
  | beginSync =>
    simp only [step]
    split <;> rfl
  | alive a =>
    simp only [step]
    split <;> rfl
  | users a =>
    rcases a with err | _ | l
    · simp only [step]
      split <;> rfl
    · simp only [step]
      split <;> rfl
    · cases he
  | invalidated =>
    simp only [step]
    split <;> rfl
  | posted a =>
    simp only [step]
    split
    next l _ => exact (x.session.stepsAfterTraffic_frame x.core l).2.traffic
    all_goals rfl

theorem run_tally (x : RunningNode LocalEngine) {es : List NodeEvent}
    (hes : ∀ e ∈ es, e.list? = none) (hcounts : ∀ e ∈ es, e.countsOrReports = false)
    (user : String) : (x.run es).tally user = x.tally user := by
  have htraffic : (x.run es).core.traffic = x.core.traffic :=
    run_invariant (P := fun y => y.core.traffic = x.core.traffic)
      (fun y e he hy => (y.step_traffic (hes e he) (hcounts e he)).trans hy) rfl
  rw [tally, tally, htraffic, (x.run_sameUsers hes).1]

/--
A sync that ends well leaves the counters of the users who keep their speed just as they are when
its list comes, whatever was counted since it began, and those of the others are empty.
-/
theorem tally_after_sync (old : Distinct x.session.users) (distinct : Distinct new)
    {es : List NodeEvent} (meanwhile : ∀ e ∈ es, e.list? = none)
    (takes : (x.run es).TakesOver new) :
    let y := x.run (es ++ [.users (.ok (some new))])
    ∀ v ∈ x.session.users, ∀ u ∈ new, v.uuid = u.uuid →
      let t := userTag x.session.tag u.uuid
      y.tally t = (if v.speedLimit = u.speedLimit then (x.run es).tally t else {}) ∧
        ((∀ e ∈ es, e.countsOrReports = false) → (x.run es).tally t = x.tally t) := by
  intro y v hv u hu huuid t
  obtain ⟨hs, -⟩ := x.run_sameUsers meanwhile
  obtain ⟨c', hstep, hmoved, -⟩ := takes.step_eq
  refine ⟨?_, fun hcounts => x.run_tally meanwhile hcounts t⟩
  have hleaves := UserDiff.leaves_iff old distinct hv hu huuid x.session.tag
  have htally : y.tally t = if t ∈ userTags (x.run es).session.tag
      (UserDiff.between (x.run es).session.users new).deleted then {} else (x.run es).tally t := by
    have hy : y = (x.run es).step (.users (.ok (some new))) :=
      run_append x es [.users (.ok (some new))]
    rw [hy, hstep]
    exact hmoved.tally t
  rw [htally, hs]
  by_cases hspeed : v.speedLimit = u.speedLimit
  · rw [if_pos hspeed, if_neg fun hgone => hleaves.1 hgone hspeed]
  · rw [if_neg hspeed, if_pos (hleaves.2 hspeed)]

section AliceSpeedsUp

def aliceWasBusy : List NodeEvent :=
  [.account "[http://p]-shadowsocks:1" "[http://p]-shadowsocks:1|alice" 1000 500, .beginSync,
    .alive (.ok ∅)]

/-- The list that comes has another speed for her, and what she has used is not counted any more. -/
theorem alice_loses_residue :
    let x := (started (Place.fresh "aes-128-gcm") [⟨7, "alice", 0, 0⟩] (.ok ∅)).run aliceWasBusy
    let new : List User := [⟨7, "alice", 8, 0⟩]
    Distinct x.session.users ∧ Distinct new ∧ x.TakesOver new ∧
      ¬∀ v ∈ x.session.users, ∀ u ∈ new, v.uuid = u.uuid →
        (x.step (.users (.ok (some new)))).tally (userTag x.session.tag u.uuid) =
          x.tally (userTag x.session.tag u.uuid) := by
  decide +kernel

theorem alice_keeps_residue :
    let x := started (Place.fresh "aes-128-gcm") [⟨7, "alice", 0, 0⟩] (.ok ∅)
    let new : List User := [⟨7, "alice", 0, 3⟩, ⟨8, "bob", 0, 0⟩]
    (x.run (aliceWasBusy ++ [.users (.ok (some new))])).tally
      (userTag x.session.tag "alice") = ⟨1000, 500⟩ := by
  intro x new
  have hold : Distinct x.session.users := by decide +kernel
  have hmeanwhile : ∀ e ∈ aliceWasBusy, e.list? = none := by simp [aliceWasBusy, NodeEvent.list?]
  have htakes : (x.run aliceWasBusy).TakesOver new := by decide +kernel
  obtain ⟨hkept, -⟩ := tally_after_sync hold (by decide) hmeanwhile htakes
    ⟨7, "alice", 0, 0⟩ (by decide +kernel) ⟨7, "alice", 0, 3⟩ (by decide) rfl
  exact hkept.trans (by decide +kernel)

end AliceSpeedsUp

end RunningNode

end NodeAgent
