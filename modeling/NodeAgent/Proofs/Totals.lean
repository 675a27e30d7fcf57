import NodeAgent.Proofs.Conservation
import NodeAgent.Proofs.Slices

/-!
When a report comes to its end. Upload and download of a user are counted round the word, each on
its own, and then added up; a pass over the counters stops at a user for whom that sum leaves the
word. Who stood before him is emptied for nothing, and the report of the node does not run again.
-/

namespace NodeAgent

structure Accounting where
  node : String
  user : String
  upload : UInt64
  download : UInt64

namespace Accounting

def bytes (tag user : String) (w : Way) (a : Accounting) : Nat :=
  if tag = a.node ∧ user = a.user then Tally.bytes ⟨a.upload, a.download⟩ w else 0

def counted (tag user : String) (w : Way) : List Accounting → Nat
  | [] => 0
  | a :: calls => a.bytes tag user w + counted tag user w calls

end Accounting

namespace TrafficCounter

variable {c c' : TrafficCounter} {threshold : UInt64}

theorem drainEntries_error {l left : List (String × Tally)} {o : Overflow}
    (h : drainEntries threshold l = (left, .error o)) : ∃ before user t after,
      l = before ++ (user, t) :: after ∧ (∀ e ∈ before, e.2.InRange) ∧ ¬t.InRange ∧
      left = before.map (fun e => (e.1, e.2.left threshold)) ++ (user, t) :: after := by
  induction l generalizing left with
  | nil => cases (Prod.mk.inj h).2
  | cons e r ih =>
    obtain ⟨user, t⟩ := e
    by_cases ht : t.InRange
    · rw [drainEntries_cons ht] at h
      rcases hr : drainEntries threshold r with ⟨left', o' | taken⟩
      · rw [hr] at h
        obtain ⟨rfl, ho⟩ := Prod.mk.inj h
        obtain rfl : o' = o := Except.error.inj ho
        obtain ⟨before, user', t', after, rfl, hbefore, ht', rfl⟩ := ih hr
        refine ⟨(user, t) :: before, user', t', after, rfl, fun e he => ?_, ht', rfl⟩
        rcases List.mem_cons.1 he with rfl | he
        · exact ht
        · exact hbefore e he
      · rw [hr] at h
        cases (Prod.mk.inj h).2
    · rw [drainEntries_cons_out ht] at h
      obtain ⟨rfl, -⟩ := Prod.mk.inj h
      exact ⟨[], user, t, r, rfl, nofun, ht, rfl⟩

theorem drainOver_ok_iff (c : TrafficCounter) (threshold : UInt64) :
    (∃ c' taken, c.drainOver threshold = (c', .ok taken)) ↔ ∀ user, (c.tally user).InRange := by
  constructor
  · rintro ⟨c', taken, h⟩
    exact inRange_of_entries (inRange_of_drainEntries (drainEntries_of_drainOver h))
  · intro h
    exact ⟨_, _, drainOver_of_inRange threshold fun e he => tally_of_mem he ▸ h e.1⟩

end TrafficCounter

namespace Core

variable {ε : Type} {c c' : Core ε} {tag : String} {threshold : UInt64}

def accountAll (c : Core ε) : List Accounting → Core ε
  | [] => c
  | a :: calls => (c.account a.node a.user a.upload a.download).accountAll calls

def totalAfter (c : Core ε) (calls : List Accounting) (tag user : String) : Nat :=
  (((c.traffic.counter tag).tally user).bytes .up + Accounting.counted tag user .up calls) %
      UInt64.size +
    (((c.traffic.counter tag).tally user).bytes .down + Accounting.counted tag user .down calls) %
      UInt64.size

theorem bytes_accountAll (c : Core ε) (calls : List Accounting) (tag user : String) (w : Way) :
    (((c.accountAll calls).traffic.counter tag).tally user).bytes w =
      (((c.traffic.counter tag).tally user).bytes w + Accounting.counted tag user w calls) %
        UInt64.size := by
  induction calls generalizing c with
  | nil => exact (Nat.mod_eq_of_lt (Tally.bytes_lt _ w)).symm
  | cons a calls ih =>
    rw [accountAll, ih, account, TrafficRegistry.tally_account, Accounting.counted,
      Accounting.bytes]
    by_cases hown : tag = a.node ∧ user = a.user
    · rw [if_pos hown, if_pos hown, Tally.bytes_add_mod, Nat.mod_add_mod, Nat.add_assoc, hown.1,
        hown.2]
    · rw [if_neg hown, if_neg hown, Nat.zero_add]

theorem inRange_accountAll_iff (c : Core ε) (calls : List Accounting) (tag user : String) :
    (((c.accountAll calls).traffic.counter tag).tally user).InRange ↔
      c.totalAfter calls tag user < UInt64.size := by
  rw [totalAfter, ← bytes_accountAll, ← bytes_accountAll]
  rfl

theorem trafficSlice_ok_iff (c : Core ε) (tag : String) (threshold : UInt64) :
    (∃ c' l, c.trafficSlice tag threshold = (c', .ok l)) ↔
      ∀ user, ((c.traffic.counter tag).tally user).InRange := by
  constructor
  · rintro ⟨c', l, h⟩
    exact inRange_of_trafficSlice h
  · intro h
    obtain ⟨c', hslice, -⟩ := trafficSlice_of_inRange h threshold
    exact ⟨c', _, hslice⟩

structure StoppedAt (c c' : Core ε) (tag : String) (threshold : UInt64) (user : String)
    (t : Tally) : Prop where
  out : ¬t.InRange
  entries : ∃ before after, (c.traffic.counter tag).entries = before ++ (user, t) :: after ∧
    (∀ e ∈ before, e.2.InRange) ∧ (c'.traffic.counter tag).entries =
      before.map (fun e => (e.1, e.2.left (bytesOver threshold))) ++ (user, t) :: after
  again : ∀ threshold', ∃ c'' o, c'.trafficSlice tag threshold' = (c'', .error o)
  elsewhere : ∀ node, node ≠ tag → c'.traffic.find? node = c.traffic.find? node
  frame : c' = { c with traffic := c'.traffic }

theorem trafficSlice_stopped {o : Overflow} (h : c.trafficSlice tag threshold = (c', .error o)) :
    ∃ user t, StoppedAt c c' tag threshold user t := by
  unfold trafficSlice at h
  split at h
  · cases (Prod.mk.inj h).2
  next counter hsome =>
    split at h
    next counter' o' hdrain =>
      obtain ⟨rfl, -⟩ := Prod.mk.inj h
      obtain ⟨before, user, t, after, hcounter, hbefore, hout, hleft⟩ :=
        TrafficCounter.drainEntries_error (TrafficCounter.drainEntries_of_drainOver hdrain)
      have hkept : counter'.tally user = t :=
        TrafficCounter.tally_of_mem (e := (user, t)) (by simp [hleft])
      refine ⟨user, t, hout, ⟨before, after, ?_, hbefore, ?_⟩, fun threshold' => ?_,
        fun node hnode => Table.find?_insert_of_ne _ _ hnode, rfl⟩
      · rw [TrafficRegistry.counter_of_some hsome, hcounter]
      · rw [TrafficRegistry.counter_insert, hleft]
        rfl
      · rcases hagain : trafficSlice _ tag threshold' with ⟨c'', o'' | l⟩
        · exact ⟨c'', o'', rfl⟩
        · have hrange := (trafficSlice_ok_iff ..).1 ⟨c'', l, hagain⟩ user
          rw [TrafficRegistry.counter_insert, hkept] at hrange
          exact absurd hrange hout
    · cases (Prod.mk.inj h).2

end Core

namespace Session

variable {ε : Type} (s : Session) (c : Core ε)

theorem stepsAfterTraffic_not_overflow (l : List UserTraffic) (o : Overflow) :
    (s.stepsAfterTraffic c l).progress ≠ .finished (.error (.overflow o)) := by
  rcases hd : c.onlineDevices s.tag with ⟨c', _ | ⟨d, ds⟩⟩ <;> simp [stepsAfterTraffic, hd]

theorem beginReport_overflow_iff :
    (∃ o, (s.beginReport c).progress = .finished (.error (.overflow o))) ↔
      ∃ user, ¬((c.traffic.counter s.tag).tally user).InRange := by
  rw [← not_forall, ← c.trafficSlice_ok_iff s.tag s.info.reportThreshold, beginReport]
  rcases c.trafficSlice s.tag s.info.reportThreshold with ⟨c', o | _ | ⟨t, l⟩⟩
  · simp
  · simp [stepsAfterTraffic_not_overflow]
  · simp

end Session

namespace RunningNode

section Any

variable {ε : Type} [Engine ε] {x : RunningNode ε}

theorem report_step_of_dead (h : x.report = .dead) (e : NodeEvent) :
    (x.step e).report = .dead := by
  cases e with
  | beginReport | posted => simp [step, h]
  | account | elapse | note => exact h
  | beginSync | alive | users | invalidated =>
    simp only [step]
    split <;> exact h

theorem report_run_of_dead (h : x.report = .dead) (es : List NodeEvent) :
    (x.run es).report = .dead :=
  run_invariant (P := fun y => y.report = .dead) (fun _ e _ hy => report_step_of_dead hy e) h

theorem beginReport_dead_iff (h : x.report = .idle) : (x.step .beginReport).report = .dead ↔
    ∃ user, ¬((x.core.traffic.counter x.session.tag).tally user).InRange := by
  rw [← Session.beginReport_overflow_iff, step, if_pos h]
  exact Errand.after_eq_dead

theorem report_step_ne_dead (h : x.report ≠ .dead)
    (range : ∀ u, ((x.core.traffic.counter x.session.tag).tally u).InRange) (e : NodeEvent) :
    (x.step e).report ≠ .dead := by
  cases e with
  | account | elapse | note => exact h
  | beginSync | alive | users | invalidated =>
    simp only [step]
    split <;> exact h
  | beginReport =>
    by_cases hidle : x.report = .idle
    · intro hdead
      obtain ⟨user, hout⟩ := (beginReport_dead_iff hidle).1 hdead
      exact hout (range user)
    · rw [step, if_neg hidle]
      exact h
  | posted a =>
    simp only [step]
    split
    · intro hdead
      obtain ⟨o, hover⟩ := Errand.after_eq_dead.1 hdead
      exact x.session.stepsAfterTraffic_not_overflow x.core _ o hover
    · simp [answerReport, Session.resume, Errand.after]
    · simp [answerReport, Session.resume, Errand.after]
    · exact h

end Any

theorem report_lives {χ π : Type} [Shell χ] [PanelApi π χ] {p : Place χ LocalEngine π}
    {users : List User} {alive : Except PanelError AliveCounts} (h : p.Starts users alive)
    (before : ∀ t, ((p.core.traffic.counter p.node.session.tag).tally t).InRange)
    {es : List NodeEvent} (room : (started p users alive).HasRoomAlong es) :
    ((started p users alive).run es).report ≠ .dead := by
  have hstarted := started_spec h
  have hready := hstarted.ready
  have hbalanced := hstarted.balanced before "" .up
  have hlives : (started p users alive).report ≠ .dead := by
    rw [hstarted.report]
    nofun
  generalize started p users alive = x at hready hbalanced hlives room ⊢
  generalize ({} : Ledger) = g at hbalanced
  induction es generalizing x g with
  | nil => exact hlives
  | cons e es ih =>
    exact ih _ (hready.step e) (report_step_ne_dead hlives hbalanced.inRange e) room.2 _
      (hbalanced.step hready room.1)

end RunningNode

namespace Core

/--
After any calls, a pass over the counters of a node comes to its end just if no user's total is out
of range. One that does not has stopped at such a user, and if a report made it, there is no other.
-/
theorem drains_iff {ε : Type} [Engine ε] (c : Core ε) (calls : List Accounting) (tag : String)
    (threshold : UInt64) :
    let c₁ := c.accountAll calls
    let inRange := ∀ user, c.totalAfter calls tag user < UInt64.size
    ((∃ counter taken, (c₁.traffic.counter tag).drainOver threshold = (counter, .ok taken)) ↔
      inRange) ∧
    ((∃ c' l, c₁.trafficSlice tag threshold = (c', .ok l)) ↔ inRange) ∧
    (∀ c' o, c₁.trafficSlice tag threshold = (c', .error o) →
      ∃ user t, StoppedAt c₁ c' tag threshold user t) ∧
    ∀ x : RunningNode ε, x.core = c₁ → x.session.tag = tag → x.report = .idle →
      ((x.step .beginReport).report = .dead ↔ ¬inRange) ∧
        ((x.step .beginReport).report = .dead →
          ∀ es, ((x.step .beginReport).run es).report = .dead) := by
  intro c₁ inRange
  have hrange : (∀ user, ((c₁.traffic.counter tag).tally user).InRange) ↔ inRange :=
    forall_congr' (c.inRange_accountAll_iff calls tag)
  have hdrain := (c₁.traffic.counter tag).drainOver_ok_iff threshold
  refine ⟨hdrain.trans hrange, (c₁.trafficSlice_ok_iff tag threshold).trans hrange,
    fun c' o => trafficSlice_stopped, fun x hcore htag hidle =>
      ⟨?_, RunningNode.report_run_of_dead⟩⟩
  rw [RunningNode.beginReport_dead_iff hidle, hcore, htag, ← not_forall, hrange]

section FullCounter

def aliceAndBobOnline : List Accounting :=
  [⟨"n", "n|alice", 18446744073709551615, 1⟩, ⟨"n", "n|bob", 5, 0⟩]

def servesBoth : Core LocalEngine where
  engine := {}
  uids := Table.ofList [("n|alice", 7), ("n|bob", 8)]

/-- There is no report, and bob's bytes are gone. -/
theorem bob_lost_before_alice :
    let c := servesBoth.accountAll aliceAndBobOnline
    let r := c.trafficSlice "n" 0
    r.2 = .error .add ∧ (c.traffic.counter "n").tally "n|bob" = ⟨5, 0⟩ ∧
      (r.1.traffic.counter "n").tally "n|bob" = {} := by
  exact ⟨rfl, by decide +kernel, by decide +kernel⟩

theorem no_report_after_alice :
    let c := servesBoth.accountAll aliceAndBobOnline
    let x : RunningNode LocalEngine :=
      { session := { tag := "n", info := { id := 1, kind := .shadowsocks } }, core := c }
    ¬(∀ user, servesBoth.totalAfter aliceAndBobOnline "n" user < UInt64.size) ∧
      (∃ user t, StoppedAt c (c.trafficSlice "n" 0).1 "n" 0 user t) ∧
      ∀ es, ((x.step .beginReport).run es).report = .dead := by
  intro c x
  obtain ⟨-, -, hstopped, hreport⟩ := drains_iff servesBoth aliceAndBobOnline "n" 0
  have hout : ¬∀ user, servesBoth.totalAfter aliceAndBobOnline "n" user < UInt64.size :=
    fun h => absurd (h "n|alice") (by decide +kernel)
  obtain ⟨hdead, hlasts⟩ := hreport x rfl rfl rfl
  exact ⟨hout, hstopped _ .add rfl, hlasts (hdead.2 hout)⟩

end FullCounter

end Core

end NodeAgent
