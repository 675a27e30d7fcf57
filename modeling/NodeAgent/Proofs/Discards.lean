import Mathlib.Data.List.Induction
import NodeAgent.Proofs.Isolation
import NodeAgent.Proofs.Operations

/-!
What was counted for a user and not reported when he was taken out, or his node was. It goes with
his counter: whatever is done afterwards, reports about him hold only what was counted from then on.
-/

namespace NodeAgent

namespace Core

def Operation.bytes (tag user : String) (w : Way) : Operation → Nat
  | .account node name upload download =>
    if node = tag ∧ name = user then Tally.bytes ⟨upload, download⟩ w else 0
  | _ => 0

def counted (tag user : String) (w : Way) : List Operation → Nat
  | [] => 0
  | op :: ops => op.bytes tag user w + counted tag user w ops

theorem counted_append (tag user : String) (w : Way) (ops ops' : List Operation) :
    counted tag user w (ops ++ ops') = counted tag user w ops + counted tag user w ops' := by
  induction ops with
  | nil => exact (Nat.zero_add _).symm
  | cons op ops ih => rw [List.cons_append, counted, counted, ih, Nat.add_assoc]

def reports (c : Core LocalEngine) (tag user : String) (w : Way) : Operation → Nat
  | .trafficSlice node threshold =>
    if node = tag ∧ (c.trafficSlice node threshold).2.toBool then
      carried user w (c.toReport node threshold)
    else 0
  | _ => 0

def reportedAlong (tag user : String) (w : Way) : Core LocalEngine → List Operation → Nat
  | _, [] => 0
  | c, op :: ops => c.reports tag user w op + reportedAlong tag user w (c.perform op) ops

variable {c c₁ : Core LocalEngine} {tag user : String}

theorem tally_uncounted (c : Core LocalEngine) {op : Operation} (tag user : String)
    (hop : ∀ node name upload download, op ≠ .account node name upload download) :
    ((c.perform op).traffic.counter tag).tally user = (c.traffic.counter tag).tally user ∨
      ((c.perform op).traffic.counter tag).tally user = {} := by
  cases op with
  | addNode node info =>
    rw [perform, addNode]
    split <;> exact .inl rfl
  | delNode node =>
    rcases c.delNode_ends node with ⟨-, -, htraffic⟩ | ⟨-, htraffic⟩
    · exact .inl (by rw [perform, htraffic])
    · rw [perform, htraffic, TrafficRegistry.counter, Table.find?_erase]
      split
      · exact .inr rfl
      · exact .inl rfl
  | addUsers node info users =>
    rw [perform, addUsers]
    split <;> exact .inl rfl
  | delUsers node users =>
    rcases c.delUsers_ends node users with ⟨-, -, htraffic⟩ | ⟨-, -, htraffic⟩
    · exact .inl (by rw [perform, htraffic])
    · rw [perform, htraffic]
      by_cases hnode : tag = node
      · rw [hnode, tally_modify_eraseMany]
        split
        · exact .inr rfl
        · exact .inl rfl
      · refine .inl ?_
        rw [TrafficRegistry.counter, Table.find?_modify, if_neg hnode]
        rfl
  | account node name upload download => exact absurd rfl (hop node name upload download)
  | trafficSlice node threshold =>
    by_cases hnode : tag = node
    · rw [hnode]
      exact c.tally_trafficSlice node threshold user
    · refine .inl ?_
      rw [perform, TrafficRegistry.counter, (trafficSlice_leavesAlone hnode threshold).counter]
      rfl

theorem tally_perform (c : Core LocalEngine) (op : Operation) (tag user : String) :
    (∀ w, (((c.perform op).traffic.counter tag).tally user).bytes w =
        (((c.traffic.counter tag).tally user).bytes w + op.bytes tag user w) % UInt64.size) ∨
      ((c.perform op).traffic.counter tag).tally user = {} ∧ ∀ w, op.bytes tag user w = 0 := by
  have hstays : ∀ w, ((c.traffic.counter tag).tally user).bytes w =
      (((c.traffic.counter tag).tally user).bytes w + 0) % UInt64.size :=
    fun w => (Nat.mod_eq_of_lt (Tally.bytes_lt _ w)).symm
  by_cases hop : ∃ node name upload download, op = .account node name upload download
  · obtain ⟨node, name, upload, download, rfl⟩ := hop
    refine .inl fun w => ?_
    rw [perform, account, TrafficRegistry.tally_account, Operation.bytes]
    by_cases hown : tag = node ∧ user = name
    · rw [if_pos hown, if_pos ⟨hown.1.symm, hown.2.symm⟩, Tally.bytes_add_mod, hown.1, hown.2]
    · rw [if_neg hown, if_neg fun h => hown ⟨h.1.symm, h.2.symm⟩]
      exact hstays w
  · simp only [not_exists] at hop
    have hnone : ∀ w, op.bytes tag user w = 0 := by
      intro w
      cases op with
      | account node name upload download => exact absurd rfl (hop node name upload download)
      | _ => rfl
    rcases c.tally_uncounted tag user hop with hsame | hempty
    · refine .inl fun w => ?_
      rw [hsame, hnone]
      exact hstays w
    · exact .inr ⟨hempty, hnone⟩

theorem tally_run (h : (c.traffic.counter tag).tally user = {}) (ops : List Operation) :
    ∃ earlier recent, ops = earlier ++ recent ∧
      ∀ w, (((c.run ops).traffic.counter tag).tally user).bytes w =
        counted tag user w recent % UInt64.size := by
  induction ops using List.reverseRecOn with
  | nil => exact ⟨[], [], rfl, fun w => by rw [run, h]; exact Tally.bytes_zero w⟩
  | append_singleton ops op ih =>
    obtain ⟨earlier, recent, rfl, hrecent⟩ := ih
    rw [run_concat]
    rcases (c.run (earlier ++ recent)).tally_perform op tag user with hcounts | ⟨hempty, -⟩
    · refine ⟨earlier, recent ++ [op], List.append_assoc .., fun w => ?_⟩
      rw [hcounts, hrecent, counted_append, counted, counted, Nat.add_zero, Nat.mod_add_mod]
    · refine ⟨earlier ++ recent ++ [op], [], (List.append_nil _).symm, fun w => ?_⟩
      rw [hempty]
      exact Tally.bytes_zero w

theorem reports_perform (c : Core LocalEngine) (op : Operation) (tag user : String) (w : Way) :
    c.reports tag user w op + (((c.perform op).traffic.counter tag).tally user).bytes w ≤
      ((c.traffic.counter tag).tally user).bytes w + op.bytes tag user w := by
  by_cases hop : ∃ threshold c' l, op = .trafficSlice tag threshold ∧
      c.trafficSlice tag threshold = (c', .ok l)
  · obtain ⟨threshold, c', l, rfl, hslice⟩ := hop
    have hleft := (trafficSlice_ok hslice).2 user
    have hsplit := share_add_waste c.uids (bytesOver threshold) user w
      ((c.traffic.counter tag).tally user)
    have hreports : c.reports tag user w (.trafficSlice tag threshold) =
        share c.uids (bytesOver threshold) user w ((c.traffic.counter tag).tally user) := by
      rw [reports, if_pos ⟨rfl, by rw [hslice]; rfl⟩, carried_toReport]
    rw [hreports, perform, hslice, hleft]
    omega
  · have hreports : c.reports tag user w op = 0 := by
      cases op with
      | trafficSlice node threshold =>
        refine if_neg fun hreports => hop ?_
        obtain ⟨rfl, hok⟩ := hreports
        rcases hslice : c.trafficSlice node threshold with ⟨c', o | l⟩
        · rw [hslice] at hok
          cases hok
        · exact ⟨threshold, c', l, rfl, hslice⟩
      | _ => rfl
    rw [hreports, Nat.zero_add]
    rcases c.tally_perform op tag user with hcounts | ⟨hempty, -⟩
    · rw [hcounts]
      exact Nat.mod_le ..
    · rw [hempty, Tally.bytes_zero]
      exact Nat.zero_le _

theorem reportedAlong_run (c : Core LocalEngine) (ops : List Operation) (tag user : String)
    (w : Way) :
    reportedAlong tag user w c ops + (((c.run ops).traffic.counter tag).tally user).bytes w ≤
      ((c.traffic.counter tag).tally user).bytes w + counted tag user w ops := by
  induction ops generalizing c with
  | nil => exact Nat.le_of_eq (Nat.zero_add _)
  | cons op ops ih =>
    have hstep := c.reports_perform op tag user w
    have hrest := ih (c.perform op)
    rw [reportedAlong, run, counted]
    omega

/-- The user is taken out, or his node is, and the call does not fail. -/
def Discards (c c₁ : Core LocalEngine) (tag user : String) : Prop :=
  (∃ users, user ∈ userTags tag users ∧ c.delUsers tag users = (c₁, .ok ())) ∨
    c.delNode tag = (c₁, .ok ())

theorem Discards.tally (h : Discards c c₁ tag user) : (c₁.traffic.counter tag).tally user = {} := by
  rcases h with ⟨users, huser, hdel⟩ | hdel
  · rw [(delUsers_ok hdel).1.tally, if_pos huser]
  · rw [TrafficRegistry.counter, (delNode_ok hdel).nothing_left.2.1]
    rfl

/--
Once the user was taken out, or his node was, whatever his counter said is gone for good. A report
holds the bytes that the counters of its node say; the counter of the user says only what was
counted for him since it was emptied last, which is a part of what came after the removal; and all
reports together hold no more bytes of his than came after it.
-/
theorem residue_discarded (removed : Discards c c₁ tag user) (after : List Operation) :
    let x := c₁.run after
    (∀ node threshold x' l, x.trafficSlice node threshold = (x', .ok l) →
      l = (x.toReport node threshold).map Prod.snd ∧
      ∀ name t, (name, t) ∈ x.toReport node threshold →
        ∀ w, t.bytes w = ((x.traffic.counter node).tally name).bytes w) ∧
    (∃ earlier recent, after = earlier ++ recent ∧
      ∀ w, ((x.traffic.counter tag).tally user).bytes w =
        counted tag user w recent % UInt64.size) ∧
    ∀ w, reportedAlong tag user w c₁ after + ((x.traffic.counter tag).tally user).bytes w ≤
      counted tag user w after := by
  intro x
  refine ⟨fun node threshold x' l hslice => ⟨(trafficSlice_ok hslice).1, ?_⟩,
    tally_run removed.tally after, fun w => ?_⟩
  · exact fun name t ht => (mem_toReport ht).2
  · have hbound := c₁.reportedAlong_run after tag user w
    rwa [removed.tally, Tally.bytes_zero, Nat.zero_add] at hbound

section ComesBack

def aliceUnreported : Core LocalEngine :=
  let node := nodeTag "http://p" .hysteria2 1
  let info : NodeInfo := { id := 1, kind := .hysteria2, endpoint := { port := 1 } }
  run { engine := {} } [.addNode node info, .addUsers node info [⟨1, "alice", 0, 0⟩],
    .account node (userTag node "alice") 999 0, .trafficSlice node 1]

def comesBack : List Operation :=
  let node := nodeTag "http://p" .hysteria2 1
  let info : NodeInfo := { id := 1, kind := .hysteria2, endpoint := { port := 1 } }
  [.addUsers node info [⟨1, "alice", 0, 0⟩], .account node (userTag node "alice") 500 0,
    .trafficSlice node 0, .account node (userTag node "alice") 7 0]

theorem comesBack_without_residue :
    let node := nodeTag "http://p" .hysteria2 1
    let alice := userTag node "alice"
    let c := aliceUnreported
    ∃ c₁, Discards c c₁ node alice ∧ (c.traffic.counter node).tally alice = ⟨999, 0⟩ ∧
      reportedAlong node alice .up c₁ comesBack = 500 ∧
      500 + (((c₁.run comesBack).traffic.counter node).tally alice).bytes .up ≤ 507 := by
  intro node alice c
  have hok : (c.delUsers node [⟨1, "alice", 0, 0⟩]).2 = .ok () := by decide +kernel
  have hdiscards : Discards c (c.delUsers node [⟨1, "alice", 0, 0⟩]).1 node alice :=
    .inl ⟨_, userTag_mem_userTags.2 ⟨_, List.mem_singleton_self _, rfl⟩, Prod.ext rfl hok⟩
  have hcounted : counted node alice .up comesBack = 507 := by decide +kernel
  have hreported : reportedAlong node alice .up (c.delUsers node [⟨1, "alice", 0, 0⟩]).1
      comesBack = 500 := by decide +kernel
  obtain ⟨-, -, hbound⟩ := residue_discarded hdiscards comesBack
  have hup := hbound .up
  rw [hreported, hcounted] at hup
  exact ⟨_, hdiscards, by decide +kernel, hreported, hup⟩

end ComesBack

end Core

end NodeAgent
