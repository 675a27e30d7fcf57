import NodeAgent.Proofs.Counters

/-!
The books of one traffic counter, whatever calls are made of it. What is added for a user comes out
once: a reset or a drain gives it back, a deletion takes it away, or it is still there.
-/

namespace NodeAgent

def Way.only (n : UInt64) : Way → Tally
  | .up => ⟨n, 0⟩
  | .down => ⟨0, n⟩

namespace TrafficCounter

inductive Call
  | add (user : String) (w : Way) (n : UInt64)
  | reset (user : String)
  | delete (user : String)
  | drainOver (threshold : UInt64)

def serve (c : TrafficCounter) : Call → TrafficCounter
  | .add user w n => c.add user (w.only n).upload (w.only n).download
  | .reset user => (c.reset user).1
  | .delete user => c.erase user
  | .drainOver threshold => (c.drainOver threshold).1

def run : TrafficCounter → List Call → TrafficCounter
  | c, [] => c
  | c, call :: calls => (c.serve call).run calls

section Books

def added (_ : TrafficCounter) : Call → List (String × Tally)
  | .add user w n => [(user, w.only n)]
  | _ => []

def returned (c : TrafficCounter) : Call → List (String × Tally)
  | .reset user => [(user, (c.reset user).2)]
  | .drainOver threshold => (c.drainOver threshold).2.toOption.getD []
  | _ => []

def deleted (c : TrafficCounter) : Call → List (String × Tally)
  | .delete user => [(user, c.tally user)]
  | _ => []

def along (book : TrafficCounter → Call → List (String × Tally)) :
    TrafficCounter → List Call → List (String × Tally)
  | _, [] => []
  | c, call :: calls => book c call ++ along book (c.serve call) calls

def bytesOf (user : String) (w : Way) : List (String × Tally) → Nat
  | [] => 0
  | e :: l => (if e.1 = user then e.2.bytes w else 0) + bytesOf user w l

def height (c : TrafficCounter) : Call → Nat
  | .add user _ n => (c.tally user).upload.toNat + (c.tally user).download.toNat + n.toNat
  | _ => 0

/-- The greatest total of any user at any moment of a run. -/
def peak : TrafficCounter → List Call → Nat
  | _, [] => 0
  | c, call :: calls => max (c.height call) ((c.serve call).peak calls)

variable {c : TrafficCounter} {user : String} {w : Way}

theorem bytesOf_append (l l' : List (String × Tally)) :
    bytesOf user w (l ++ l') = bytesOf user w l + bytesOf user w l' := by
  induction l with
  | nil => exact (Nat.zero_add _).symm
  | cons e l ih => rw [List.cons_append, bytesOf, bytesOf, ih, Nat.add_assoc]

theorem bytesOf_singleton (other : String) (t : Tally) :
    bytesOf user w [(other, t)] = if other = user then t.bytes w else 0 := Nat.add_zero _

theorem bytesOf_filter {l : List (String × Tally)} (h : (l.map Prod.fst).Nodup)
    (threshold : UInt64) : bytesOf user w (l.filter fun e => e.2.exceeds threshold) +
      (((Table.lookup user l).getD {}).left threshold).bytes w =
        ((Table.lookup user l).getD {}).bytes w := by
  induction l with
  | nil => simp [bytesOf, Table.lookup, Tally.left_zero]
  | cons e l ih =>
    obtain ⟨other, t⟩ := e
    obtain ⟨he, hl⟩ := List.nodup_cons.1 h
    have hrest := ih hl
    rw [List.filter_cons, Table.lookup]
    by_cases huser : other = user
    · have hnone : Table.lookup user l = none := (Table.lookup_eq_none_iff user l).2 (huser ▸ he)
      rw [hnone, Option.getD_none, Tally.left_zero, Tally.bytes_zero, Nat.add_zero] at hrest
      by_cases hex : t.exceeds threshold = true <;>
        simp [hex, huser, bytesOf, hrest, Tally.left]
    · rw [if_neg huser]
      by_cases hex : t.exceeds threshold = true <;> simp [hex, huser, bytesOf, hrest]

end Books

section Calls

variable {c : TrafficCounter} {user : String} {w : Way} {call : Call}

theorem tally_reset (c : TrafficCounter) (user other : String) :
    (c.reset user).1.tally other = if other = user then {} else c.tally other := by
  rw [tally, reset, Table.find?_modify]
  split
  · cases c.find? other <;> rfl
  · rfl

theorem tally_erase (c : TrafficCounter) (user other : String) :
    tally (c.erase user) other = if other = user then {} else c.tally other := by
  rw [tally, Table.find?_erase]
  split <;> rfl

theorem mem_of_exceeds {threshold : UInt64} (h : (c.tally user).exceeds threshold = true) :
    (user, c.tally user) ∈ c.entries := by
  rw [tally] at h ⊢
  cases hfind : c.find? user with
  | none =>
    rw [hfind, Option.getD_none, Tally.exceeds_zero] at h
    cases h
  | some t => exact (c.find?_eq_some_iff user t).1 hfind

theorem drainOver_eq (h : ∀ u, (c.tally u).InRange) (threshold : UInt64) :
    c.drainOver threshold = (c.map fun _ t => t.left threshold,
      .ok (c.entries.filter fun e => e.2.exceeds threshold)) :=
  drainOver_of_inRange threshold fun e he => tally_of_mem he ▸ h e.1

theorem serve_inRange (h : ∀ u, (c.tally u).InRange) (room : c.height call < UInt64.size)
    (u : String) : ((c.serve call).tally u).InRange := by
  cases call with
  | add user w n =>
    rw [serve, tally_add]
    split
    · refine Tally.inRange_add ?_
      cases w <;> exact room
    · exact h u
  | reset user =>
    rw [serve, tally_reset]
    split
    · exact Tally.inRange_zero
    · exact h u
  | delete user =>
    rw [serve, tally_erase]
    split
    · exact Tally.inRange_zero
    · exact h u
  | drainOver threshold =>
    rw [serve, drainOver_eq h, tally_left]
    exact (h u).left threshold

theorem bytesOf_emptied (c : TrafficCounter) (other user : String) (w : Way) :
    (c.tally user).bytes w = bytesOf user w [(other, c.tally other)] +
      Tally.bytes (if user = other then {} else c.tally user) w := by
  rw [bytesOf_singleton]
  by_cases huser : other = user
  · rw [if_pos huser, if_pos huser.symm, Tally.bytes_zero, huser, Nat.add_zero]
  · rw [if_neg huser, if_neg (Ne.symm huser), Nat.zero_add]

theorem serve_balanced (h : ∀ u, (c.tally u).InRange) (room : c.height call < UInt64.size)
    (user : String) (w : Way) : (c.tally user).bytes w + bytesOf user w (c.added call) =
      bytesOf user w (c.returned call) + bytesOf user w (c.deleted call) +
        ((c.serve call).tally user).bytes w := by
  cases call with
  | add other w' n =>
    have hadd : ((c.tally other).add (w'.only n).upload (w'.only n).download).bytes w =
        (c.tally other).bytes w + (w'.only n).bytes w :=
      Tally.bytes_add (by cases w' <;> exact room) w
    simp only [added, returned, deleted, serve, tally_add, bytesOf_singleton, bytesOf]
    by_cases huser : other = user
    · rw [if_pos huser, if_pos huser.symm, hadd, huser]
      omega
    · rw [if_neg huser, if_neg (Ne.symm huser)]
      omega
  | reset other =>
    simp only [added, returned, deleted, serve, tally_reset, bytesOf, Nat.add_zero]
    exact c.bytesOf_emptied other user w
  | delete other =>
    simp only [added, returned, deleted, serve, tally_erase, bytesOf, Nat.add_zero, Nat.zero_add]
    exact c.bytesOf_emptied other user w
  | drainOver threshold =>
    simp only [added, returned, deleted, serve, drainOver_eq h, tally_left, bytesOf]
    exact (bytesOf_filter c.nodup threshold).symm

theorem run_balanced (h : ∀ u, (c.tally u).InRange) {calls : List Call}
    (room : c.peak calls < UInt64.size) :
    (∀ u, ((c.run calls).tally u).InRange) ∧ ∀ user w,
      (c.tally user).bytes w + bytesOf user w (along added c calls) =
        bytesOf user w (along returned c calls) + bytesOf user w (along deleted c calls) +
          ((c.run calls).tally user).bytes w := by
  induction calls generalizing c with
  | nil => exact ⟨h, fun user w => (Nat.zero_add _).symm⟩
  | cons call calls ih =>
    obtain ⟨hcall, hcalls⟩ := Nat.max_lt.1 room
    obtain ⟨hrange, hrest⟩ := ih (serve_inRange h hcall) hcalls
    refine ⟨hrange, fun user w => ?_⟩
    have hstep := serve_balanced h hcall user w
    have hnext := hrest user w
    simp only [along, bytesOf_append]
    rw [run]
    omega

end Calls

/--
In every run in which no total leaves its range, what was added for a user is what was returned,
what went with deleted counters and what is there now. The next reset returns all that is there and
leaves nothing, and so does the next drain of each user that it takes; it leaves the others as they
are.
-/
theorem increments_kept (calls : List Call) (room : peak ∅ calls < UInt64.size) :
    let c := run ∅ calls
    (∀ user w, bytesOf user w (along added ∅ calls) =
      bytesOf user w (along returned ∅ calls) + bytesOf user w (along deleted ∅ calls) +
        (c.tally user).bytes w) ∧
      (∀ user, (c.reset user).2 = c.tally user ∧ (c.reset user).1.tally user = {}) ∧
      ∀ threshold, ∃ c' taken, c.drainOver threshold = (c', .ok taken) ∧
        (taken.map Prod.fst).Nodup ∧
        (∀ user t, (user, t) ∈ taken → t = c.tally user ∧ c'.tally user = {}) ∧
        ∀ user, user ∉ taken.map Prod.fst → c'.tally user = c.tally user := by
  intro c
  have hstart : ∀ u, (tally ∅ u).InRange := fun _ => Tally.inRange_zero
  obtain ⟨hrange, hbooks⟩ := run_balanced hstart room
  refine ⟨fun user w => ?_, fun user => ⟨rfl, ?_⟩, fun threshold => ?_⟩
  · have hsum := hbooks user w
    rwa [show (tally ∅ user).bytes w = 0 from Tally.bytes_zero w, Nat.zero_add] at hsum
  · rw [tally_reset, if_pos rfl]
  · refine ⟨_, _, drainOver_eq hrange threshold, ?_, fun user t ht => ?_, fun user huser => ?_⟩
    · exact Table.nodup_filter _ c.nodup
    · obtain ⟨hmem, hexceeds⟩ := List.mem_filter.1 ht
      have htally : c.tally user = t := tally_of_mem hmem
      rw [tally_left, htally, Tally.left, if_pos hexceeds]
      exact ⟨rfl, rfl⟩
    · rw [tally_left, Tally.left]
      refine if_neg fun hexceeds => huser ?_
      exact List.mem_map.2 ⟨_, List.mem_filter.2 ⟨mem_of_exceeds hexceeds, hexceeds⟩, rfl⟩

section AliceAndBob

def aliceAndBob : List Call :=
  [.add "alice" .up 1000, .add "bob" .up 40, .drainOver 100, .add "alice" .up 7, .add "bob" .up 5,
    .delete "alice", .reset "bob", .add "alice" .up 3]

theorem increments_of_aliceAndBob :
    let c := run ∅ aliceAndBob
    peak ∅ aliceAndBob < UInt64.size ∧ bytesOf "alice" .up (along added ∅ aliceAndBob) = 1010 ∧
      bytesOf "alice" .up (along returned ∅ aliceAndBob) = 1000 ∧
      bytesOf "alice" .up (along deleted ∅ aliceAndBob) = 7 ∧ (c.tally "alice").bytes .up = 3 ∧
      (c.reset "alice").1.tally "alice" = {} := by
  intro c
  have hroom : peak ∅ aliceAndBob < UInt64.size := by decide +kernel
  have hadded : bytesOf "alice" .up (along added ∅ aliceAndBob) = 1010 := by decide +kernel
  have hreturned : bytesOf "alice" .up (along returned ∅ aliceAndBob) = 1000 := by decide +kernel
  have hdeleted : bytesOf "alice" .up (along deleted ∅ aliceAndBob) = 7 := by decide +kernel
  obtain ⟨hbooks, hreset, -⟩ := increments_kept aliceAndBob hroom
  have hsum := hbooks "alice" .up
  rw [hadded, hreturned, hdeleted] at hsum
  change 1010 = 1000 + 7 + (c.tally "alice").bytes .up at hsum
  exact ⟨hroom, hadded, hreturned, hdeleted, by omega, (hreset "alice").2⟩

end AliceAndBob

end TrafficCounter

end NodeAgent
