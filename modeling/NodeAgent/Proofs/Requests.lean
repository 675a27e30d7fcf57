import NodeAgent.Endpoint
import NodeAgent.Watch

/-!
Requests to reload, from the first change that anyone notices to the receiver. Two pollers with a memory
of their own, and whoever else likes to, put them into a mailbox for one; that it drops what comes while
it is full loses nothing.
-/

namespace NodeAgent

/-- What can happen around the mailbox, in any order. -/
inductive Occurrence
  | fetched (answer : Except PanelError (Option ServerReply))
  | polled (current : Option Int)
  | raised
  | received
  | receiverDropped

def Occurrence.time? : Occurrence → Option Int
  | polled current => current
  | _ => none

structure Requests where
  signal : Signal := {}
  watch : FileWatch

namespace Requests

def step (r : Requests) : Occurrence → Requests
  | .fetched answer => { r with signal := (Monitor.conclude answer r.signal).1 }
  | .polled current =>
    let (watch, signal) := r.watch.pollAndRaise current r.signal
    { signal, watch }
  | .raised => { r with signal := r.signal.raise.1 }
  | .received => { r with signal := r.signal.receive.1 }
  | .receiverDropped => { r with signal := r.signal.dropReceiver }

def run (r : Requests) (history : List Occurrence) : Requests := history.foldl step r

def asks (r : Requests) : Occurrence → Bool
  | .fetched (.ok (some _)) => true
  | .polled current => (r.watch.poll current).2
  | .raised => true
  | _ => false

def posts (r : Requests) (o : Occurrence) : Bool := r.asks o && r.signal.raise.2

def takes (r : Requests) : Occurrence → Bool
  | .received => r.signal.receive.2
  | _ => false

def count (p : Requests → Occurrence → Bool) : Requests → List Occurrence → Nat
  | _, [] => 0
  | r, o :: rest => (p r o).toNat + count p (r.step o) rest

variable {r : Requests} {o : Occurrence} {history : List Occurrence}

theorem run_append (r : Requests) (before after : List Occurrence) :
    r.run (before ++ after) = (r.run before).run after := List.foldl_append ..

theorem signal_step_of_asks (h : r.asks o = true) : (r.step o).signal = r.signal.raise.1 := by
  cases o with
  | fetched answer =>
    rcases answer with err | _ | reply
    · cases h
    · cases h
    · rfl
  | polled current =>
    have hchanged : (r.watch.poll current).2 = true := h
    simp only [step, FileWatch.pollAndRaise, hchanged, if_true]
  | raised => rfl
  | received => cases h
  | receiverDropped => cases h

theorem signal_step_of_not_asks (h : r.asks o = false) :
    (r.step o).signal =
      match o with
      | .received => r.signal.receive.1
      | .receiverDropped => r.signal.dropReceiver
      | _ => r.signal := by
  cases o with
  | fetched answer =>
    rcases answer with err | _ | reply
    · rfl
    · rfl
    · cases h
  | polled current =>
    have hsame : (r.watch.poll current).2 = false := h
    simp only [step, FileWatch.pollAndRaise, hsame, Bool.false_eq_true, if_false]
  | raised => cases h
  | received => rfl
  | receiverDropped => rfl

theorem raise_balance (s : Signal) :
    s.pending.toNat + s.raise.2.toNat = s.raise.1.pending.toNat := by
  obtain ⟨pending, hasReceiver⟩ := s
  cases pending <;> cases hasReceiver <;> rfl

theorem step_balance (r : Requests) (o : Occurrence) :
    r.signal.pending.toNat + (r.posts o).toNat =
      (r.takes o).toNat + (r.step o).signal.pending.toNat := by
  cases hasks : r.asks o with
  | true =>
    have htakes : r.takes o = false := by
      cases o <;> first | rfl | cases hasks
    rw [signal_step_of_asks hasks, posts, hasks, htakes, Bool.true_and, raise_balance]
    exact (Nat.zero_add _).symm
  | false =>
    rw [signal_step_of_not_asks hasks, posts, hasks, Bool.false_and]
    cases o with
    | received => rfl
    | fetched | polled | raised | receiverDropped => exact Nat.add_comm ..

theorem run_balance (r : Requests) (history : List Occurrence) :
    r.signal.pending.toNat + r.count posts history =
      r.count takes history + (r.run history).signal.pending.toNat := by
  induction history generalizing r with
  | nil => exact Nat.add_comm ..
  | cons o rest ih =>
    have hstep := r.step_balance o
    have hrest := ih (r.step o)
    rw [count, count, run, List.foldl_cons, ← run]
    omega

theorem pending_step_of_asks (h : r.asks o = true) (there : r.signal.hasReceiver = true) :
    (r.step o).signal.pending = true := by
  rw [signal_step_of_asks h]
  cases hpending : r.signal.pending <;> simp [Signal.raise, there, hpending]

theorem pending_step (h : r.signal.pending = true) :
    (r.step o).signal.pending = true ∨ r.takes o = true := by
  cases hasks : r.asks o with
  | true =>
    refine .inl ?_
    rw [signal_step_of_asks hasks]
    simp [Signal.raise, h]
  | false =>
    rw [signal_step_of_not_asks hasks]
    cases o with
    | received => exact .inr h
    | fetched | polled | raised | receiverDropped => exact .inl h

theorem pending_or_taken (h : r.signal.pending = true) (history : List Occurrence) :
    (r.run history).signal.pending = true ∨ 0 < r.count takes history := by
  induction history generalizing r with
  | nil => exact .inl h
  | cons o rest ih =>
    rw [count]
    rcases pending_step (o := o) h with hpending | htaken
    · have hrest := ih hpending
      exact hrest.imp_right fun hlater => Nat.lt_of_lt_of_le hlater (Nat.le_add_left ..)
    · rw [htaken]
      exact .inr (Nat.lt_of_lt_of_le Nat.one_pos (Nat.le_add_right ..))

theorem hasReceiver_of_step (h : (r.step o).signal.hasReceiver = true) :
    r.signal.hasReceiver = true := by
  cases hasks : r.asks o with
  | true =>
    rw [signal_step_of_asks hasks, Signal.raise] at h
    split at h <;> exact h
  | false =>
    rw [signal_step_of_not_asks hasks] at h
    cases o with
    | receiverDropped => cases h
    | fetched | polled | raised | received => exact h

theorem hasReceiver_of_run (h : (r.run history).signal.hasReceiver = true) :
    r.signal.hasReceiver = true := by
  induction history generalizing r with
  | nil => exact h
  | cons o rest ih => exact hasReceiver_of_step (ih h)

theorem kept_of_asks {before after : List Occurrence} (h : (r.run before).asks o = true)
    (there : (r.run (before ++ o :: after)).signal.hasReceiver = true) :
    (r.run (before ++ o :: after)).signal.pending = true ∨
      0 < (r.run (before ++ [o])).count takes after := by
  have hafter : r.run (before ++ o :: after) = (r.run (before ++ [o])).run after := by
    rw [← run_append, List.append_assoc, List.singleton_append]
  have hstep : r.run (before ++ [o]) = (r.run before).step o := by
    rw [run_append]
    rfl
  rw [hafter] at there ⊢
  apply pending_or_taken
  rw [hstep]
  apply pending_step_of_asks h
  apply hasReceiver_of_step (o := o)
  rw [← hstep]
  exact hasReceiver_of_run there

section File

variable {m : Int}

def Saw (r : Requests) (m : Int) : Prop := ∀ t ∈ r.watch.last, t = m

theorem watch_step (r : Requests) (o : Occurrence) :
    (r.step o).watch = match o with
      | .polled current => ⟨current⟩
      | _ => r.watch := by
  cases o <;> rfl

theorem Saw.run (h : r.Saw m) (same : ∀ o ∈ history, ∀ t ∈ o.time?, t = m) :
    (r.run history).Saw m := by
  induction history generalizing r with
  | nil => exact h
  | cons o rest ih =>
    apply ih
    · intro t ht
      rw [watch_step] at ht
      cases o with
      | polled current => exact same _ List.mem_cons_self t ht
      | fetched | raised | received | receiverDropped => exact h t ht
    · exact fun o' ho' => same o' (List.mem_cons_of_mem _ ho')

theorem Saw.asks (h : r.Saw m) {t : Int} (ht : t ≠ m) : r.asks (.polled (some t)) = true := by
  have hne : (some t != r.watch.last) = true := by
    rw [bne_iff_ne]
    intro heq
    exact ht (h t heq.symm)
  rw [Requests.asks, FileWatch.poll, hne]
  rfl

theorem exists_first_change {seen : List Occurrence} {t : Int} (hmem : .polled (some t) ∈ seen)
    (ht : t ≠ m) :
    ∃ same t' rest, seen = same ++ .polled (some t') :: rest ∧ t' ≠ m ∧
      ∀ o ∈ same, ∀ u ∈ o.time?, u = m := by
  have hsome : (seen.find? fun o => o.time?.any (· ≠ m)).isSome := by
    rw [List.find?_isSome]
    exact ⟨_, hmem, by simpa [Occurrence.time?] using ht⟩
  obtain ⟨o, ho⟩ := Option.isSome_iff_exists.1 hsome
  obtain ⟨hchanged, same, rest, rfl, hsame⟩ := List.find?_eq_some_iff_append.1 ho
  obtain ⟨t', ht', hne⟩ := (Option.any_eq_true ..).1 hchanged
  have hpolled : o = .polled (some t') := by
    cases o <;> simp_all [Occurrence.time?]
  refine ⟨same, t', rest, by rw [hpolled], of_decide_eq_true hne, fun o' ho' u hu => ?_⟩
  have hfalse := hsame o' ho'
  rw [hu] at hfalse
  simpa using hfalse

theorem saw_after_poll (r : Requests) (before : List Occurrence) (m : Int) :
    (r.run (before ++ [.polled (some m)])).Saw m := by
  have hrun : r.run (before ++ [.polled (some m)]) = (r.run before).step (.polled (some m)) := by
    rw [run_append]
    rfl
  intro u hu
  rw [hrun, watch_step] at hu
  exact (Option.some.inj hu).symm

end File

/--
From an empty mailbox on, whatever happens in whatever order. As many requests got in as got out and are
still there, so that there is one at most. While someone may still receive them: after a fetch that tells
of a change, a request is there or was taken since; and if the file was seen with two different times,
then there was a first look at it that showed another time than before, and a request is there or was
taken since that look, though the file may have been away in between.
-/
theorem requests_kept (last : Option Int) (history : List Occurrence) :
    let r : Requests := { watch := ⟨last⟩ }
    r.count posts history = r.count takes history + (r.run history).signal.pending.toNat ∧
    ((r.run history).signal.hasReceiver = true →
      (∀ before reply after, history = before ++ .fetched (.ok (some reply)) :: after →
        (r.run history).signal.pending = true ∨
          0 < (r.run (before ++ [.fetched (.ok (some reply))])).count takes after) ∧
      ∀ before m between m' after,
        history = before ++ .polled (some m) :: (between ++ .polled (some m') :: after) → m ≠ m' →
        ∃ same t rest, between ++ [.polled (some m')] = same ++ .polled (some t) :: rest ∧ t ≠ m ∧
          (∀ u, .polled (some u) ∈ same → u = m) ∧
          ((r.run history).signal.pending = true ∨
            0 < (r.run (before ++ .polled (some m) :: same ++ [.polled (some t)])).count takes
              (rest ++ after))) := by
  intro r
  refine ⟨?_, fun there => ⟨?_, ?_⟩⟩
  · have hbalance := r.run_balance history
    rwa [show r.signal.pending.toNat = 0 from rfl, Nat.zero_add] at hbalance
  · intro before reply after hhistory
    rw [hhistory] at there ⊢
    exact kept_of_asks rfl there
  · intro before m between m' after hhistory hne
    have hmem : Occurrence.polled (some m') ∈ between ++ [.polled (some m')] :=
      List.mem_append_right _ (List.mem_singleton_self _)
    obtain ⟨same, t, rest, hsplit, ht, hsame⟩ := exists_first_change hmem (Ne.symm hne)
    refine ⟨same, t, rest, hsplit, ht, fun u hu => hsame _ hu u rfl, ?_⟩
    have hparts : history =
        (before ++ .polled (some m) :: same) ++ .polled (some t) :: (rest ++ after) := by
      rw [hhistory, List.append_cons between, hsplit]
      simp
    have hsaw : (r.run (before ++ .polled (some m) :: same)).Saw m := by
      rw [List.append_cons, run_append]
      exact (r.saw_after_poll before m).run hsame
    rw [hparts] at there ⊢
    exact kept_of_asks (hsaw.asks ht) there

section AwayAndBack

/-- The file goes away and comes back with another time, while the mailbox is full. -/
def awayAndBack : List Occurrence :=
  [.polled (some 1), .raised, .polled none, .polled (some 2), .received, .received]

theorem one_reload_for_awayAndBack :
    let r : Requests := { watch := ⟨some 1⟩ }
    r.count posts awayAndBack = 1 ∧ r.count takes awayAndBack = 1 ∧
      ∃ same t rest, [.raised, .polled none, .polled (some 2)] = same ++ .polled (some t) :: rest ∧
        t ≠ 1 ∧ 0 < (r.run (.polled (some 1) :: same ++ [.polled (some t)])).count takes
          (rest ++ [.received, .received]) := by
  intro r
  have hempty : (r.run awayAndBack).signal.pending = false := rfl
  obtain ⟨hbalance, hkept⟩ := requests_kept (some 1) awayAndBack
  obtain ⟨-, hfile⟩ := hkept rfl
  obtain ⟨same, t, rest, hsplit, ht, -, hlater⟩ :=
    hfile [] 1 [.raised, .polled none] 2 [.received, .received] rfl (by decide)
  have htaken : r.count takes awayAndBack = 1 := rfl
  refine ⟨?_, htaken, same, t, rest, hsplit, ht, hlater.resolve_left ?_⟩
  · rw [hbalance, htaken, hempty]
    rfl
  · rw [hempty]
    exact Bool.false_ne_true

end AwayAndBack

end Requests

end NodeAgent
