import NodeAgent.Proofs.Start

/-!
When a user list ends the sync of its node. A speed in megabits that does not fit a word in bytes
ends the update of a limiter; the engine has followed the list by then, and neither the limiter nor
the node's own list ever does.
-/

namespace NodeAgent

theorem bytesPerSecond_ok_iff {mbps : UInt64} :
    (∃ rate, bytesPerSecond mbps = .ok rate) ↔ mbps.toNat * 1000000 < UInt64.size := by
  refine ⟨fun ⟨rate, hrate⟩ => ?_, fun h => ⟨_, bytesPerSecond_of_fits h⟩⟩
  rw [bytesPerSecond, Overflow.mul64] at hrate
  split at hrate
  next hfits => exact hfits
  next => cases hrate

/-- Every speed fits next to a default that does. Without a default there are some that do not. -/
theorem LimitDefaults.forall_fits_iff (d : LimitDefaults) :
    (∀ u, d.Fits u) ↔ d.speedLimit ≠ 0 ∧ d.speedLimit.toNat * 1000000 < UInt64.size := by
  constructor
  · intro h
    have hgreatest := h ⟨0, "", UInt64.ofNat (UInt64.size - 1), 0⟩
    have hunlimited := h ⟨0, "", 0, 0⟩
    unfold Fits resolveLimit at hgreatest hunlimited
    by_cases hnone : d.speedLimit = 0
    · simp only [if_pos hnone] at hgreatest
      exact absurd hgreatest (by decide)
    · simp only [if_neg hnone, if_true] at hunlimited
      exact ⟨hnone, hunlimited⟩
  · rintro ⟨hnone, hfits⟩ u
    have hle : resolveLimit d.speedLimit u.speedLimit ≤ d.speedLimit := by
      unfold resolveLimit
      rw [if_neg hnone]
      split
      · exact UInt64.le_refl _
      · exact Std.min_le_left
    exact Nat.lt_of_le_of_lt (Nat.mul_le_mul_right _ (UInt64.le_iff_toNat_le.1 hle)) hfits

namespace Limiter

variable {l : Limiter} {now : Instant}

theorem fits_of_userLimit_ok {u : User} {limit : UserLimit} (h : l.userLimit u now = .ok limit) :
    l.defaults.Fits u := by
  have hobeys := userLimit_ok h
  unfold UserLimit.Obeys at hobeys
  unfold LimitDefaults.Fits
  split at hobeys
  next hnone =>
    rw [hnone]
    decide
  next =>
    obtain ⟨b, -, hrate⟩ := hobeys
    exact bytesPerSecond_ok_iff.1 ⟨_, hrate⟩

theorem update_ok_iff (l : Limiter) (come gone : List User) (now : Instant) :
    (∃ l', l.update come gone now = .ok l') ↔ ∀ u ∈ come, l.defaults.Fits u := by
  refine ⟨fun ⟨l', h⟩ u hu => ?_, update_of_fits gone now⟩
  obtain ⟨limits, hlimits, -⟩ := exists_of_bind_eq_ok h
  obtain ⟨e, -, htagged⟩ := exists_of_mapM_ok hlimits hu
  cases hlimit : l.userLimit u now with
  | error o =>
    rw [hlimit] at htagged
    cases htagged
  | ok limit => exact fits_of_userLimit_ok hlimit

theorem ofUsers_ok_iff {tag : String} {d : LimitDefaults} {users : List User}
    {alive : AliveCounts} :
    (∃ l, ofUsers tag d users alive now = .ok l) ↔ ∀ u ∈ users, d.Fits u := by
  refine Iff.trans ?_ (update_ok_iff { tag, defaults := d } users [] now)
  unfold ofUsers
  cases update { tag, defaults := d } users [] now with
  | error o => simp [Except.map]
  | ok l' => simp [Except.map]

end Limiter

namespace Core

variable {c : Core LocalEngine} {tag : String}

theorem departures_of_serves (h : c.engine.Serves tag) (users : List User) :
    ∃ c', (if users.isEmpty then (c, .ok ()) else c.delUsers tag users) = (c', .ok ()) := by
  split
  · exact ⟨c, rfl⟩
  · exact delUsers_of_serves h users

theorem arrivals_of_serves (h : c.engine.Serves tag) (info : NodeInfo) (users : List User) :
    (∃ c' n, (if users.isEmpty then (c, .ok 0) else c.addUsers tag info users) = (c', .ok n)) ↔
      ∃ bindings, Binding.ofUsers info tag users = .ok bindings := by
  split
  next hempty =>
    rw [List.isEmpty_iff.1 hempty]
    exact iff_of_true ⟨c, 0, rfl⟩ ⟨[], rfl⟩
  · exact addUsers_of_serves h info users

end Core

namespace Session

variable {s : Session} {c : Core LocalEngine} {l : Limiter}

theorem applyDiff_overflow_iff (hserves : c.engine.Serves s.tag)
    (hl : c.limiters.find? s.tag = some l) (d : UserDiff) :
    (∃ c' o, s.applyDiff c d = (c', .error (.overflow o))) ↔
      (∃ bindings, Binding.ofUsers s.info s.tag d.added = .ok bindings) ∧
        ∃ u ∈ d.added, ¬l.defaults.Fits u := by
  obtain ⟨c₁, hdel⟩ := Core.departures_of_serves hserves d.deleted
  obtain ⟨hleft, hlimits₁⟩ := Core.departures_ok hdel
  rw [← Core.arrivals_of_serves (hleft.serves _ hserves)]
  simp only [applyDiff, hdel]
  rcases hadd : (if d.added.isEmpty then (c₁, .ok 0) else c₁.addUsers s.tag s.info d.added)
    with ⟨c₂, f | n⟩
  · simp only [hadd]
    simp
  · obtain ⟨-, hlimits₂⟩ := Core.arrivals_ok hadd
    have hl₂ : c₂.limiters.find? s.tag = some l := by rw [hlimits₂, hlimits₁, hl]
    have hfits := l.update_ok_iff d.added d.deleted c₂.now
    simp only [hadd, Core.updateLimiter, hl₂]
    cases hupdate : l.update d.added d.deleted c₂.now with
    | error o => simpa [hupdate, mapError_error] using hfits
    | ok l' => simpa [hupdate, mapError_ok] using hfits

theorem afterUsers_overflow_iff (hserves : c.engine.Serves s.tag)
    (hl : c.limiters.find? s.tag = some l) (users : List User) :
    let d := UserDiff.between s.users users
    (∃ o, (s.afterUsers c (.ok (some users))).progress = .finished (.error (.overflow o))) ↔
      (∃ bindings, Binding.ofUsers s.info s.tag d.added = .ok bindings) ∧
        ∃ u ∈ d.added, ¬l.defaults.Fits u := by
  intro d
  simp only [afterUsers]
  by_cases hempty : d.isEmpty
  · have hadded : d.added = [] := (UserDiff.isEmpty_iff.1 hempty).2
    simp [d, hempty, hadded]
  · rw [← applyDiff_overflow_iff hserves hl d, if_neg hempty]
    rcases s.applyDiff c d with ⟨c', (f | o) | u⟩ <;> simp

end Session

namespace RunningNode

theorem step_of_dead {ε : Type} [Engine ε] {x : RunningNode ε} (h : x.sync = .dead)
    (e : NodeEvent) : (x.step e).sync = .dead ∧ (x.step e).session = x.session ∧
      Core.SameUsers x.core (x.step e).core x.session.tag := by
  refine ⟨sync_step_of_dead h e, ?_⟩
  cases he : e.list? with
  | none => exact x.step_sameUsers he
  | some l =>
    rw [NodeEvent.eq_of_list? he, step_users_of_ne (by rw [h]; nofun)]
    exact ⟨rfl, .refl _ _⟩

theorem run_of_dead {ε : Type} [Engine ε] {x : RunningNode ε} (h : x.sync = .dead)
    (es : List NodeEvent) : (x.run es).sync = .dead ∧ (x.run es).session = x.session ∧
      Core.SameUsers x.core (x.run es).core x.session.tag := by
  refine run_invariant (P := fun y => y.sync = .dead ∧ y.session = x.session ∧
    Core.SameUsers x.core y.core x.session.tag) (fun y e _ hy => ?_) ⟨h, rfl, .refl _ _⟩
  obtain ⟨hdead, hs, hsame⟩ := hy
  obtain ⟨hdead', hs', hsame'⟩ := step_of_dead hdead e
  rw [hs] at hsame'
  exact ⟨hdead', hs'.trans hs, hsame.trans hsame'⟩

/-- The engine has followed the diff, the limiter and the node's own list never will. -/
structure LeftBehind (x y : RunningNode LocalEngine) (d : UserDiff) : Prop where
  moved : Core.Moved x.core y.core x.session.tag d.deleted d.added
  limiters : y.core.limiters = x.core.limiters
  session : y.session = x.session
  lasts : ∀ es, (y.run es).sync = .dead ∧ (y.run es).session = x.session ∧
    Core.SameUsers y.core (y.run es).core x.session.tag

namespace Ready

variable {x : RunningNode LocalEngine} {d : LimitDefaults}

theorem sync_dead_iff (h : x.Ready d) (hwaits : x.sync = .waiting .users) (list : List User) :
    let diff := UserDiff.between x.session.users list
    (x.step (.users (.ok (some list)))).sync = .dead ↔
      (∃ bindings, Binding.ofUsers x.session.info x.session.tag diff.added = .ok bindings) ∧
        ∃ u ∈ diff.added, ¬d.Fits u := by
  intro diff
  obtain ⟨l, hl, rfl⟩ := h.limiter
  rw [step_users_of_waiting hwaits]
  exact Errand.after_eq_dead.trans (Session.afterUsers_overflow_iff h.serves hl list)

theorem leftBehind_of_dead (h : x.Ready d) (hwaits : x.sync = .waiting .users) {list : List User}
    (hdead : (x.step (.users (.ok (some list)))).sync = .dead) :
    x.LeftBehind (x.step (.users (.ok (some list)))) (UserDiff.between x.session.users list) := by
  have hlasts := run_of_dead hdead
  rw [step_users_of_waiting hwaits, answerSync] at hdead hlasts ⊢
  have hsynced := h.synced list
  generalize x.session.resume x.core .users (.ok (some list)) = r at hsynced hdead hlasts ⊢
  cases hsynced with
  | taken c' moved limits => cases hdead
  | refused f c' moved limits => cases hdead
  | overflowed o c' moved limits => exact ⟨moved, limits, rfl, hlasts⟩

end Ready

theorem sync_step_ne_dead {ε : Type} [Engine ε] {x : RunningNode ε} (h : x.sync ≠ .dead)
    {e : NodeEvent} (he : e.list? = none) : (x.step e).sync ≠ .dead := by
  cases e with
  | account | elapse | note => exact h
  | beginReport | posted =>
    simp only [step]
    split <;> exact h
  | beginSync | alive | invalidated =>
    simp only [step]
    split
    · simp [answerSync, Session.resume, Errand.after]
    · exact h
  | users a =>
    simp only [step]
    split
    · rcases a with e | _ | l
      · simp only [answerSync, Session.resume, Session.afterUsers]
        split <;> simp [Errand.after]
      · simp [answerSync, Session.resume, Session.afterUsers, Errand.after]
      · cases he
    · exact h

theorem Ready.sync_run_ne_dead {x : RunningNode LocalEngine} {d : LimitDefaults} (h : x.Ready d)
    (hlives : x.sync ≠ .dead) {es : List NodeEvent}
    (hfits : ∀ list ∈ NodeEvent.lists es, ∀ u ∈ list, d.Fits u) : (x.run es).sync ≠ .dead := by
  refine (run_invariant (P := fun y => y.Ready d ∧ y.sync ≠ .dead) (fun y e he hy => ?_)
    ⟨h, hlives⟩).2
  refine ⟨hy.1.step e, ?_⟩
  cases hlist : e.list? with
  | none => exact sync_step_ne_dead hy.2 hlist
  | some list =>
    have hall := hfits list (NodeEvent.mem_lists he hlist)
    obtain rfl : e = .users (.ok (some list)) := NodeEvent.eq_of_list? hlist
    by_cases hwaits : y.sync = .waiting .users
    · intro hdead
      obtain ⟨-, u, hu, hunfit⟩ := (hy.1.sync_dead_iff hwaits list).1 hdead
      exact hunfit (hall u (UserDiff.mem_added.1 hu).1)
    · rw [step_users_of_ne hwaits]
      exact hy.2

section Started

variable {χ π : Type} [Shell χ] [PanelApi π χ] {p : Place χ LocalEngine π} {users : List User}
  {alive : Except PanelError AliveCounts}

theorem sync_lives_with_default (h : p.Starts users alive) (hlimited : p.core.limit.speedLimit ≠ 0)
    (hfits : p.core.limit.speedLimit.toNat * 1000000 < UInt64.size) (es : List NodeEvent) :
    ((started p users alive).run es).sync ≠ .dead := by
  have hstarted := started_spec h
  refine hstarted.ready.sync_run_ne_dead (by rw [hstarted.sync]; nofun) fun _ _ u _ => ?_
  exact p.core.limit.forall_fits_iff.2 ⟨hlimited, hfits⟩ u

/--
A limiter is built for a list, and follows a diff, just if all its speeds fit. So the sync of a node
ends at a list of which the arrivals can be built and one does not fit, and then the engine is ahead
of the limiter and of the node's list for good.
-/
theorem sync_dies_iff (h : p.Starts users alive) (es : List NodeEvent)
    (hwaits : ((started p users alive).run es).sync = .waiting .users) (list : List User) :
    (∀ tag d users alive now, (∃ l, Limiter.ofUsers tag d users alive now = .ok l) ↔
      ∀ u ∈ users, d.Fits u) ∧
    (∀ (l : Limiter) added deleted now, (∃ l', l.update added deleted now = .ok l') ↔
      ∀ u ∈ added, l.defaults.Fits u) ∧
    let x := (started p users alive).run es
    let y := x.step (.users (.ok (some list)))
    let diff := UserDiff.between x.session.users list
    (y.sync = .dead ↔
      (∃ bindings, Binding.ofUsers x.session.info x.session.tag diff.added = .ok bindings) ∧
        ∃ u ∈ diff.added, ¬p.core.limit.Fits u) ∧
      (y.sync = .dead → x.LeftBehind y diff) := by
  have hready := (started_spec h).ready.run es
  exact ⟨fun _ _ _ _ _ => Limiter.ofUsers_ok_iff, Limiter.update_ok_iff,
    hready.sync_dead_iff hwaits list, hready.leftBehind_of_dead hwaits⟩

end Started

section GreatestSpeed

def bobUnbounded : List User := [⟨7, "alice", 0, 0⟩, ⟨8, "bob", 18446744073709551615, 0⟩]

theorem bob_ends_sync :
    let p := Place.fresh "aes-128-gcm"
    let x := (started p [⟨7, "alice", 0, 0⟩] (.ok ∅)).run [.beginSync, .alive (.ok ∅)]
    let y := x.step (.users (.ok (some bobUnbounded)))
    p.Starts [⟨7, "alice", 0, 0⟩] (.ok ∅) ∧ x.sync = .waiting .users ∧ y.sync = .dead ∧
      y.session.users = [⟨7, "alice", 0, 0⟩] ∧
      (y.core.limiters.find? y.session.tag).map (·.users.keys) =
        some [userTag y.session.tag "alice"] ∧
      userTag y.session.tag "bob" ∈ (y.core.engine.usersOf y.session.tag).keys := by
  decide +kernel

theorem bob_leaves_limiter_behind :
    let p := Place.fresh "aes-128-gcm"
    let x := (started p [⟨7, "alice", 0, 0⟩] (.ok ∅)).run [.beginSync, .alive (.ok ∅)]
    let y := x.step (.users (.ok (some bobUnbounded)))
    p.Starts [⟨7, "alice", 0, 0⟩] (.ok ∅) ∧ x.sync = .waiting .users ∧
      x.LeftBehind y (UserDiff.between x.session.users bobUnbounded) := by
  intro p x y
  have hstarts : p.Starts [⟨7, "alice", 0, 0⟩] (.ok ∅) := by decide +kernel
  have hwaits : x.sync = .waiting .users := by decide +kernel
  obtain ⟨-, -, -, hbehind⟩ :=
    sync_dies_iff hstarts [.beginSync, .alive (.ok ∅)] hwaits bobUnbounded
  exact ⟨hstarts, hwaits, hbehind (by decide +kernel)⟩

end GreatestSpeed

end RunningNode

end NodeAgent
