import NodeAgent.Proofs.Neighbours

/-!
Runs that outlive their node. What they find after the close is no listener, no limiter and no
counter, and they bring none back. The ids of users are another matter: users who come are entered
before the engine is asked, and stay so when it knows no listener for them.
-/

namespace NodeAgent

structure Core.Bare (c : Core LocalEngine) (tag : String) : Prop where
  entry : c.engine.entries.find? tag = none
  limiter : c.limiters.find? tag = none
  counter : c.traffic.find? tag = none

namespace LocalEngine

variable {e : LocalEngine} {tag : String}

theorem updateUsers_of_unknown (h : e.entries.find? tag = none)
    (f : Table String Binding → Table String Binding) :
    ∃ err, e.updateUsers tag f = (e, .error err) := by
  unfold updateUsers
  split
  · exact ⟨_, rfl⟩
  · rw [h]
    exact ⟨_, rfl⟩

end LocalEngine

namespace Core

variable {c c' : Core LocalEngine} {tag : String}

theorem Bare.of_leavesAlone (h : c.Bare tag) (alone : LeavesAlone c c' tag) : c'.Bare tag :=
  ⟨alone.entry.trans h.entry, alone.limiter.trans h.limiter, alone.counter.trans h.counter⟩

theorem mem_keys_of_leavesAlone (alone : LeavesAlone c c' tag) {t : String}
    (ht : isUserOf tag t = true) : t ∈ c'.uids.keys ↔ t ∈ c.uids.keys := by
  rw [Table.mem_keys_iff, Table.mem_keys_iff, alone.uids t ht]

theorem callEngine_of_refused {α : Type} {a : Activity} {call : EngineCall} {err : EngineError}
    {act : LocalEngine → LocalEngine × Except EngineError α}
    (h : act c.engine = (c.engine, .error err)) :
    c.callEngine a call act = (c.note (.engine call false), .error ⟨[a], .engine err⟩) := by
  rw [callEngine, h]
  rfl

theorem delUsers_of_bare (h : c.Bare tag) (users : List User) :
    ∃ f c', c.delUsers tag users = (c', .error f) ∧ c' = { c with journal := c'.journal } := by
  obtain ⟨err, hrefused⟩ := LocalEngine.updateUsers_of_unknown h.entry
    (·.eraseMany (users.map fun u => userTag tag u.uuid))
  have hcall : c.callEngine (.removingUsers tag)
      (.removeUsers tag (users.map fun u => userTag tag u.uuid))
      (Engine.removeUsers · tag (users.map fun u => userTag tag u.uuid)) =
        (_, .error ⟨[.removingUsers tag], .engine err⟩) := callEngine_of_refused hrefused
  simp only [delUsers]
  rw [hcall]
  exact ⟨_, _, rfl, rfl⟩

theorem addUsers_of_bare (h : c.Bare tag) (info : NodeInfo) (users : List User) :
    ∃ f c', c.addUsers tag info users = (c', .error f) ∧
      c' = { c with uids := c'.uids, journal := c'.journal } ∧
      ∀ t, t ∈ c'.uids.keys ↔ t ∈ c.uids.keys ∨
        (Binding.ofUsers info tag users).isOk = true ∧ t ∈ userTags tag users := by
  unfold addUsers
  split
  next e he => exact ⟨_, c, rfl, rfl, fun t => by simp [he, Except.isOk, Except.toBool]⟩
  next bindings hbindings =>
    obtain ⟨err, hrefused⟩ := LocalEngine.updateUsers_of_unknown h.entry
      (·.insertMany (bindings.map fun b => (b.userTag, b)))
    have hadd : c.engine.addUsers tag bindings = (c.engine, .error err) := by
      rw [LocalEngine.addUsers, hrefused]
      rfl
    -- the engine refuses the users, but their ids have come by then
    refine ⟨_, _, callEngine_of_refused hadd, rfl, fun t => ?_⟩
    rw [note, Table.mem_keys_insertMany, Binding.keys_ofUsers (·.uid) hbindings, hbindings]
    simp [Except.isOk, Except.toBool]

end Core

namespace Session

def leftBehind (s : Session) : Option (List User) → List String
  | none => []
  | some users =>
    let d := UserDiff.between s.users users
    if d.deleted = [] ∧ (Binding.ofUsers s.info s.tag d.added).isOk then userTags s.tag d.added
    else []

variable {s : Session} {c c' : Core LocalEngine}

theorem close_of_open (s : Session) (h : c.engine.closed = false) :
    ∃ c', s.close c = (c', .ok ()) ∧ c'.Bare s.tag ∧
      ∀ t, Core.isUserOf s.tag t = true → t ∉ c'.uids.keys := by
  obtain ⟨c', hdel, hremoved⟩ := (c.deleteLimiter s.tag).delNode_of_open s.tag h
  have hlistener := hremoved.listener s.tag
  rw [if_pos rfl, LocalEngine.listener?, Option.map_eq_none_iff] at hlistener
  refine ⟨c', hdel, ⟨hlistener, ?_, ?_⟩, fun t ht hmem => ?_⟩
  · rw [hremoved.limiters, Core.deleteLimiter, Table.find?_erase, if_pos rfl]
  · rw [hremoved.traffic, Table.find?_erase, if_pos rfl]
  · rw [((hremoved.uids t).1 hmem).2] at ht
    cases ht

theorem close_ok (h : s.close c = (c', .ok ())) :
    c'.Bare s.tag ∧ ∀ t, Core.isUserOf s.tag t = true → t ∉ c'.uids.keys := by
  cases hopen : c.engine.closed with
  | true =>
    have hrefused : c.engine.removeListener s.tag = (c.engine, .error .closed) := if_pos hopen
    have hcall : (c.deleteLimiter s.tag).callEngine (.removingListener s.tag)
        (.removeListener s.tag) (Engine.removeListener · s.tag) =
          (_, .error ⟨[.removingListener s.tag], .engine .closed⟩) :=
      Core.callEngine_of_refused hrefused
    rw [close, Core.delNode, hcall] at h
    cases (Prod.mk.inj h).2
  | false =>
    obtain ⟨c₁, hclose, hleft⟩ := s.close_of_open hopen
    rw [hclose] at h
    obtain ⟨rfl, -⟩ := Prod.mk.inj h
    exact hleft

theorem applyDiff_of_bare (h : c.Bare s.tag) {d : UserDiff} (hd : d.isEmpty = false) :
    ∃ f c', s.applyDiff c d = (c', .error (.failure f)) ∧
      c' = { c with uids := c'.uids, journal := c'.journal } ∧
      ∀ t, t ∈ c'.uids.keys ↔ t ∈ c.uids.keys ∨
        (d.deleted = [] ∧ (Binding.ofUsers s.info s.tag d.added).isOk = true) ∧
          t ∈ userTags s.tag d.added := by
  -- who is to leave comes first, and then the engine refuses before anybody is added
  by_cases hdeleted : d.deleted = []
  · have hadded : d.added.isEmpty = false := by
      rw [UserDiff.isEmpty, hdeleted, List.isEmpty_nil, Bool.true_and] at hd
      exact hd
    obtain ⟨f, c', hadd, hc', huids⟩ := Core.addUsers_of_bare h s.info d.added
    refine ⟨f, c', ?_, hc', fun t => ?_⟩
    · simp [applyDiff, hdeleted, hadded, hadd]
    · rw [huids, and_iff_right hdeleted]
  · have hleave : d.deleted.isEmpty = false := by simpa using hdeleted
    obtain ⟨f, c', hdel, hc'⟩ := Core.delUsers_of_bare h d.deleted
    refine ⟨f, c', ?_, ?_, fun t => ?_⟩
    · simp [applyDiff, hleave, hdel]
    · rw [hc']
    · rw [hc']
      simp [hdeleted]

theorem afterUsers_of_bare (h : c.Bare s.tag) (users : List User) :
    let r := s.afterUsers c (.ok (some users))
    r.session.tag = s.tag ∧ r.core.Bare s.tag ∧
      (∀ t, t ∈ r.core.uids.keys ↔ t ∈ c.uids.keys ∨ t ∈ s.leftBehind (some users)) ∧
      ∀ stage, Errand.after r.progress = .waiting stage → ∃ f, stage = .invalidate f := by
  intro r
  cases hd : (UserDiff.between s.users users).isEmpty with
  | true =>
    obtain ⟨hdeleted, hadded⟩ := UserDiff.isEmpty_iff.1 hd
    have hr : r = ⟨{ s with users }, c, .finished (.ok ())⟩ := by
      simp only [r, afterUsers, hd, if_true]
    rw [hr]
    refine ⟨rfl, h, fun t => ?_, fun stage hstage => by cases hstage⟩
    simp [leftBehind, hadded, userTags]
  | false =>
    obtain ⟨f, c', happly, hc', huids⟩ := applyDiff_of_bare h hd
    have hr : r = ⟨s, c', .ask (.invalidate f)⟩ := by
      simp only [r, afterUsers, hd, Bool.false_eq_true, if_false, happly]
    rw [hr]
    refine ⟨rfl, ?_, fun t => ?_, fun stage hstage => ?_⟩
    · rw [hc']
      exact ⟨h.entry, h.limiter, h.counter⟩
    · rw [huids, leftBehind]
      split
      next hleft => rw [and_iff_right hleft]
      next hleft => simp [hleft]
    · rw [Errand.after_eq_waiting] at hstage
      cases hstage
      exact ⟨f, rfl⟩

end Session

def NodeEvent.goesOn : NodeEvent → Bool
  | .account .. | .beginSync | .beginReport => false
  | _ => true

namespace RunningNode

def heard (x : RunningNode LocalEngine) (l : Option (List User)) (e : NodeEvent) :
    Option (List User) :=
  if x.sync = .waiting .users then e.list?.or l else l

/--
The node was closed in the state `closing`. Its runs that wait go on, and meanwhile others change
the core; by now the sync has been sent the list, if any.
-/
inductive Outlived (closing : RunningNode LocalEngine) :
    RunningNode LocalEngine → Option (List User) → Prop
  | closed {c : Core LocalEngine} (ok : closing.session.close closing.core = (c, .ok ())) :
      Outlived closing { closing with core := c } none
  | goesOn {x : RunningNode LocalEngine} {l : Option (List User)} (h : Outlived closing x l)
      (e : NodeEvent) (begun : e.goesOn = true) : Outlived closing (x.step e) (x.heard l e)
  | elsewhere {x : RunningNode LocalEngine} {l : Option (List User)} (h : Outlived closing x l)
      (c : Core LocalEngine) (alone : Core.LeavesAlone x.core c closing.session.tag) :
      Outlived closing { x with core := c } l

structure Remains (closing x : RunningNode LocalEngine) (l : Option (List User)) : Prop where
  tag : x.session.tag = closing.session.tag
  session : l = none → x.session = closing.session
  settled : l ≠ none → ∀ stage, x.sync = .waiting stage → ∃ f, stage = .invalidate f
  bare : x.core.Bare closing.session.tag
  uids : ∀ t, Core.isUserOf closing.session.tag t = true →
    (t ∈ x.core.uids.keys ↔ t ∈ closing.session.leftBehind l)

variable {closing x : RunningNode LocalEngine} {l : Option (List User)} {e : NodeEvent}

theorem heard_of_unsent (unsent : e.list? = none ∨ x.sync ≠ .waiting .users)
    (l : Option (List User)) : x.heard l e = l := by
  rw [heard]
  split
  next hwaits =>
    rw [unsent.resolve_right fun hne => hne hwaits]
    rfl
  · rfl

theorem heard_users (waits : x.sync = .waiting .users) (users : List User) :
    x.heard l (.users (.ok (some users))) = some users := if_pos waits

theorem step_of_bare (h : x.core.Bare x.session.tag) (begun : e.goesOn = true)
    (unsent : e.list? = none ∨ x.sync ≠ .waiting .users) :
    (x.step e).session = x.session ∧
      Core.LeavesAlone x.core (x.step e).core x.session.tag ∧
      ∀ stage, (x.step e).sync = .waiting stage →
        x.sync = .waiting stage ∨ x.sync = .waiting .alive := by
  have hsame : ∀ {x : RunningNode LocalEngine}, x.session = x.session ∧
      Core.LeavesAlone x.core x.core x.session.tag ∧
      ∀ stage, x.sync = .waiting stage → x.sync = .waiting stage ∨ x.sync = .waiting .alive :=
    ⟨rfl, .refl _ _, fun _ hw => .inl hw⟩
  cases e with
  | account => cases begun
  | beginSync => cases begun
  | beginReport => cases begun
  | elapse => exact ⟨rfl, ⟨rfl, rfl, rfl, fun _ _ => rfl⟩, fun _ hw => .inl hw⟩
  | note => exact ⟨rfl, ⟨rfl, rfl, rfl, fun _ _ => rfl⟩, fun _ hw => .inl hw⟩
  | alive a =>
    simp only [step]
    split
    next hwaits =>
      refine ⟨rfl, ⟨rfl, ?_, rfl, fun _ _ => rfl⟩, fun _ _ => .inr hwaits⟩
      refine (Table.find?_modify ..).trans ?_
      rw [if_pos rfl, h.limiter]
      rfl
    · exact hsame
  | users a =>
    by_cases hwaits : x.sync = .waiting .users
    · rw [step_users_of_waiting hwaits]
      rcases a with err | _ | users
      · refine ⟨rfl, .refl _ _, fun stage hw => ?_⟩
        rw [answerSync, Session.resume, Session.afterUsers, Errand.after_eq_waiting] at hw
        cases hw
      · exact ⟨rfl, .refl _ _, fun stage hw => by cases hw⟩
      · exact absurd hwaits (unsent.resolve_left fun heq => by cases heq)
    · rw [step_users_of_ne hwaits]
      exact hsame
  | invalidated =>
    simp only [step]
    split
    · exact ⟨rfl, .refl _ _, fun stage hw => by cases hw⟩
    · exact hsame
  | posted a =>
    have hdevices : x.core.onlineDevices x.session.tag = (x.core, []) := by
      rw [Core.onlineDevices, h.limiter]
    have hreport : ∀ traffic, x.session.stepsAfterTraffic x.core traffic =
        ⟨x.session, x.core, .ask .status⟩ := by
      intro traffic
      rw [Session.stepsAfterTraffic, hdevices]
    simp only [step]
    split
    next traffic hwaits =>
      rw [answerReport, Session.resume, hreport]
      exact hsame
    · exact hsame
    · exact hsame
    · exact hsame

namespace Remains

theorem closed {c : Core LocalEngine} (ok : closing.session.close closing.core = (c, .ok ())) :
    Remains closing { closing with core := c } none := by
  obtain ⟨hbare, huids⟩ := Session.close_ok ok
  exact ⟨rfl, fun _ => rfl, fun h => absurd rfl h, hbare,
    fun t ht => iff_of_false (huids t ht) List.not_mem_nil⟩

theorem elsewhere (h : Remains closing x l) {c : Core LocalEngine}
    (alone : Core.LeavesAlone x.core c closing.session.tag) :
    Remains closing { x with core := c } l :=
  ⟨h.tag, h.session, h.settled, h.bare.of_leavesAlone alone,
    fun t ht => (Core.mem_keys_of_leavesAlone alone ht).trans (h.uids t ht)⟩

theorem sent (h : Remains closing x l) {users : List User} (waits : x.sync = .waiting .users) :
    Remains closing (x.step (.users (.ok (some users)))) (some users) := by
  -- no list was sent before, and so the session is still the one that was closed
  have hnone : l = none := by
    cases l with
    | none => rfl
    | some earlier =>
      obtain ⟨f, hf⟩ := h.settled nofun .users waits
      cases hf
  have hsession := h.session hnone
  have hbare : x.core.Bare x.session.tag := h.tag ▸ h.bare
  obtain ⟨htag, hbare', huids, hover⟩ := Session.afterUsers_of_bare hbare users
  rw [step_users_of_waiting waits]
  refine ⟨htag.trans h.tag, nofun, fun _ => hover, h.tag ▸ hbare', fun t ht => ?_⟩
  refine (huids t).trans ?_
  rw [h.uids t ht, hnone, hsession]
  exact or_iff_right List.not_mem_nil

theorem goesOn (h : Remains closing x l) (begun : e.goesOn = true) :
    Remains closing (x.step e) (x.heard l e) := by
  -- a list that the sync waits for brings ids; all else leaves the stores alone
  by_cases hsent : x.sync = .waiting .users ∧ e.list?.isSome
  · obtain ⟨hwaits, hlist⟩ := hsent
    obtain ⟨users, husers⟩ := Option.isSome_iff_exists.1 hlist
    obtain rfl : e = .users (.ok (some users)) := NodeEvent.eq_of_list? husers
    rw [heard_users hwaits]
    exact h.sent hwaits
  · have hunsent : e.list? = none ∨ x.sync ≠ .waiting .users := by
      by_cases hwaits : x.sync = .waiting .users
      · exact .inl (Option.not_isSome_iff_eq_none.1 fun hlist => hsent ⟨hwaits, hlist⟩)
      · exact .inr hwaits
    obtain ⟨hs, halone, hsync⟩ := step_of_bare (h.tag ▸ h.bare) begun hunsent
    rw [h.tag] at halone
    rw [heard_of_unsent hunsent]
    refine ⟨by rw [hs, h.tag], fun hl => hs.trans (h.session hl), fun hl stage hw => ?_,
      h.bare.of_leavesAlone halone,
      fun t ht => (Core.mem_keys_of_leavesAlone halone ht).trans (h.uids t ht)⟩
    rcases hsync stage hw with hstays | halive
    · exact h.settled hl stage hstays
    · obtain ⟨f, hf⟩ := h.settled hl .alive halive
      cases hf

end Remains

theorem Outlived.sent (h : Outlived closing x l) (waits : x.sync = .waiting .users)
    (users : List User) : Outlived closing (x.step (.users (.ok (some users)))) (some users) := by
  have hsent := h.goesOn (.users (.ok (some users))) rfl
  rwa [heard_users waits] at hsent

theorem Outlived.remains (h : Outlived closing x l) : Remains closing x l := by
  induction h with
  | closed ok => exact .closed ok
  | goesOn _ e begun ih => exact ih.goesOn begun
  | elsewhere _ c alone ih => exact ih.elsewhere alone

namespace Outlived

variable {other : RunningNode LocalEngine}

theorem neighbour (h : Outlived closing x l) (shared : other.core = x.core)
    (foreign : Foreign closing.session.tag other.session.tag)
    (uncounted : ∀ user upload download, e ≠ .account closing.session.tag user upload download) :
    Outlived closing { x with core := (other.step e).core } l := by
  have halone := other.step_leavesAlone foreign uncounted
  rw [shared] at halone
  exact h.elsewhere _ halone

theorem neighbour_closed (h : Outlived closing x l) {s : Session}
    (foreign : Foreign closing.session.tag s.tag) :
    Outlived closing { x with core := (s.close x.core).1 } l :=
  h.elsewhere _ (Session.close_leavesAlone foreign)

theorem engine_closed (h : Outlived closing x l) :
    Outlived closing { x with core := x.core.close.1 } l :=
  h.elsewhere _ (Core.close_leavesAlone h.remains.bare.entry)

end Outlived

theorem isUserOf_of_mem_leftBehind {s : Session} {l : Option (List User)} {t : String}
    (h : t ∈ s.leftBehind l) : Core.isUserOf s.tag t = true := by
  cases l with
  | none => cases h
  | some users =>
    rw [Session.leftBehind] at h
    split at h
    · obtain ⟨u, -, rfl⟩ := mem_userTags.1 h
      exact isUserOf_userTag s.tag u.uuid
    · cases h

/--
However the runs of a closed node go on, there is no listener of it, no user in the engine, no
limiter and no counter. The ids that there are of its users are those that the list of a sync has
left behind: nothing at all is left just if it has left none.
-/
theorem left_of_closed (h : Outlived closing x l) :
    let tag := closing.session.tag
    (x.core.engine.listener? tag = none ∧ x.core.engine.usersOf tag = ∅ ∧
        x.core.limiters.find? tag = none ∧ x.core.traffic.find? tag = none) ∧
      (∀ t, Core.isUserOf tag t = true →
        (t ∈ x.core.uids.keys ↔ t ∈ closing.session.leftBehind l)) ∧
      ((∀ t, Core.isUserOf tag t = true → t ∉ x.core.uids.keys) ↔
        closing.session.leftBehind l = []) := by
  intro tag
  obtain ⟨-, -, -, hbare, huids⟩ := h.remains
  refine ⟨⟨?_, ?_, hbare.limiter, hbare.counter⟩, huids, fun hnone => ?_, fun hempty t ht => ?_⟩
  · rw [LocalEngine.listener?, hbare.entry]
    rfl
  · rw [LocalEngine.usersOf, hbare.entry]
    rfl
  · refine List.eq_nil_iff_forall_not_mem.2 fun t ht => ?_
    have huser := isUserOf_of_mem_leftBehind ht
    exact hnone t huser ((huids t huser).2 ht)
  · rw [huids t ht, hempty]
    exact List.not_mem_nil

section Closed

def aliceSyncing : RunningNode LocalEngine :=
  (started (Place.fresh "aes-128-gcm") [⟨7, "alice", 0, 0⟩] (.ok ∅)).run [.beginSync, .alive (.ok ∅)]

def aliceClosed : RunningNode LocalEngine :=
  { aliceSyncing with core := (aliceSyncing.session.close aliceSyncing.core).1 }

theorem aliceSyncing_close :
    aliceSyncing.session.close aliceSyncing.core = (aliceClosed.core, .ok ()) := by
  obtain ⟨c, hclose, -⟩ := aliceSyncing.session.close_of_open (c := aliceSyncing.core)
    (by decide +kernel)
  rw [aliceClosed, hclose]

theorem aliceClosed_outlived : Outlived aliceSyncing aliceClosed none := .closed aliceSyncing_close

theorem aliceClosed_waits : aliceClosed.sync = .waiting .users := by decide +kernel

/-- Bob comes while alice stays, and his id is there when the sync is over. -/
theorem bob_outlives_close :
    let users : List User := [⟨7, "alice", 0, 0⟩, ⟨8, "bob", 0, 0⟩]
    let x := aliceClosed.run [.users (.ok (some users)), .invalidated]
    aliceClosed.sync = .waiting .users ∧
      aliceSyncing.session.close aliceSyncing.core = (aliceClosed.core, .ok ()) ∧
      Outlived aliceSyncing x (some users) ∧ x.sync = .idle ∧
      ¬∀ t, Core.isUserOf aliceSyncing.session.tag t = true → t ∉ x.core.uids.keys := by
  intro users x
  refine ⟨aliceClosed_waits, aliceSyncing_close, ?_, by decide +kernel, fun hnone => ?_⟩
  · have hsent := aliceClosed_outlived.sent aliceClosed_waits users
    have hover := hsent.goesOn .invalidated rfl
    rwa [heard_of_unsent (.inl rfl)] at hover
  · exact hnone (userTag aliceSyncing.session.tag "bob") (isUserOf_userTag ..) (by decide +kernel)

theorem nothing_outlives_close :
    let tag := aliceSyncing.session.tag
    let other : RunningNode LocalEngine :=
      { session := { tag := nodeTag "http://p" .vmess 1, info := aliceSyncing.session.info }
        core := aliceClosed.core }
    let c := (other.step (.account other.session.tag "carol" 1 1)).core
    let x := { aliceClosed with core := c.close.1 }.step (.users (.ok (some [⟨8, "bob", 0, 0⟩])))
    Outlived aliceSyncing x (some [⟨8, "bob", 0, 0⟩]) ∧
      (x.core.engine.listener? tag = none ∧ x.core.engine.usersOf tag = ∅ ∧
        x.core.limiters.find? tag = none ∧ x.core.traffic.find? tag = none) ∧
      ∀ t, Core.isUserOf tag t = true → t ∉ x.core.uids.keys := by
  intro tag other c x
  have htag : tag = nodeTag "http://p" .shadowsocks 1 := by decide +kernel
  have hne : tag ≠ other.session.tag := by
    rw [htag]
    decide
  have hforeign : Foreign tag other.session.tag := htag ▸ foreign_nodeTag (htag ▸ hne)
  have hcounted : Outlived aliceSyncing { aliceClosed with core := c } none :=
    aliceClosed_outlived.neighbour rfl hforeign
      fun user upload download heq => hne (NodeEvent.account.inj heq).1.symm
  have hsent := hcounted.engine_closed.sent aliceClosed_waits [⟨8, "bob", 0, 0⟩]
  obtain ⟨hbare, -, hnone⟩ := left_of_closed hsent
  exact ⟨hsent, hbare, hnone.2 (by decide +kernel)⟩

end Closed

end RunningNode

end NodeAgent
