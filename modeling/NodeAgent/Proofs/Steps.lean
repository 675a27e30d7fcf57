import NodeAgent.Proofs.Diff
import NodeAgent.Proofs.Running

/-!
What one event can do to a node. Only a user list that a sync waits for moves users; where there is
a listener, it does so in one of three ways.
-/

namespace NodeAgent

def Limiter.rules (l : Limiter) : String × LimitDefaults × Table String UserLimit :=
  (l.tag, l.defaults, l.users)

namespace Core

variable {ε : Type}

structure SameUsers (c c' : Core ε) (tag : String) : Prop where
  engine : c'.engine = c.engine
  uids : c'.uids = c.uids
  limit : c'.limit = c.limit
  rules : (c'.limiters.find? tag).map Limiter.rules = (c.limiters.find? tag).map Limiter.rules
  elsewhere : ∀ n, n ≠ tag → c'.limiters.find? n = c.limiters.find? n

structure Quiet (c c' : Core ε) (tag : String) : Prop extends SameUsers c c' tag where
  traffic : c'.traffic = c.traffic

variable {tag : String}

theorem SameUsers.refl (c : Core ε) (tag : String) : SameUsers c c tag :=
  ⟨rfl, rfl, rfl, rfl, fun _ _ => rfl⟩

theorem SameUsers.trans {c c₁ c' : Core ε} (h : SameUsers c c₁ tag) (h' : SameUsers c₁ c' tag) :
    SameUsers c c' tag :=
  ⟨h'.engine.trans h.engine, h'.uids.trans h.uids, h'.limit.trans h.limit,
    h'.rules.trans h.rules, fun n hn => (h'.elsewhere n hn).trans (h.elsewhere n hn)⟩

theorem Quiet.refl (c : Core ε) (tag : String) : Quiet c c tag := ⟨.refl c tag, rfl⟩

theorem setAlive_quiet (c : Core ε) (tag : String) (alive : AliveCounts) :
    Quiet c (c.setAlive tag alive) tag where
  engine := rfl
  uids := rfl
  limit := rfl
  traffic := rfl
  rules := by
    rw [setAlive, Table.find?_modify, if_pos rfl, Option.map_map]
    rfl
  elsewhere := fun n hn => (Table.find?_modify ..).trans (if_neg hn)

theorem onlineDevices_quiet (c : Core ε) (tag : String) :
    Quiet c (c.onlineDevices tag).1 tag := by
  unfold onlineDevices
  split
  · exact .refl c tag
  next l hl =>
    refine ⟨⟨rfl, rfl, rfl, ?_, fun n hn => Table.find?_insert_of_ne _ _ hn⟩, rfl⟩
    change (Table.find? (Table.insert c.limiters tag (l.onlineDevices c.now).1) tag).map _ = _
    rw [hl, Table.find?_insert_self]
    rfl

theorem trafficSlice_sameUsers (c : Core ε) (tag : String) (threshold : UInt64) :
    SameUsers c (c.trafficSlice tag threshold).1 tag := by
  unfold trafficSlice
  split
  · exact .refl c tag
  · split <;> exact ⟨rfl, rfl, rfl, rfl, fun _ _ => rfl⟩

end Core

namespace Session

variable {ε : Type} (s : Session) (c : Core ε)

theorem stepsAfterTraffic_frame (l : List UserTraffic) :
    (s.stepsAfterTraffic c l).session = s ∧ Core.Quiet c (s.stepsAfterTraffic c l).core s.tag := by
  have hquiet := c.onlineDevices_quiet s.tag
  rcases hd : c.onlineDevices s.tag with ⟨c', _ | ⟨d, ds⟩⟩ <;> rw [hd] at hquiet <;>
    simp only [stepsAfterTraffic, hd]
  · exact ⟨trivial, hquiet⟩
  · exact ⟨trivial, hquiet⟩

theorem beginReport_frame :
    (s.beginReport c).session = s ∧ Core.SameUsers c (s.beginReport c).core s.tag := by
  have hslice := c.trafficSlice_sameUsers s.tag s.info.reportThreshold
  rcases ht : c.trafficSlice s.tag s.info.reportThreshold with ⟨c', o | _ | ⟨t, l⟩⟩ <;>
    rw [ht] at hslice <;> simp only [beginReport, ht]
  · exact ⟨trivial, hslice⟩
  · obtain ⟨hs, hquiet⟩ := stepsAfterTraffic_frame s c' []
    exact ⟨hs, hslice.trans hquiet.toSameUsers⟩
  · exact ⟨trivial, hslice⟩

end Session

namespace RunningNode

variable {ε : Type} [Engine ε]

theorem step_sameUsers (x : RunningNode ε) {e : NodeEvent} (he : e.list? = none) :
    (x.step e).session = x.session ∧
      Core.SameUsers x.core (x.step e).core x.session.tag := by
  cases e with
  | account => exact ⟨rfl, rfl, rfl, rfl, rfl, fun _ _ => rfl⟩
  | elapse => exact ⟨rfl, rfl, rfl, rfl, rfl, fun _ _ => rfl⟩
  | note => exact ⟨rfl, rfl, rfl, rfl, rfl, fun _ _ => rfl⟩
  | beginSync =>
    simp only [step]
    split <;> exact ⟨rfl, .refl _ _⟩
  | alive a =>
    simp only [step]
    split
    · exact ⟨rfl, (x.core.setAlive_quiet _ _).toSameUsers⟩
    · exact ⟨rfl, .refl _ _⟩
  | users a =>
    simp only [step]
    split
    · rcases a with e | _ | users
      · exact ⟨rfl, .refl _ _⟩
      · exact ⟨rfl, .refl _ _⟩
      · cases he
    · exact ⟨rfl, .refl _ _⟩
  | invalidated =>
    simp only [step]
    split <;> exact ⟨rfl, .refl _ _⟩
  | beginReport =>
    simp only [step]
    split
    · exact x.session.beginReport_frame x.core
    · exact ⟨rfl, .refl _ _⟩
  | posted a =>
    simp only [step]
    split
    · obtain ⟨hs, hquiet⟩ := x.session.stepsAfterTraffic_frame x.core _
      exact ⟨hs, hquiet.toSameUsers⟩
    · exact ⟨rfl, .refl _ _⟩
    · exact ⟨rfl, .refl _ _⟩
    · exact ⟨rfl, .refl _ _⟩

theorem run_sameUsers (x : RunningNode ε) {es : List NodeEvent}
    (hes : ∀ e ∈ es, e.list? = none) : (x.run es).session = x.session ∧
      Core.SameUsers x.core (x.run es).core x.session.tag := by
  refine run_invariant (P := fun y => y.session = x.session ∧
    Core.SameUsers x.core y.core x.session.tag) (fun y e he hy => ?_) ⟨rfl, .refl _ _⟩
  obtain ⟨hs, hsame⟩ := y.step_sameUsers (hes e he)
  rw [hy.1] at hsame
  exact ⟨hs.trans hy.1, hy.2.trans hsame⟩

theorem sync_step_of_dead {x : RunningNode ε} (h : x.sync = .dead) (e : NodeEvent) :
    (x.step e).sync = .dead := by
  cases e with
  | beginReport =>
    simp only [step]
    split <;> exact h
  | posted a =>
    simp only [step]
    split <;> exact h
  | _ => simp [step, h]

theorem step_users_of_ne {x : RunningNode ε} (h : x.sync ≠ .waiting .users)
    (a : Except PanelError (Option (List User))) : x.step (.users a) = x := if_neg h

theorem step_users_of_waiting {x : RunningNode ε} (h : x.sync = .waiting .users)
    (a : Except PanelError (Option (List User))) :
    x.step (.users a) = x.answerSync .users a := if_pos h

/-- A sync waits for users, and this list brings it to a good end. -/
def TakesOver (x : RunningNode ε) (l : List User) : Prop :=
  x.sync = .waiting .users ∧
    (x.session.resume x.core .users (.ok (some l))).progress = .finished (.ok ())

instance (progress : Progress) : Decidable (progress = .finished (.ok ())) :=
  match progress with
  | .ask _ => isFalse nofun
  | .enroll _ => isFalse nofun
  | .finished (.error _) => isFalse nofun
  | .finished (.ok ()) => isTrue rfl

instance (x : RunningNode ε) (l : List User) : Decidable (x.TakesOver l) := instDecidableAnd

theorem TakesOver.step_eq {x : RunningNode LocalEngine} {l : List User} (h : x.TakesOver l) :
    ∃ c', x.step (.users (.ok (some l))) =
        { x with session := { x.session with users := l }, core := c', sync := .idle } ∧
      Core.Moved x.core c' x.session.tag (UserDiff.between x.session.users l).deleted
        (UserDiff.between x.session.users l).added ∧
      Core.LimitsFollow x.core c' x.session.tag (UserDiff.between x.session.users l) := by
  obtain ⟨hw, hended⟩ := h
  rw [step_users_of_waiting hw, answerSync]
  rcases hr : x.session.resume x.core .users (.ok (some l)) with ⟨s', c', progress⟩
  rw [hr] at hended
  obtain rfl : progress = .finished (.ok ()) := hended
  obtain ⟨rfl, hmoved, hlimits⟩ := Session.afterUsers_ok hr
  exact ⟨c', rfl, hmoved, hlimits⟩

inductive Stepped (x : RunningNode LocalEngine) (e : NodeEvent) : RunningNode LocalEngine → Prop
  | same (y : RunningNode LocalEngine) (kept : e.list? = none ∨ x.sync ≠ .waiting .users)
      (session : y.session = x.session) (users : Core.SameUsers x.core y.core x.session.tag) :
      Stepped x e y
  | synced (l : List User) (r : Advance LocalEngine) (list : e.list? = some l)
      (waits : x.sync = .waiting .users)
      (resumed : x.session.resume x.core .users (.ok (some l)) = r)
      (synced : x.session.Synced x.core l r) :
      Stepped x e { x with session := r.session, core := r.core, sync := .after r.progress }

structure Ready (x : RunningNode LocalEngine) (d : LimitDefaults) : Prop where
  serves : x.core.engine.Serves x.session.tag
  limiter : ∃ l, x.core.limiters.find? x.session.tag = some l ∧ l.defaults = d

namespace Ready

variable {x : RunningNode LocalEngine} {d : LimitDefaults}

theorem of_sameUsers {y : RunningNode LocalEngine} (h : x.Ready d) (hs : y.session = x.session)
    (hsame : Core.SameUsers x.core y.core x.session.tag) : y.Ready d where
  serves := by
    rw [hs, hsame.engine]
    exact h.serves
  limiter := by
    obtain ⟨l, hl, hd⟩ := h.limiter
    have hrules := hsame.rules
    rw [hl, Option.map_some, Option.map_eq_some_iff] at hrules
    obtain ⟨l', hl', heq⟩ := hrules
    exact ⟨l', hs ▸ hl', (congrArg (·.2.1) heq).trans hd⟩

theorem synced (h : x.Ready d) (l : List User) :
    x.session.Synced x.core l (x.session.resume x.core .users (.ok (some l))) :=
  Session.afterUsers_synced h.serves

theorem of_synced (h : x.Ready d) {l : List User} {r : Advance LocalEngine}
    (hr : x.session.Synced x.core l r) (sync : Errand) :
    Ready { x with session := r.session, core := r.core, sync } d := by
  obtain ⟨lim, hlim, hd⟩ := h.limiter
  cases hr with
  | taken c' moved limits =>
    obtain ⟨lim', hlim', hupdated⟩ := limits.node lim hlim
    exact ⟨moved.serves _ h.serves, lim', hlim', hupdated.defaults.trans hd⟩
  | refused f c' moved limits => exact ⟨moved.serves _ h.serves, lim, limits ▸ hlim, hd⟩
  | overflowed o c' moved limits => exact ⟨moved.serves _ h.serves, lim, limits ▸ hlim, hd⟩

theorem stepped (h : x.Ready d) (e : NodeEvent) : x.Stepped e (x.step e) := by
  cases he : e.list? with
  | none =>
    obtain ⟨hs, hsame⟩ := x.step_sameUsers he
    exact .same _ (.inl he) hs hsame
  | some l =>
    obtain rfl : e = .users (.ok (some l)) := NodeEvent.eq_of_list? he
    by_cases hw : x.sync = .waiting .users
    · rw [step_users_of_waiting hw]
      exact .synced l _ he hw rfl (h.synced l)
    · rw [step_users_of_ne hw]
      exact .same x (.inr hw) rfl (.refl _ _)

theorem step (h : x.Ready d) (e : NodeEvent) : (x.step e).Ready d := by
  have hstep := h.stepped e
  generalize x.step e = y at hstep ⊢
  cases hstep with
  | same _ _ session users => exact h.of_sameUsers session users
  | synced l r _ _ _ synced => exact h.of_synced synced _

theorem step_tag (h : x.Ready d) (e : NodeEvent) :
    (x.step e).session.tag = x.session.tag := by
  have hstep := h.stepped e
  generalize x.step e = y at hstep ⊢
  cases hstep with
  | same _ _ session => rw [session]
  | synced l r _ _ _ synced => exact synced.moved.1

theorem run (h : x.Ready d) (es : List NodeEvent) : (x.run es).Ready d :=
  run_invariant (P := (·.Ready d)) (fun _ e _ hx => hx.step e) h

end Ready

end RunningNode

end NodeAgent
