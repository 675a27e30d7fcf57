import NodeAgent.Proofs.Turns

/-!
What the tasks of a node do to the core, whatever comes of them. Listeners and limiters stay, and all
new ids are ids of users of the node. A turn changes nothing of the node but its list, its client and
its certificate.
-/

namespace NodeAgent

namespace LocalEngine

structure SameListeners (e e' : LocalEngine) : Prop where
  closed : e'.closed = e.closed
  listener : ∀ t, e'.listener? t = e.listener? t

variable {e : LocalEngine} {tag : String}

theorem SameListeners.refl (e : LocalEngine) : SameListeners e e := ⟨rfl, fun _ => rfl⟩

theorem SameListeners.trans {e₁ e₂ : LocalEngine} (h : SameListeners e e₁)
    (h' : SameListeners e₁ e₂) : SameListeners e e₂ :=
  ⟨h'.closed.trans h.closed, fun t => (h'.listener t).trans (h.listener t)⟩

theorem updateUsers_sameListeners (e : LocalEngine) (tag : String)
    (f : Table String Binding → Table String Binding) :
    SameListeners e (e.updateUsers tag f).1 := by
  unfold updateUsers
  split
  · exact .refl e
  · split
    · exact .refl e
    next entry hentry =>
      refine ⟨rfl, fun t => ?_⟩
      by_cases ht : t = tag
      · simp [listener?, ht, hentry]
      · simp [listener?, Table.find?_insert_of_ne _ _ ht]

theorem removeUsers_sameListeners (e : LocalEngine) (tag : String) (userTags : List String) :
    SameListeners e (e.removeUsers tag userTags).1 := e.updateUsers_sameListeners tag _

theorem addUsers_sameListeners (e : LocalEngine) (tag : String) (users : List Binding) :
    SameListeners e (e.addUsers tag users).1 := by
  have h := e.updateUsers_sameListeners tag (·.insertMany (users.map fun b => (b.userTag, b)))
  exact h

theorem listener?_isSome_iff (e : LocalEngine) (tag : String) :
    (e.listener? tag).isSome = true ↔ tag ∈ e.entries.keys := by
  rw [listener?, Option.isSome_map, Table.mem_keys_iff, Option.isSome_iff_exists]

end LocalEngine

namespace Core

structure Tended (c c' : Core LocalEngine) (tag : String) : Prop where
  engine : LocalEngine.SameListeners c.engine c'.engine
  limiters : ∀ t, t ∈ c'.limiters.keys ↔ t ∈ c.limiters.keys
  uids : ∀ u ∈ c'.uids.keys, u ∈ c.uids.keys ∨ isUserOf tag u = true

variable {c c₁ c' : Core LocalEngine} {tag : String}

theorem Tended.refl (c : Core LocalEngine) (tag : String) : Tended c c tag :=
  ⟨.refl _, fun _ => Iff.rfl, fun _ hu => .inl hu⟩

theorem Tended.trans (h : Tended c c₁ tag) (h' : Tended c₁ c' tag) : Tended c c' tag where
  engine := h.engine.trans h'.engine
  limiters := fun t => (h'.limiters t).trans (h.limiters t)
  uids := fun u hu => (h'.uids u hu).elim (h.uids u) .inr

theorem SameUsers.tended (h : SameUsers c c' tag) : Tended c c' tag where
  engine := h.engine ▸ .refl c.engine
  limiters := by
    intro t
    by_cases ht : t = tag
    · have hrules := congrArg Option.isSome h.rules
      rw [Option.isSome_map, Option.isSome_map] at hrules
      rw [ht, Table.mem_keys_iff, Table.mem_keys_iff, ← Option.isSome_iff_exists,
        ← Option.isSome_iff_exists, hrules]
    · rw [Table.mem_keys_iff, Table.mem_keys_iff, h.elsewhere t ht]
  uids := fun u hu => .inl (h.uids ▸ hu)

theorem delUsers_tended (c : Core LocalEngine) (tag : String) (users : List User) :
    Tended c (c.delUsers tag users).1 tag := by
  have hengine := c.engine.removeUsers_sameListeners tag (users.map fun u => userTag tag u.uuid)
  simp only [delUsers]
  split
  next c₁ f hcall =>
    obtain ⟨⟨err, hact⟩, hc₁⟩ := callEngine_error hcall
    rw [show c.engine.removeUsers tag _ = _ from hact] at hengine
    rw [hc₁]
    exact ⟨hengine, fun _ => Iff.rfl, fun _ hu => .inl hu⟩
  next c₁ hcall =>
    obtain ⟨hact, hc₁⟩ := callEngine_ok hcall
    rw [show c.engine.removeUsers tag _ = _ from hact] at hengine
    rw [hc₁]
    exact ⟨hengine, fun _ => Iff.rfl, fun _ hu => .inl ((Table.mem_keys_eraseMany ..).1 hu).1⟩

theorem addUsers_tended (c : Core LocalEngine) (tag : String) (info : NodeInfo)
    (users : List User) : Tended c (c.addUsers tag info users).1 tag := by
  unfold addUsers
  split
  · exact .refl c tag
  next bindings hbindings =>
    refine ⟨c.engine.addUsers_sameListeners tag bindings, fun _ => Iff.rfl, fun u hu => ?_⟩
    rcases (Table.mem_keys_insertMany ..).1 hu with hold | hnew
    · exact .inl hold
    · rw [Binding.keys_ofUsers (·.uid) hbindings] at hnew
      obtain ⟨v, -, rfl⟩ := mem_userTags.1 hnew
      exact .inr (isUserOf_userTag tag v.uuid)

theorem updateLimiter_tended (c : Core LocalEngine) (tag : String) (d : UserDiff) :
    Tended c (c.updateLimiter tag d).1 tag := by
  unfold updateLimiter
  split
  · exact .refl c tag
  next l hl =>
    split
    · exact .refl c tag
    next l' hupdate =>
      refine ⟨.refl _, fun t => ?_, fun _ hu => .inl hu⟩
      rw [Table.mem_keys_insert, or_iff_right_iff_imp]
      rintro rfl
      exact (Table.mem_keys_iff ..).2 ⟨l, hl⟩

end Core

namespace Session

variable {ε : Type}

theorem applyDiff_tended (s : Session) (c : Core LocalEngine) (d : UserDiff) :
    Core.Tended c (s.applyDiff c d).1 s.tag := by
  have hdeparted : Core.Tended c
      (if d.deleted.isEmpty then (c, .ok ()) else c.delUsers s.tag d.deleted).1 s.tag := by
    split
    · exact .refl c s.tag
    · exact c.delUsers_tended s.tag d.deleted
  unfold applyDiff
  split
  next c₁ f hdel => rwa [hdel] at hdeparted
  next c₁ hdel =>
    rw [hdel] at hdeparted
    have harrived : Core.Tended c₁
        (if d.added.isEmpty then (c₁, .ok 0) else c₁.addUsers s.tag s.info d.added).1 s.tag := by
      split
      · exact .refl c₁ s.tag
      · exact c₁.addUsers_tended s.tag s.info d.added
    split
    next c₂ f hadd =>
      rw [hadd] at harrived
      exact hdeparted.trans harrived
    next c₂ n hadd =>
      rw [hadd] at harrived
      exact (hdeparted.trans harrived).trans (c₂.updateLimiter_tended s.tag d)

theorem afterUsers_tended (s : Session) (c : Core LocalEngine) (users : List User) :
    Core.Tended c (s.afterUsers c (.ok (some users))).core s.tag := by
  have hdiff : Core.Tended c (if (UserDiff.between s.users users).isEmpty then (c, .ok ())
      else s.applyDiff c (UserDiff.between s.users users)).1 s.tag := by
    split
    · exact .refl c s.tag
    · exact s.applyDiff_tended c _
  simp only [afterUsers]
  split
  next heq => rwa [heq] at hdiff
  next heq => rwa [heq] at hdiff
  next heq => rwa [heq] at hdiff

variable [Engine ε]

theorem resume_session (s : Session) (c : Core ε) (stage : Stage) (a : stage.request.Answer) :
    (s.resume c stage a).session.tag = s.tag ∧ (s.resume c stage a).session.info = s.info := by
  cases stage with
  | firstUsers =>
    simp only [resume]
    obtain ⟨f, hf⟩ | ⟨users, husers⟩ := s.afterFirstUsers_eq c a
    · rw [hf]
      exact ⟨rfl, rfl⟩
    · rw [husers]
      exact ⟨rfl, rfl⟩
  | firstAlive users =>
    simp only [resume, afterFirstAlive]
    split <;> exact ⟨rfl, rfl⟩
  | users =>
    rcases a with e | _ | l
    · exact ⟨rfl, rfl⟩
    · exact ⟨rfl, rfl⟩
    · simp only [resume, afterUsers]
      split <;> exact ⟨rfl, rfl⟩
  | traffic l =>
    obtain ⟨hs, -⟩ := s.stepsAfterTraffic_frame c l
    rw [resume, hs]
    exact ⟨rfl, rfl⟩
  | _ => exact ⟨rfl, rfl⟩

theorem task?_of_resume (s : Session) (c : Core ε) {stage next : Stage}
    {a : stage.request.Answer} (h : (s.resume c stage a).progress = .ask next) :
    next.task? = stage.task? := by
  cases htask : stage.task? with
  | some task =>
    have hkeeps := s.keepsTo_resume c a htask
    rw [h] at hkeeps
    cases hkeeps with
    | ask _ hnext => exact hnext
  | none =>
    cases stage with
    | firstUsers =>
      simp only [resume] at h
      obtain ⟨f, hf⟩ | ⟨users, husers⟩ := s.afterFirstUsers_eq c a
      · rw [hf] at h
        cases h
      · rw [husers] at h
        cases h
        rfl
    | firstAlive users =>
      simp only [resume, afterFirstAlive] at h
      split at h <;> cases h
    | _ => cases htask

end Session

namespace RunningNode

variable {x : RunningNode LocalEngine}

theorem step_tended (x : RunningNode LocalEngine) (e : NodeEvent) :
    (x.step e).session.tag = x.session.tag ∧
      Core.Tended x.core (x.step e).core x.session.tag := by
  cases he : e.list? with
  | none =>
    obtain ⟨hs, hsame⟩ := x.step_sameUsers he
    exact ⟨by rw [hs], hsame.tended⟩
  | some l =>
    obtain rfl : e = .users (.ok (some l)) := NodeEvent.eq_of_list? he
    by_cases hw : x.sync = .waiting .users
    · rw [step_users_of_waiting hw]
      exact ⟨(x.session.resume_session x.core .users (.ok (some l))).1,
        x.session.afterUsers_tended x.core l⟩
    · rw [step_users_of_ne hw]
      exact ⟨rfl, .refl _ _⟩

theorem run_tended (x : RunningNode LocalEngine) (es : List NodeEvent) :
    Core.Tended x.core (x.run es).core x.session.tag := by
  have hrun : (x.run es).session.tag = x.session.tag ∧
      Core.Tended x.core (x.run es).core x.session.tag := by
    refine run_invariant (P := fun y => y.session.tag = x.session.tag ∧
      Core.Tended x.core y.core x.session.tag) (fun y e _ ⟨htag, hy⟩ => ?_) ⟨rfl, .refl _ _⟩
    obtain ⟨hstep, htended⟩ := y.step_tended e
    rw [htag] at hstep htended
    exact ⟨hstep, hy.trans htended⟩
  exact hrun.2

end RunningNode

structure Post where
  tag : String
  info : NodeInfo
  tasks : List Nat
  deriving DecidableEq, Repr

def Node.post {π : Type} (n : Node π) : Post := ⟨n.session.tag, n.session.info, n.tasks⟩

def Duty.panelTask? : Duty → Option PanelTask
  | .sync => some .sync
  | .report => some .report
  | .renew => none

theorem Stage.rank_pos (stage : Stage) : 0 < stage.rank := by
  cases stage <;> simp [rank]

namespace Place

variable {χ ε π : Type}

theorem post_apply (p : Place χ ε π) {a : Advance ε} (htag : a.session.tag = p.node.session.tag)
    (hinfo : a.session.info = p.node.session.info) : (p.apply a).node.post = p.node.post := by
  rw [apply, Node.post, Node.post, htag, hinfo]

section Frame

variable [Engine ε] [Shell χ]

theorem enroll_frame (p : Place χ ε π) (users : List User) :
    (p.enroll users).1.number = p.number ∧ (p.enroll users).1.node.post = p.node.post := by
  simp only [enroll]
  split
  · exact ⟨rfl, rfl⟩
  · split <;> exact ⟨rfl, rfl⟩

variable [PanelApi π χ]

theorem pursue_frame (p : Place χ ε π) (progress : Progress) :
    (p.pursue progress).1.number = p.number ∧
      (p.pursue progress).1.node.post = p.node.post ∧
      ∀ d stage a, (p.pursue progress).2 = .wait d stage a →
        ∃ first, progress = .ask first ∧ stage.task? = first.task? ∧ stage.rank ≤ first.rank := by
  -- on the rank of the request: what follows an answer has a smaller one
  induction hn : progress.rank using Nat.strongRecOn generalizing p progress with
  | ind n ih =>
    subst hn
    cases progress with
    | finished r =>
      rw [pursue]
      exact ⟨rfl, rfl, fun _ _ _ h => by cases h⟩
    | enroll users =>
      rw [pursue]
      obtain ⟨hnumber, hpost⟩ := p.enroll_frame users
      exact ⟨hnumber, hpost, fun _ _ _ h => by cases h⟩
    | ask stage =>
      rw [pursue]
      rcases hask : p.ask stage.request with ⟨p', reply⟩
      have hp' : p'.number = p.number ∧ p'.node.post = p.node.post := by
        rw [show p' = (p.ask stage.request).1 by rw [hask]]
        exact ⟨rfl, rfl⟩
      by_cases hdelay : reply.delay = 0
      · simp only [if_pos hdelay]
        have hlt := Session.rank_resume_lt p'.node.session p'.core stage reply.answer
        obtain ⟨htag, hinfo⟩ := p'.node.session.resume_session p'.core stage reply.answer
        obtain ⟨hnumber, hpost, hwait⟩ := ih _ hlt
          (p'.apply (p'.node.session.resume p'.core stage reply.answer)) _ rfl
        refine ⟨hnumber.trans hp'.1, (hpost.trans (p'.post_apply htag hinfo)).trans hp'.2,
          fun d next a h => ?_⟩
        obtain ⟨first, hfirst, htask, hrank⟩ := hwait d next a h
        rw [hfirst] at hlt
        exact ⟨stage, rfl, htask.trans (Session.task?_of_resume _ _ hfirst),
          Nat.le_trans hrank (Nat.le_of_lt hlt)⟩
      · simp only [if_neg hdelay]
        refine ⟨hp'.1, hp'.2, fun d next a h => ?_⟩
        cases h
        exact ⟨stage, rfl, rfl, Nat.le_refl _⟩

theorem resume_frame (p : Place χ ε π) (stage : Stage) (answer : stage.request.Answer) :
    (p.resume stage answer).1.number = p.number ∧
      (p.resume stage answer).1.node.post = p.node.post ∧
      ∀ d next a, (p.resume stage answer).2 = .wait d next a →
        next.task? = stage.task? ∧ next.rank < stage.rank := by
  obtain ⟨htag, hinfo⟩ := p.node.session.resume_session p.core stage answer
  obtain ⟨hnumber, hpost, hwait⟩ := (p.apply (p.node.session.resume p.core stage answer)).pursue_frame
    (p.node.session.resume p.core stage answer).progress
  refine ⟨hnumber, hpost.trans (p.post_apply htag hinfo), fun d next a h => ?_⟩
  obtain ⟨first, hfirst, htask, hrank⟩ := hwait d next a h
  have hlt := Session.rank_resume_lt p.node.session p.core stage answer
  rw [hfirst] at hlt
  exact ⟨htask.trans (Session.task?_of_resume _ _ hfirst), Nat.lt_of_le_of_lt hrank hlt⟩

end Frame

section Tended

variable [Shell χ] [PanelApi π χ]

structure Tends (p : Place χ LocalEngine π) (r : Place χ LocalEngine π × Pause)
    (task? : Option PanelTask) : Prop where
  number : r.1.number = p.number
  post : r.1.node.post = p.node.post
  core : Core.Tended p.core r.1.core p.node.session.tag
  waits : ∀ d stage a, r.2 = .wait d stage a → stage.task?.isSome ∧ stage.task? = task?

omit [Shell χ] [PanelApi π χ] in
theorem core_atTask (p : Place χ LocalEngine π) (task : PanelTask) (errand other : Errand) :
    (p.atTask task errand other).core = p.core ∧
      (p.atTask task errand other).session = p.node.session := by
  cases task <;> exact ⟨rfl, rfl⟩

omit [Shell χ] [PanelApi π χ] in
theorem tended_of_run {p p' : Place χ LocalEngine π} {task : PanelTask}
    {errand errand' other : Errand} {es : List NodeEvent}
    (h : (p.atTask task errand other).run es = p'.atTask task errand' other) :
    Core.Tended p.core p'.core p.node.session.tag := by
  have hrun := (p.atTask task errand other).run_tended es
  obtain ⟨hcore, hsession⟩ := p.core_atTask task errand other
  rwa [h, hcore, hsession, (p'.core_atTask task errand' other).1] at hrun

theorem resume_tends (p : Place χ LocalEngine π) {stage : Stage} (answer : stage.request.Answer)
    {task : PanelTask} (h : stage.task? = some task) :
    p.Tends (p.resume stage answer) (some task) := by
  obtain ⟨hnumber, hpost, hwait⟩ := p.resume_frame stage answer
  obtain ⟨es, hes⟩ := p.resume_is_run .idle answer h
  refine ⟨hnumber, hpost, tended_of_run hes, fun d next a hnext => ?_⟩
  have htask := (hwait d next a hnext).1.trans h
  exact ⟨htask ▸ rfl, htask⟩

theorem run_tends (p : Place χ LocalEngine π) (d : Duty) :
    p.Tends (p.run d) d.panelTask? := by
  cases d with
  | sync =>
    obtain ⟨hnumber, hpost, hwait⟩ := p.pursue_frame (.ask .alive)
    obtain ⟨es, hes⟩ := p.run_is_run .idle .sync
    refine ⟨hnumber, hpost, tended_of_run hes, fun d next a hnext => ?_⟩
    obtain ⟨first, hfirst, htask, -⟩ := hwait d next a hnext
    cases hfirst
    exact ⟨htask ▸ rfl, htask⟩
  | report =>
    have hsession := (p.node.session.beginReport_frame p.core).1
    obtain ⟨hnumber, hpost, hwait⟩ := (p.apply (p.node.session.beginReport p.core)).pursue_frame
      (p.node.session.beginReport p.core).progress
    obtain ⟨es, hes⟩ := p.run_is_run .idle .report
    refine ⟨hnumber, hpost.trans (p.post_apply (by rw [hsession]) (by rw [hsession])),
      tended_of_run hes, fun d next a hnext => ?_⟩
    obtain ⟨first, hfirst, htask, -⟩ := hwait d next a hnext
    have hkeeps := p.node.session.keepsTo_beginReport p.core
    rw [hfirst] at hkeeps
    cases hkeeps with
    | ask _ hreport => exact ⟨(htask.trans hreport) ▸ rfl, htask.trans hreport⟩
  | renew =>
    simp only [run, renewCert]
    split
    · exact ⟨rfl, rfl, .refl _ _, fun _ _ _ h => by cases h⟩
    · split <;> exact ⟨rfl, rfl, .refl _ _, fun _ _ _ h => by cases h⟩

end Tended

end Place

end NodeAgent
