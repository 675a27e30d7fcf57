import NodeAgent.Proofs.Upkeep

/-!
What a start leaves behind at the node's core, at each of its ends: everything of the node, or nothing
of it. Closing a node takes everything of it out of a core whose engine is open.
-/

namespace NodeAgent

namespace LocalEngine

variable {e e' : LocalEngine} {l : Listener}

theorem addListener_registers (h : e.addListener l = (e', .ok ())) :
    e.closed = false ∧ e'.closed = false ∧
      ∀ t, e'.listener? t = if t = l.tag then some l else e.listener? t := by
  unfold addListener at h
  split at h
  · simp at h
  next hopen =>
    have hopen : e.closed = false := by simpa using hopen
    split at h
    · simp at h
    · obtain ⟨rfl, -⟩ := Prod.mk.inj h
      refine ⟨hopen, hopen, fun t => ?_⟩
      by_cases ht : t = l.tag
      · simp [listener?, ht]
      · simp [listener?, ht, Table.find?_insert_of_ne _ _ ht]

theorem addListener_error {err : EngineError} (h : e.addListener l = (e', .error err)) : e' = e := by
  unfold addListener at h
  split at h
  · exact (Prod.mk.inj h).1.symm
  · split at h
    · exact (Prod.mk.inj h).1.symm
    · simp at h

theorem removeListener_of_open (tag : String) (h : e.closed = false) :
    (e.removeListener tag).2 = .ok () ∧ (e.removeListener tag).1.closed = false ∧
      ∀ t, (e.removeListener tag).1.listener? t = if t = tag then none else e.listener? t := by
  unfold removeListener
  rw [if_neg (by simp [h])]
  refine ⟨rfl, h, fun t => ?_⟩
  rw [listener?, Table.find?_erase]
  split <;> rfl

end LocalEngine

namespace Core

variable {c c₁ c' : Core LocalEngine} {tag : String} {info : NodeInfo}

structure Enrolled (c c' : Core LocalEngine) (tag : String) (info : NodeInfo) : Prop where
  isOpen : c'.engine.closed = false
  listener : ∃ l, c'.engine.listener? tag = some l ∧ l.kind = info.kind ∧
    l.port = info.endpoint.port
  elsewhere : ∀ t, t ≠ tag → c'.engine.listener? t = c.engine.listener? t
  limiters : ∀ t ∈ c'.limiters.keys, t ∈ c.limiters.keys ∨ t = tag
  uids : ∀ u ∈ c'.uids.keys, u ∈ c.uids.keys ∨ isUserOf tag u = true

structure Withdrawn (c c' : Core LocalEngine) : Prop where
  closed : c'.engine.closed = c.engine.closed
  listeners : ∀ t ∈ c'.engine.entries.keys, t ∈ c.engine.entries.keys
  limiters : ∀ t ∈ c'.limiters.keys, t ∈ c.limiters.keys
  uids : ∀ u ∈ c'.uids.keys, u ∈ c.uids.keys

structure Removed (c c' : Core LocalEngine) (tag : String) : Prop where
  isOpen : c'.engine.closed = false
  listener : ∀ t, c'.engine.listener? t = if t = tag then none else c.engine.listener? t
  traffic : c'.traffic = c.traffic.erase tag
  uids : ∀ u, u ∈ c'.uids.keys ↔ u ∈ c.uids.keys ∧ isUserOf tag u = false
  limiters : c'.limiters = c.limiters

theorem Withdrawn.refl (c : Core LocalEngine) : Withdrawn c c :=
  ⟨rfl, fun _ h => h, fun _ h => h, fun _ h => h⟩

theorem delNode_of_open (c : Core LocalEngine) (tag : String) (h : c.engine.closed = false) :
    ∃ c', c.delNode tag = (c', .ok ()) ∧ Removed c c' tag := by
  obtain ⟨hok, hopen, hlistener⟩ := LocalEngine.removeListener_of_open tag h
  unfold delNode
  split
  next c₁ f hcall =>
    obtain ⟨⟨err, hact⟩, -⟩ := callEngine_error hcall
    rw [show c.engine.removeListener tag = _ from hact] at hok
    cases hok
  next c₁ hcall =>
    obtain ⟨hact, hc₁⟩ := callEngine_ok hcall
    rw [show c.engine.removeListener tag = _ from hact] at hopen hlistener
    refine ⟨_, rfl, hopen, hlistener, ?_, fun u => ?_, ?_⟩
    · rw [hc₁]
    · have huids : c₁.uids = c.uids := by rw [hc₁]
      simp only [Table.mem_keys_iff, Table.find?_filter, huids, Option.filter_eq_some_iff,
        Bool.not_eq_true', exists_and_right]
    · rw [hc₁]

theorem addNode_registers (h : c.addNode tag info = (c', .ok ())) :
    c'.engine.closed = false ∧
      ∃ l, l.kind = info.kind ∧ l.port = info.endpoint.port ∧
        (∀ t, c'.engine.listener? t = if t = tag then some l else c.engine.listener? t) ∧
        c' = { c with engine := c'.engine, journal := c'.journal } ∧ c.engine.closed = false := by
  unfold addNode at h
  split at h
  · simp at h
  next l hl =>
    obtain ⟨hact, hc'⟩ := callEngine_ok h
    obtain ⟨htag, hkind, hport⟩ := Listener.build_ok hl
    obtain ⟨hbefore, hopen, hlistener⟩ := LocalEngine.addListener_registers hact
    exact ⟨hopen, l, hkind, hport, htag ▸ hlistener, hc', hbefore⟩

theorem addNode_error {f : Failure} (h : c.addNode tag info = (c', .error f)) :
    c' = { c with journal := c'.journal } := by
  unfold addNode at h
  split at h
  · obtain ⟨rfl, -⟩ := Prod.mk.inj h
    rfl
  next l hl =>
    obtain ⟨⟨err, hact⟩, hc'⟩ := callEngine_error h
    rw [hc', LocalEngine.addListener_error hact]

end Core

namespace Session

variable {s : Session} {c c' : Core LocalEngine} {users : List User}

theorem registerUsers_enrolled (h : s.registerUsers c users = (c', .ok ())) :
    Core.Enrolled c c' s.tag s.info := by
  obtain ⟨c₁, n, hnode, hadd⟩ := registerUsers_calls h
  obtain ⟨hopen, l, hkind, hport, hlistener, hc₁, -⟩ := Core.addNode_registers hnode
  have htended := c₁.addUsers_tended s.tag s.info users
  rw [hadd] at htended
  refine ⟨htended.engine.closed.trans hopen, ⟨l, ?_, hkind, hport⟩, fun t ht => ?_,
    fun t ht => .inl ?_, fun u hu => ?_⟩
  · rw [htended.engine.listener, hlistener, if_pos rfl]
  · rw [htended.engine.listener, hlistener, if_neg ht]
  · rw [hc₁] at htended
    exact (htended.limiters t).1 ht
  · rw [hc₁] at htended
    exact htended.uids u hu

theorem registerUsers_withdrawn {f : Failure} (h : s.registerUsers c users = (c', .error f)) :
    Core.Withdrawn c c' := by
  unfold registerUsers at h
  split at h
  next c₁ f' hnode =>
    obtain ⟨rfl, -⟩ := Prod.mk.inj h
    rw [Core.addNode_error hnode]
    exact ⟨rfl, fun _ h => h, fun _ h => h, fun _ h => h⟩
  next c₁ hnode =>
    obtain ⟨hopen, l, -, -, hlistener, hc₁, hbefore⟩ := Core.addNode_registers hnode
    split at h
    · simp at h
    next c₂ f' hadd =>
      have htended := c₁.addUsers_tended s.tag s.info users
      rw [hadd] at htended
      obtain ⟨c₃, hdel, hremoved⟩ := c₂.delNode_of_open s.tag (htended.engine.closed.trans hopen)
      rw [hdel] at h
      obtain ⟨rfl, -⟩ := Prod.mk.inj h
      refine ⟨hremoved.isOpen.trans hbefore.symm, fun t ht => ?_, fun t ht => ?_, fun u hu => ?_⟩
      · rw [← LocalEngine.listener?_isSome_iff] at ht ⊢
        rw [hremoved.listener] at ht
        by_cases htag : t = s.tag
        · rw [if_pos htag] at ht
          cases ht
        · rwa [if_neg htag, htended.engine.listener, hlistener, if_neg htag] at ht
      · rw [hremoved.limiters, htended.limiters, hc₁] at ht
        exact ht
      · -- ids are known even where the engine refuses the users, and go with the listener
        obtain ⟨hmem, hother⟩ := (hremoved.uids u).1 hu
        rcases htended.uids u hmem with hold | hnew
        · rw [hc₁] at hold
          exact hold
        · rw [hother] at hnew
          cases hnew

end Session

inductive Core.Enlisting (c : Core LocalEngine) (tag : String) (info : NodeInfo)
    (c' : Core LocalEngine) : Pause → Prop
  | waits (delay : Nat) (stage : Stage) (a : stage.request.Answer)
      (same : c' = { c with journal := c'.journal }) : Enlisting c tag info c' (.wait delay stage a)
  | enrolled (h : Enrolled c c' tag info) : Enlisting c tag info c' (.finished (.ok ()))
  | withdrawn (f : Failure) (h : Withdrawn c c') :
      Enlisting c tag info c' (.finished (.error (.failure f)))
  | overflowed (o : Overflow) : Enlisting c tag info c' (.finished (.error (.overflow o)))

theorem Core.Enlisting.of_journal {c c₁ c' : Core LocalEngine} {tag : String} {info : NodeInfo}
    {pause : Pause} (h : Enlisting c₁ tag info c' pause)
    (same : c₁ = { c with journal := c₁.journal }) : Enlisting c tag info c' pause := by
  rw [same] at h
  cases h with
  | waits delay stage a hc' =>
    refine .waits delay stage a ?_
    rw [hc']
  | enrolled h => exact .enrolled { h with }
  | withdrawn f h => exact .withdrawn f { h with }
  | overflowed o => exact .overflowed o

namespace Place

variable {χ π : Type} [Shell χ] {p : Place χ LocalEngine π} {users : List User}

theorem enroll_enrolled {p' : Place χ LocalEngine π} (h : p.enroll users = (p', .ok ())) :
    Core.Enrolled p.core p'.core p.node.session.tag p.node.session.info :=
  Session.registerUsers_enrolled (enroll_ok h).2

theorem enroll_withdrawn {p' : Place χ LocalEngine π} {e : Fault}
    (h : p.enroll users = (p', .error e)) :
    ∃ f c', e = .failure f ∧ Core.Withdrawn p.core c' ∧
      p'.core = c'.deleteLimiter p.node.session.tag := by
  simp only [enroll, failEnrolling] at h
  split at h
  next host f hcert =>
    obtain ⟨rfl, hf⟩ := Prod.mk.inj h
    exact ⟨f, p.core, (Except.error.inj hf).symm, .refl _, rfl⟩
  · split at h
    next c' f hregister =>
      obtain ⟨rfl, hf⟩ := Prod.mk.inj h
      exact ⟨f, c', (Except.error.inj hf).symm, Session.registerUsers_withdrawn hregister, rfl⟩
    · simp at h

variable [PanelApi π χ]

theorem resume_firstAlive_enlisting (p : Place χ LocalEngine π) (users : List User)
    (alive : Except PanelError AliveCounts) :
    Core.Enlisting p.core p.node.session.tag p.node.session.info
      (p.resume (.firstAlive users) alive).1.core (p.resume (.firstAlive users) alive).2 := by
  cases hl : Limiter.ofUsers p.node.session.tag p.core.limit users (Session.aliveOr alive)
      p.core.now with
  | error o =>
    simp only [resume, Session.resume, Session.afterFirstAlive, Core.addLimiter, hl]
    rw [pursue]
    exact .overflowed o
  | ok l =>
    have hlimiter : p.core.addLimiter p.node.session.tag users (Session.aliveOr alive) =
        ({ p.core with limiters := p.core.limiters.insert p.node.session.tag l }, .ok ()) := by
      simp only [Core.addLimiter, hl]
    rw [resume_firstAlive hlimiter]
    rcases henroll : enroll { p with core :=
      { p.core with limiters := p.core.limiters.insert p.node.session.tag l } } users with ⟨p', r⟩
    dsimp only
    cases r with
    | ok u =>
      have h := enroll_enrolled henroll
      refine .enrolled ⟨h.isOpen, h.listener, h.elsewhere, fun t ht => ?_, h.uids⟩
      rcases h.limiters t ht with hold | hnew
      · exact ((Table.mem_keys_insert ..).1 hold).symm
      · exact .inr hnew
    | error e =>
      obtain ⟨f, c', rfl, h, hc'⟩ := enroll_withdrawn henroll
      rw [hc']
      refine .withdrawn f ⟨h.closed, h.listeners, fun t ht => ?_, h.uids⟩
      -- the limiter is taken back, also where there was one before
      obtain ⟨hmem, hne⟩ := (Table.mem_keys_erase ..).1 ht
      exact ((Table.mem_keys_insert ..).1 (h.limiters t hmem)).resolve_left hne

theorem pursue_ask_enlisting {stage : Stage}
    (h : ∀ (p' : Place χ LocalEngine π) (a : stage.request.Answer),
      Core.Enlisting p'.core p'.node.session.tag p'.node.session.info (p'.resume stage a).1.core
        (p'.resume stage a).2) (p : Place χ LocalEngine π) :
    Core.Enlisting p.core p.node.session.tag p.node.session.info
      (p.pursue (.ask stage)).1.core (p.pursue (.ask stage)).2 := by
  obtain ⟨hsession, hcore⟩ := p.ask_frame stage.request
  rw [pursue]
  rcases hask : p.ask stage.request with ⟨p₁, reply⟩
  rw [hask] at hsession hcore
  dsimp only at hsession hcore ⊢
  by_cases hdelay : reply.delay = 0
  · rw [if_pos hdelay]
    have hanswered := h p₁ reply.answer
    rw [hsession] at hanswered
    exact hanswered.of_journal hcore
  · rw [if_neg hdelay]
    exact .waits reply.delay stage reply.answer hcore

theorem resume_firstUsers_enlisting (p : Place χ LocalEngine π)
    (a : Except PanelError (Option (List User))) :
    Core.Enlisting p.core p.node.session.tag p.node.session.info
      (p.resume .firstUsers a).1.core (p.resume .firstUsers a).2 := by
  simp only [resume, Session.resume]
  obtain ⟨f, hf⟩ | ⟨users, husers⟩ := p.node.session.afterFirstUsers_eq p.core a
  · rw [hf, pursue]
    cases f with
    | failure f => exact .withdrawn f (.refl _)
    | overflow o => exact .overflowed o
  · rw [husers]
    exact pursue_ask_enlisting (fun p' a => p'.resume_firstAlive_enlisting users a) _

theorem pursue_firstUsers_enlisting (p : Place χ LocalEngine π) :
    Core.Enlisting p.core p.node.session.tag p.node.session.info
      (p.pursue (.ask .firstUsers)).1.core (p.pursue (.ask .firstUsers)).2 :=
  pursue_ask_enlisting (fun p' a => p'.resume_firstUsers_enlisting a) p

theorem resume_enlisting (p : Place χ LocalEngine π) {stage : Stage} (a : stage.request.Answer)
    (first : stage.task? = none) :
    Core.Enlisting p.core p.node.session.tag p.node.session.info
      (p.resume stage a).1.core (p.resume stage a).2 := by
  cases stage with
  | firstUsers => exact p.resume_firstUsers_enlisting a
  | firstAlive users => exact p.resume_firstAlive_enlisting users a
  | _ => cases first

end Place

end NodeAgent
