import NodeAgent.Offline
import NodeAgent.Proofs.Steps
import NodeAgent.Scripted.Panel

/-!
The start of a node. Its panel has sent the first users, and the counts of alive devices are the last
answer that it waits for; then come limiter, certificate, listener and users.
-/

namespace NodeAgent

theorem Listener.build_ok {n : NodeInfo} {tag dir : String} {l : Listener}
    (h : Listener.build n tag dir = .ok l) :
    l.tag = tag ∧ l.kind = n.kind ∧ l.port = n.endpoint.port := by
  unfold Listener.build at h
  cases ht : transportAndSettings n with
  | error e =>
    rw [ht] at h
    cases h
  | ok ts =>
    rw [ht] at h
    cases h
    exact ⟨rfl, rfl, rfl⟩

theorem Core.addNode_ok {c c' : Core LocalEngine} {tag : String} {info : NodeInfo}
    (h : c.addNode tag info = (c', .ok ())) :
    (∀ n, c'.engine.usersOf n = c.engine.usersOf n) ∧ c'.engine.Serves tag ∧
      c' = { c with engine := c'.engine, journal := c'.journal } := by
  unfold addNode at h
  split at h
  · simp at h
  next l hl =>
    obtain ⟨hact, hc'⟩ := callEngine_ok h
    obtain ⟨husers, hserves⟩ := LocalEngine.addListener_ok hact
    exact ⟨husers, (Listener.build_ok hl).1 ▸ hserves, hc'⟩

theorem Session.registerUsers_calls {s : Session} {c c' : Core LocalEngine} {users : List User}
    (h : s.registerUsers c users = (c', .ok ())) :
    ∃ c₁ n, c.addNode s.tag s.info = (c₁, .ok ()) ∧
      c₁.addUsers s.tag s.info users = (c', .ok n) := by
  unfold registerUsers at h
  split at h
  · simp at h
  next c₁ hnode =>
    split at h
    next c₂ n hadd =>
      obtain ⟨rfl, -⟩ := Prod.mk.inj h
      exact ⟨c₁, n, hnode, hadd⟩
    · simp at h

theorem Session.registerUsers_ok {s : Session} {c c' : Core LocalEngine} {users : List User}
    (h : s.registerUsers c users = (c', .ok ())) :
    ∃ c₁, (∀ n, c₁.engine.usersOf n = c.engine.usersOf n) ∧ c₁.engine.Serves s.tag ∧
      c₁.uids = c.uids ∧ c₁.traffic = c.traffic ∧ c'.limiters = c.limiters ∧
      Core.Moved c₁ c' s.tag [] users := by
  obtain ⟨c₁, n, hnode, hadd⟩ := registerUsers_calls h
  obtain ⟨husers, hserves, hc₁⟩ := Core.addNode_ok hnode
  obtain ⟨hmoved, hlimiters⟩ := Core.addUsers_ok hadd
  refine ⟨c₁, husers, hserves, ?_, ?_, hlimiters.trans ?_, hmoved⟩ <;> rw [hc₁]

theorem Limiter.ofUsers_ok {tag : String} {d : LimitDefaults} {users : List User}
    {alive : AliveCounts} {now : Instant} {l : Limiter}
    (h : ofUsers tag d users alive now = .ok l) :
    Updated { tag, defaults := d } l users [] := by
  unfold ofUsers at h
  cases hu : update { tag, defaults := d } users [] now with
  | error o =>
    rw [hu] at h
    cases h
  | ok l' =>
    rw [hu] at h
    cases h
    exact { update_ok hu with }

namespace Place

variable {χ π : Type} [Shell χ] [PanelApi π χ]

theorem resume_firstAlive {ε : Type} [Engine ε] {p : Place χ ε π} {users : List User}
    {alive : Except PanelError AliveCounts} {c : Core ε}
    (h : p.core.addLimiter p.node.session.tag users (Session.aliveOr alive) = (c, .ok ())) :
    p.resume (.firstAlive users) alive =
      let r := { p with core := c }.enroll users
      (r.1, .finished r.2) := by
  simp only [resume, Session.resume, Session.afterFirstAlive, h]
  rw [pursue]
  rfl

def fresh (cipher : String) : Place Offline LocalEngine ScriptedPanel where
  number := 0
  node := Node.new ⟨"http://p", [], [], []⟩ { id := 1, kind := .shadowsocks, endpoint := { cipher } }
  core := { engine := {} }
  host := { outside := {} }

def Starts {ε : Type} [Engine ε] (p : Place χ ε π) (users : List User)
    (alive : Except PanelError AliveCounts) : Prop :=
  (p.resume (.firstAlive users) alive).2 = .finished (.ok ())

instance (pause : Pause) : Decidable (pause = .finished (.ok ())) :=
  match pause with
  | .wait .. => isFalse nofun
  | .finished (.error _) => isFalse nofun
  | .finished (.ok ()) => isTrue rfl

instance {ε : Type} [Engine ε] (p : Place χ ε π) (users : List User)
    (alive : Except PanelError AliveCounts) : Decidable (p.Starts users alive) :=
  inferInstanceAs (Decidable (_ = _))

variable {ε : Type} [Engine ε] {p : Place χ ε π} {users : List User}

omit [PanelApi π χ] in
theorem enroll_ok {p' : Place χ ε π} (h : p.enroll users = (p', .ok ())) :
    p'.node.session = { p.node.session with users } ∧
      p.node.session.registerUsers p.core users = (p'.core, .ok ()) := by
  simp only [enroll] at h
  split at h
  · cases (Prod.mk.inj h).2
  · split at h
    · cases (Prod.mk.inj h).2
    next hregister =>
      obtain ⟨rfl, -⟩ := Prod.mk.inj h
      exact ⟨rfl, hregister⟩

theorem Starts.enrolls {alive : Except PanelError AliveCounts} (h : p.Starts users alive) :
    ∃ l p', Limiter.ofUsers p.node.session.tag p.core.limit users (Session.aliveOr alive)
        p.core.now = .ok l ∧
      enroll { p with core :=
        { p.core with limiters := p.core.limiters.insert p.node.session.tag l } } users =
          (p', .ok ()) ∧
      p.resume (.firstAlive users) alive = (p', .finished (.ok ())) := by
  unfold Starts at h
  cases hl : Limiter.ofUsers p.node.session.tag p.core.limit users (Session.aliveOr alive)
      p.core.now with
  | error o =>
    -- without a limiter the start is over
    simp only [resume, Session.resume, Session.afterFirstAlive, Core.addLimiter, hl] at h
    rw [pursue] at h
    simp at h
  | ok l =>
    have hlimiter : p.core.addLimiter p.node.session.tag users (Session.aliveOr alive) =
        ({ p.core with limiters := p.core.limiters.insert p.node.session.tag l }, .ok ()) := by
      simp only [Core.addLimiter, hl]
    have hturn := resume_firstAlive hlimiter
    rcases henroll : enroll { p with core :=
      { p.core with limiters := p.core.limiters.insert p.node.session.tag l } } users with ⟨p', r⟩
    rw [henroll] at hturn
    rw [hturn] at h ⊢
    obtain rfl : r = .ok () := Pause.finished.inj h
    exact ⟨l, p', rfl, henroll, rfl⟩

end Place

namespace RunningNode

variable {χ π : Type} [Shell χ] [PanelApi π χ]

def started {ε : Type} [Engine ε] (p : Place χ ε π) (users : List User)
    (alive : Except PanelError AliveCounts) : RunningNode ε :=
  ofPlace (p.resume (.firstAlive users) alive).1

structure Started (p : Place χ LocalEngine π) (users : List User)
    (x : RunningNode LocalEngine) : Prop where
  session : x.session = { p.node.session with users }
  serves : x.core.engine.Serves x.session.tag
  engine : ∀ t, t ∈ (x.core.engine.usersOf x.session.tag).keys ↔
    t ∈ (p.core.engine.usersOf x.session.tag).keys ∨ t ∈ userTags x.session.tag users
  uids : ∀ t, t ∈ x.core.uids.keys ↔
    t ∈ p.core.uids.keys ∨ t ∈ userTags x.session.tag users
  limiter : ∃ l, x.core.limiters.find? x.session.tag = some l ∧
    Limiter.Updated { tag := x.session.tag, defaults := p.core.limit } l users []
  tally : ∀ t, (x.core.traffic.counter x.session.tag).tally t =
    (p.core.traffic.counter p.node.session.tag).tally t
  sync : x.sync = .idle
  report : x.report = .idle

namespace Started

variable {p : Place χ LocalEngine π} {users : List User} {x : RunningNode LocalEngine}

omit [Shell χ] [PanelApi π χ] in
theorem tag (h : Started p users x) : x.session.tag = p.node.session.tag := by
  rw [h.session]

omit [Shell χ] [PanelApi π χ] in
theorem ready (h : Started p users x) : x.Ready p.core.limit := by
  obtain ⟨l, hl, hup⟩ := h.limiter
  exact ⟨h.serves, l, hl, hup.defaults⟩

end Started

theorem started_spec {p : Place χ LocalEngine π} {users : List User}
    {alive : Except PanelError AliveCounts} (h : p.Starts users alive) :
    Started p users (started p users alive) := by
  obtain ⟨l, p', hl, henroll, hturn⟩ := h.enrolls
  obtain ⟨hsession, hregister⟩ := Place.enroll_ok henroll
  obtain ⟨c₁, husers, hserves, huids, htraffic, hlimiters, hmoved⟩ :=
    Session.registerUsers_ok hregister
  have hstarted : started p users alive =
      ⟨{ p.node.session with users }, p'.core, .idle, .idle⟩ := by
    rw [started, hturn, ofPlace, hsession]
  have hfind : p'.core.limiters.find? p.node.session.tag = some l := by
    rw [hlimiters]
    exact Table.find?_insert_self ..
  rw [hstarted]
  refine ⟨rfl, hmoved.serves _ hserves, fun t => ?_, fun t => ?_,
    ⟨l, hfind, Limiter.ofUsers_ok hl⟩, fun t => ?_, rfl, rfl⟩
  · refine (hmoved.engine t).trans ?_
    rw [husers]
    exact or_congr_left (and_iff_left List.not_mem_nil)
  · refine (hmoved.uids t).trans ?_
    rw [huids]
    exact or_congr_left (and_iff_left List.not_mem_nil)
  · refine (hmoved.tally t).trans ?_
    rw [htraffic]
    exact if_neg List.not_mem_nil

end RunningNode

end NodeAgent
