import NodeAgent.Offline
import NodeAgent.Panel.ServerClient
import NodeAgent.Proofs.Files
import NodeAgent.Proofs.Launch
import NodeAgent.Proofs.Working

/-!
Listener, certificate manager and tasks of a node that has started. Each of them reads the settings of
the endpoint for itself, and they come to the same: a listener has TLS where somebody has seen to the
certificate, with the files of which that manager takes care.
-/

namespace NodeAgent

/-- The certificate modes for which a node that needs TLS gets a certificate. -/
def CertMode.securing : List String := ["file", "self", "http", "dns"]

def CertMode.ensured : List String := ["self", "http", "dns"]

/-- Those in which an authority is asked, also for a renewal. -/
def CertMode.requested : List String := ["http", "dns"]

section Modes

variable {e : Endpoint} {mode : CertMode}

theorem CertMode.ofEndpoint_ok (h : ofEndpoint e = .ok mode) :
    (e.certMode ∈ securing ↔ ¬(e.certMode = "none" ∨ e.certMode = "")) ∧
      (e.certMode ∈ ensured → mode ≠ .none ∧ mode ≠ .file) ∧
      (mode.isAcme = true ↔ e.certMode ∈ requested) := by
  unfold ofEndpoint at h
  split at h <;> cases h <;> simp_all [securing, ensured, requested, isAcme]

end Modes

theorem Listener.build_security {info : NodeInfo} {tag dir : String} {l : Listener}
    (h : Listener.build info tag dir = .ok l) : l.security = Listener.securityOf info dir := by
  unfold Listener.build at h
  obtain ⟨_, _, h⟩ := exists_of_bind_eq_ok h
  cases h
  rfl

theorem CertManager.ofNode_ok {info : NodeInfo} {settings : CertSettings} {m : CertManager Lego}
    (h : CertManager.ofNode info settings = .ok m) :
    CertMode.ofEndpoint info.endpoint = .ok m.mode ∧
      m.paths = certPaths settings.dir info.kind info.id := by
  unfold CertManager.ofNode at h
  obtain ⟨mode, hmode, h⟩ := exists_of_bind_eq_ok h
  cases h
  exact ⟨hmode, rfl⟩

namespace Session

variable {s : Session} {c c' : Core LocalEngine} {users : List User}

theorem registerUsers_listener (h : s.registerUsers c users = (c', .ok ())) :
    ∃ l, c'.engine.listener? s.tag = some l ∧
      l.security = Listener.securityOf s.info c.cert.dir := by
  obtain ⟨c₁, n, hnode, hadd⟩ := registerUsers_calls h
  have htended := c₁.addUsers_tended s.tag s.info users
  rw [hadd] at htended
  unfold Core.addNode at hnode
  split at hnode
  · cases (Prod.mk.inj hnode).2
  next l hl =>
    obtain ⟨hact, -⟩ := Core.callEngine_ok hnode
    obtain ⟨-, -, hlistener⟩ := LocalEngine.addListener_registers hact
    refine ⟨l, ?_, Listener.build_security hl⟩
    rw [htended.engine.listener, hlistener, (Listener.build_ok hl).1, if_pos rfl]

variable {χ : Type} [Shell χ] {settings : CertSettings} {h₀ h₁ : Host χ}
  {cert : Option (CertManager Lego)}

theorem ensureCert_ok (h : s.ensureCert settings h₀ = (h₁, .ok cert)) :
    if s.info.requiresTls then ∃ m, cert = some m ∧ CertManager.ofNode s.info settings = .ok m ∧
      m.ensure h₀ = (h₁, .ok ())
    else cert = none := by
  unfold ensureCert certManager at h
  split
  next hrequires =>
    rw [if_pos hrequires] at h
    cases hm : CertManager.ofNode s.info settings with
    | error e =>
      rw [hm] at h
      cases (Prod.mk.inj h).2
    | ok m =>
      rw [hm] at h
      dsimp only at h
      split at h
      next hensure =>
        obtain ⟨rfl, hcert⟩ := Prod.mk.inj h
        exact ⟨m, (Except.ok.inj hcert).symm, rfl, hensure⟩
      · cases (Prod.mk.inj h).2
  next hrequires =>
    rw [if_neg hrequires] at h
    exact (Except.ok.inj (Prod.mk.inj h).2).symm

end Session

namespace Place

variable {χ π : Type} {p p' : Place χ LocalEngine π}

structure Certified (p : Place χ LocalEngine π) : Prop where
  listener : ∃ l, p.core.engine.listener? p.node.session.tag = some l ∧
    l.security = Listener.securityOf p.node.session.info p.core.cert.dir
  manager : if p.node.session.info.requiresTls then
      ∃ m, p.node.cert = some m ∧ CertManager.ofNode p.node.session.info p.core.cert = .ok m ∧
        (m.mode ≠ .none ∧ m.mode ≠ .file → m.pairExists p.host.files = true)
    else p.node.cert = none

namespace Certified

variable {p : Place χ LocalEngine π}

theorem mode (h : p.Certified) (hrequires : p.node.session.info.requiresTls = true) :
    ∃ m, p.node.cert = some m ∧ CertMode.ofEndpoint p.node.session.info.endpoint = .ok m.mode ∧
      m.paths = certPaths p.core.cert.dir p.node.session.info.kind p.node.session.info.id ∧
      (m.mode ≠ .none ∧ m.mode ≠ .file → m.pairExists p.host.files = true) := by
  have hmanager := h.manager
  rw [if_pos hrequires] at hmanager
  obtain ⟨m, hm, hnode, hfiles⟩ := hmanager
  obtain ⟨hmode, hpaths⟩ := CertManager.ofNode_ok hnode
  exact ⟨m, hm, hmode, hpaths, hfiles⟩

theorem tls_iff (h : p.Certified) :
    (∃ cert key, Listener.securityOf p.node.session.info p.core.cert.dir = .tls cert key) ↔
      p.node.session.info.requiresTls = true ∧
        p.node.session.info.endpoint.certMode ∈ CertMode.securing := by
  unfold Listener.securityOf
  by_cases hrequires : p.node.session.info.requiresTls = true
  · obtain ⟨m, -, hmode, -⟩ := h.mode hrequires
    obtain ⟨hsecuring, -⟩ := CertMode.ofEndpoint_ok hmode
    rw [and_iff_right hrequires, hsecuring]
    simp only [if_pos hrequires]
    split <;> simp_all
  · simp only [if_neg hrequires]
    split <;> simp_all

theorem tls_paths (h : p.Certified) {cert key : String}
    (htls : Listener.securityOf p.node.session.info p.core.cert.dir = .tls cert key) :
    ∃ m, p.node.cert = some m ∧ m.paths = ⟨cert, key⟩ ∧
      (p.node.session.info.endpoint.certMode ∈ CertMode.ensured →
        p.host.files.exists? cert = true ∧ p.host.files.exists? key = true) := by
  obtain ⟨hrequires, -⟩ := h.tls_iff.1 ⟨cert, key, htls⟩
  obtain ⟨m, hm, hmode, hpaths, hfiles⟩ := h.mode hrequires
  unfold Listener.securityOf at htls
  simp only [if_pos hrequires] at htls
  split at htls
  · cases htls
  · obtain ⟨hcert, hkey⟩ := Security.tls.inj htls
    have hpair : m.paths = ⟨cert, key⟩ := by rw [hpaths, ← hcert, ← hkey]
    refine ⟨m, hm, hpair, fun hensured => ?_⟩
    have hthere := hfiles ((CertMode.ofEndpoint_ok hmode).2.1 hensured)
    rw [CertManager.pairExists, hpair, Bool.and_eq_true] at hthere
    exact hthere

theorem renews_iff (h : p.Certified) : p.node.cert.any (·.needsRenewalTask) = true ↔
    p.node.session.info.requiresTls = true ∧
      p.node.session.info.endpoint.certMode ∈ CertMode.requested := by
  by_cases hrequires : p.node.session.info.requiresTls = true
  · obtain ⟨m, hm, hmode, -⟩ := h.mode hrequires
    rw [hm, and_iff_right hrequires]
    exact (CertMode.ofEndpoint_ok hmode).2.2
  · have hmanager := h.manager
    rw [if_neg hrequires] at hmanager
    simp [hmanager, hrequires]

end Certified

section Turns

variable [Shell χ] {users : List User}

theorem enroll_certified (h : p.enroll users = (p', .ok ())) : p'.Certified := by
  simp only [enroll] at h
  split at h
  · cases (Prod.mk.inj h).2
  next host cert hcert =>
    split at h
    · cases (Prod.mk.inj h).2
    next core hregister =>
      obtain ⟨rfl, -⟩ := Prod.mk.inj h
      have hworks := p.node.session.works_registerUsers p.core users
      rw [hregister] at hworks
      obtain ⟨l, hl, hsecurity⟩ := Session.registerUsers_listener hregister
      have hensured := Session.ensureCert_ok hcert
      rw [← hworks.cert] at hsecurity hensured
      refine ⟨⟨l, hl, hsecurity⟩, ?_⟩
      split
      next hrequires =>
        rw [if_pos hrequires] at hensured
        obtain ⟨m, hm, hnode, hensure⟩ := hensured
        exact ⟨m, hm, hnode, CertManager.ensure_ok hensure⟩
      next hrequires =>
        rw [if_neg hrequires] at hensured
        exact hensured

variable [PanelApi π χ]

theorem resume_firstAlive_certified {alive : Except PanelError AliveCounts}
    (h : p.Starts users alive) : (p.resume (.firstAlive users) alive).1.Certified := by
  obtain ⟨l, p', -, henroll, hturn⟩ := h.enrolls
  rw [hturn]
  exact enroll_certified henroll

theorem resume_firstUsers_certified {a : Except PanelError (Option (List User))}
    (h : (p.resume .firstUsers a).2 = .finished (.ok ())) :
    (p.resume .firstUsers a).1.Certified := by
  simp only [resume, Session.resume] at h ⊢
  obtain ⟨f, hf⟩ | ⟨users, husers⟩ := p.node.session.afterFirstUsers_eq p.core a
  · rw [hf, pursue] at h
    cases h
  · rw [husers] at h ⊢
    have hturn := pursue_of_finished _ h
    rw [hturn] at h ⊢
    exact resume_firstAlive_certified h

structure Begins (p : Place χ LocalEngine π) (r : Place χ LocalEngine π × Pause) (fuel : Nat) :
    Prop where
  number : r.1.number = p.number
  post : r.1.node.post = p.node.post
  core : p.core.Works r.1.core
  waits : ∀ d stage a, r.2 = .wait d stage a → stage.task? = none ∧ stage.rank ≤ fuel
  ends : r.2 = .finished (.ok ()) → r.1.Certified

theorem pursue_begins (p : Place χ LocalEngine π) :
    p.Begins (p.pursue (.ask .firstUsers)) Timetable.mostWaits := by
  obtain ⟨hnumber, hpost, hwait⟩ := p.pursue_frame (.ask .firstUsers)
  refine ⟨hnumber, hpost, p.works_pursue _, fun d next a hnext => ?_, fun hend => ?_⟩
  · obtain ⟨stage, hstage, htask, hrank⟩ := hwait d next a hnext
    cases hstage
    exact ⟨htask, Nat.le_trans hrank (by decide)⟩
  · have hturn := pursue_of_finished p hend
    rw [hturn] at hend ⊢
    exact resume_firstUsers_certified hend

theorem resume_begins (p : Place χ LocalEngine π) {stage : Stage} (a : stage.request.Answer)
    {fuel : Nat} (first : stage.task? = none) (hrank : stage.rank ≤ fuel + 1) :
    p.Begins (p.resume stage a) fuel := by
  obtain ⟨hnumber, hpost, hwait⟩ := p.resume_frame stage a
  refine ⟨hnumber, hpost, p.works_resume stage a, fun d next a' hnext => ?_, fun hend => ?_⟩
  · obtain ⟨htask, hless⟩ := hwait d next a' hnext
    exact ⟨htask.trans first, Nat.le_of_lt_succ (Nat.lt_of_lt_of_le hless hrank)⟩
  · cases stage with
    | firstUsers => exact resume_firstUsers_certified hend
    | firstAlive users => exact resume_firstAlive_certified hend
    | _ => cases first

end Turns

end Place

namespace World

variable {χ π σ : Type} {w w' : World χ LocalEngine π σ} {owner number : Nat}
  {p : Place χ LocalEngine π}

theorem place?_visit {α : Type} (now : Instant) (default : α)
    {f : Place χ LocalEngine π → Place χ LocalEngine π × α} (hplace : w.place? owner number = some p)
    (hnumber : (f { p with core := { p.core with now } }).1.number = p.number) :
    (w.visit owner number now default f).1.place? owner number =
        some (f { p with core := { p.core with now } }).1 ∧
      (w.visit owner number now default f).2 = (f { p with core := { p.core with now } }).2 := by
  obtain ⟨i, hi, hnode, hp⟩ := place?_eq_some hplace
  have hplaced : p.number = number := by rw [hp]
  obtain ⟨hlt, -⟩ := List.getElem?_eq_some_iff.1 hnode
  have hinstance := getElem?_visit (f := f) now default hplace hi
  have hhost : (w.visit owner number now default f).1.host =
      (f { p with core := { p.core with now } }).1.host := by
    rw [visit, hplace]
    rfl
  refine ⟨?_, by rw [visit, hplace]⟩
  generalize f { p with core := { p.core with now } } = r at hnumber hinstance hhost ⊢
  have hput : r.1.number = number := hnumber.trans hplaced
  have hset : (i.fleet.nodes.set r.1.number r.1.node)[number]? = some r.1.node := by
    rw [hput]
    exact List.getElem?_set_self hlt
  simp only [place?, hinstance, hhost, Option.bind_eq_bind, Option.bind_some, hset]
  rw [← hput]
  rfl

theorem Works.place? (h : w.Works w') (hplace : w.place? owner number = some p) :
    ∃ p', w'.place? owner number = some p' ∧ p'.node.post = p.node.post ∧
      p'.core.cert = p.core.cert := by
  obtain ⟨i, hi, hnode, hp⟩ := place?_eq_some hplace
  obtain ⟨i', hi', hworks⟩ := h.instance? hi
  have hposts := congrArg (·[number]?) hworks.posts
  simp only [List.getElem?_map, hnode, Option.map_some] at hposts
  obtain ⟨node, hnode', hpost⟩ := Option.map_eq_some_iff.1 hposts
  refine ⟨⟨number, node, i'.core, w'.host⟩, ?_, hpost, ?_⟩
  · simp only [World.place?, hi', Option.bind_eq_bind, Option.bind_some, hnode']
    rfl
  · rw [hp]
    exact hworks.core.cert

end World

namespace Agenda

variable {χ π σ : Type} {s s' : Agenda χ LocalEngine π σ} {owner n : Nat}
  {p : Place χ LocalEngine π}

def entrant (now : Instant) (job : Job) (seconds : Nat) : Scheduled Job :=
  ⟨job, PeriodicTask.start { period := seconds * 1000 } true now⟩

theorem addStarted_frame (s : Agenda χ LocalEngine π σ) (job : Job) (seconds : Nat) :
    (s.addStarted job seconds).state = s.state ∧
      (s.addStarted job seconds).tasks = s.tasks ++ [entrant s.now job seconds] ∧
      (s.addStarted job seconds).now = s.now := by
  have htask : (s.add job (seconds * 1000)).task? s.tasks.length =
      some { period := seconds * 1000 } := by
    simp [Timetable.task?, Timetable.add]
  have hset : ((s.add job (seconds * 1000)).setTask s.tasks.length
      (PeriodicTask.start { period := seconds * 1000 } true s.now)).tasks =
        s.tasks ++ [entrant s.now job seconds] :=
    List.modifyTailIdx_add (List.modifyHead _) 0 s.tasks [⟨job, { period := seconds * 1000 }⟩]
  rw [addStarted, Timetable.start, htask]
  simp only [Timetable.arm, Bool.false_eq_true, if_false]
  split <;> exact ⟨rfl, hset, rfl⟩

theorem addNodeTask_frame (there : s.state.place? owner n = some p) (duty : Duty) (seconds : Nat) :
    (∃ tasks, (s.addNodeTask owner n duty seconds).state.place? owner n =
        some { p with core := { p.core with now := s.now }, node := { p.node with tasks } }) ∧
      (s.addNodeTask owner n duty seconds).tasks =
        s.tasks ++ [entrant s.now (.node owner n duty) seconds] ∧
      (s.addNodeTask owner n duty seconds).now = s.now := by
  have hvisit := (World.place?_visit s.now ()
    (f := fun p => ({ p with node := { p.node with tasks := p.node.tasks ++ [s.tasks.length] } }, ()))
    there rfl).1
  obtain ⟨hstate, hadded⟩ := addStarted_frame (s.visit owner n () fun p =>
    ({ p with node := { p.node with tasks := p.node.tasks ++ [s.tasks.length] } }, ())).1
    (.node owner n duty) seconds
  refine ⟨⟨p.node.tasks ++ [s.tasks.length], ?_⟩, hadded⟩
  exact (congrArg (·.place? owner n) hstate).trans hvisit

theorem addNodeTasks_frame (there : s.state.place? owner n = some p) :
    (∃ tasks, (s.addNodeTasks owner n).state.place? owner n =
        some { p with core := { p.core with now := s.now }, node := { p.node with tasks } }) ∧
      (s.addNodeTasks owner n).tasks = s.tasks ++
        ([entrant s.now (.node owner n .sync) p.node.session.info.pullInterval,
          entrant s.now (.node owner n .report) p.node.session.info.pushInterval] ++
          if p.node.cert.any (·.needsRenewalTask) then
            [entrant s.now (.node owner n .renew) renewalPeriod] else []) ∧
      (s.addNodeTasks owner n).now = s.now := by
  rw [addNodeTasks, there]
  dsimp only
  obtain ⟨⟨tasks₁, hplace₁⟩, hsync, hnow₁⟩ :=
    addNodeTask_frame there .sync p.node.session.info.pullInterval
  obtain ⟨⟨tasks₂, hplace₂⟩, hreport, hnow₂⟩ :=
    addNodeTask_frame hplace₁ .report p.node.session.info.pushInterval
  rw [hnow₁] at hplace₂ hnow₂
  rw [hsync, hnow₁] at hreport
  split
  · obtain ⟨hplace₃, hrenew, hnow₃⟩ := addNodeTask_frame hplace₂ .renew renewalPeriod
    rw [hnow₂] at hplace₃ hnow₃
    rw [hreport, hnow₂] at hrenew
    refine ⟨hplace₃, hrenew.trans ?_, hnow₃⟩
    rw [List.append_assoc, List.append_assoc]
    rfl
  · refine ⟨⟨tasks₂, hplace₂⟩, hreport.trans ?_, hnow₂⟩
    rw [List.append_assoc]
    rfl

section Start

variable [Shell χ] [PanelApi π χ] [ServerApi σ χ]

structure Beginning (s : Agenda χ LocalEngine π σ) (owner n fuel : Nat) (post : Post)
    (settings : CertSettings) (pause : Pause) : Prop where
  place : ∃ p, s.state.place? owner n = some p ∧ p.node.post = post ∧ p.core.cert = settings ∧
    (pause = .finished (.ok ()) → p.Certified)
  waits : ∀ d stage a, pause = .wait d stage a → stage.task? = none ∧ stage.rank ≤ fuel

variable {post : Post} {settings : CertSettings} {fuel : Nat}

omit [Shell χ] [PanelApi π χ] [ServerApi σ χ] in
theorem visit_beginning (there : s.state.place? owner n = some p)
    {f : Place χ LocalEngine π → Place χ LocalEngine π × Pause}
    (hf : ∀ p : Place χ LocalEngine π, p.Begins (f p) fuel) :
    (s.visit owner n (.finished (.ok ())) f).1.Beginning owner n fuel p.node.post p.core.cert
      (s.visit owner n (.finished (.ok ())) f).2 := by
  have hturn := hf { p with core := { p.core with now := s.now } }
  obtain ⟨hplace, hpause⟩ := World.place?_visit s.now (.finished (.ok ())) there hturn.number
  simp only [visit]
  rw [hpause]
  exact ⟨⟨_, hplace, hturn.post, hturn.core.cert, hturn.ends⟩, hturn.waits⟩

theorem await_beginning (fuel : Nat) {pause : Pause}
    (h : s.Beginning owner n fuel post settings pause)
    (hawait : s.await owner n fuel pause = (s', .ok ())) :
    s'.Beginning owner n 0 post settings (.finished (.ok ())) ∧ s'.lasting = s.lasting := by
  -- on the number of answers that are still waited for
  induction fuel generalizing s pause with
  | zero =>
    cases pause with
    | finished r =>
      obtain ⟨rfl, rfl⟩ := Prod.mk.inj hawait
      exact ⟨h, rfl⟩
    | wait d stage a =>
      have hrank := (h.waits d stage a rfl).2
      exact absurd stage.rank_pos (Nat.not_lt.2 hrank)
  | succ fuel ih =>
    cases pause with
    | finished r =>
      obtain ⟨rfl, rfl⟩ := Prod.mk.inj hawait
      exact ⟨⟨h.place, fun _ _ _ hwait => nomatch hwait⟩, rfl⟩
    | wait d stage a =>
      obtain ⟨htask, hrank⟩ := h.waits d stage a rfl
      obtain ⟨p, hplace, rfl, rfl, -⟩ := h.place
      obtain ⟨p₁, hplace₁, hpost₁, hcert₁⟩ :=
        (World.works_advanceTo s (s.now + d)).place? hplace
      have hturn := visit_beginning hplace₁ fun p => p.resume_begins a htask hrank
      rw [hpost₁, hcert₁] at hturn
      obtain ⟨hended, hlasting⟩ := ih hturn hawait
      exact ⟨hended, hlasting.trans (s.lasting_advanceTo World.actions (s.now + d))⟩

theorem startNode_certified (there : s.state.place? owner n = some p)
    (h : s.startNode owner n = (s', .ok ())) :
    ∃ (s₁ : Agenda χ LocalEngine π σ) (p₁ : Place χ LocalEngine π),
      s₁.state.place? owner n = some p₁ ∧ p₁.node.post = p.node.post ∧ p₁.Certified ∧
        s₁.lasting = s.lasting ∧ s' = s₁.addNodeTasks owner n := by
  simp only [startNode] at h
  split at h
  · cases (Prod.mk.inj h).2
  next s₁ hawait =>
    obtain ⟨rfl, -⟩ := Prod.mk.inj h
    have hfirst := visit_beginning there fun p => p.pursue_begins
    obtain ⟨⟨⟨p₁, hplace, hpost, -, hcertified⟩, -⟩, hlasting⟩ := await_beginning _ hfirst hawait
    exact ⟨s₁, p₁, hplace, hpost, hcertified rfl, hlasting, rfl⟩

/--
However a start that ends well comes to its end. The listener has TLS exactly where the endpoint needs
it and its mode is one of the four; its files are those of the node's certificate manager, and they are
there if the agent has to see to them: the turn that registers it is the last one of the start. Of the
tasks that are added then one is for renewals exactly where an authority has to be asked.
-/
theorem certificate_agrees (there : s.state.place? owner n = some p)
    (h : s.startNode owner n = (s', .ok ())) :
    let info := p.node.session.info
    let mode := info.endpoint.certMode
    ∃ p' l, s'.state.place? owner n = some p' ∧ p'.node.session.info = info ∧
      p'.core.engine.listener? p.node.session.tag = some l ∧
      ((∃ cert key, l.security = .tls cert key) ↔
        info.requiresTls = true ∧ mode ∈ ["file", "self", "http", "dns"]) ∧
      (∀ cert key, l.security = .tls cert key →
        (∃ m, p'.node.cert = some m ∧ m.paths = ⟨cert, key⟩) ∧
          (mode ∈ ["self", "http", "dns"] →
            p'.host.files.exists? cert = true ∧ p'.host.files.exists? key = true)) ∧
      s'.tasks.drop s.tasks.length =
        [entrant s'.now (.node owner n .sync) info.pullInterval,
          entrant s'.now (.node owner n .report) info.pushInterval] ++
          if info.requiresTls = true ∧ mode ∈ ["http", "dns"] then
            [entrant s'.now (.node owner n .renew) renewalPeriod] else [] := by
  intro info mode
  obtain ⟨s₁, p₁, hplace, hpost, hnode, hlasting, rfl⟩ := startNode_certified there h
  obtain ⟨htag, hinfo, -⟩ := Post.mk.inj hpost
  obtain ⟨⟨tasks, hplace'⟩, htasks, hnow⟩ := addNodeTasks_frame hplace
  obtain ⟨l, hl, hsecurity⟩ := hnode.listener
  have hlength : s₁.tasks.length = s.tasks.length := by
    have hlengths := congrArg List.length hlasting
    rwa [Timetable.lasting, Timetable.lasting, List.length_map, List.length_map] at hlengths
  refine ⟨_, l, hplace', hinfo, htag ▸ hl, ?_, fun cert key htls => ?_, ?_⟩
  · rw [hsecurity, hnode.tls_iff, hinfo]
    rfl
  · obtain ⟨m, hm, hpaths, hfiles⟩ := hnode.tls_paths (hsecurity ▸ htls)
    rw [hinfo] at hfiles
    exact ⟨⟨m, hm, hpaths⟩, hfiles⟩
  · rw [htasks, ← hlength, List.drop_left, hnow, hinfo]
    congr 1
    by_cases hrenews : p₁.node.cert.any (·.needsRenewalTask) = true
    · have hrequested := hnode.renews_iff.1 hrenews
      rw [hinfo] at hrequested
      rw [if_pos hrenews]
      exact (if_pos hrequested).symm
    · have hrequested := mt hnode.renews_iff.2 hrenews
      rw [hinfo] at hrequested
      rw [if_neg hrenews]
      exact (if_neg hrequested).symm

end Start

section OwnFiles

def vmessWithFiles : NodeInfo where
  id := 1
  kind := .vmess
  endpoint := { security := "tls", certMode := "file", transport := "tcp" }

theorem files_of_vmessWithFiles :
    let s : Agenda Offline LocalEngine ScriptedPanel ServerClient :=
      ofFleet { outside := {} } ⟨[Node.new (.sending [⟨7, "alice", 0, 0⟩]) vmessWithFiles], 1, 0⟩
    let s' := (s.startNode 0 0).1
    (s.startNode 0 0).2 = .ok () ∧
      (∃ p l cert key, s'.state.place? 0 0 = some p ∧
        p.core.engine.listener? "[http://p]-vmess:1" = some l ∧ l.security = .tls cert key ∧
        ∃ m, p.node.cert = some m ∧ m.paths = ⟨cert, key⟩) ∧
      s'.tasks.map (·.key) = [.node 0 0 .sync, .node 0 0 .report] := by
  intro s s'
  have hok : (s.startNode 0 0).2 = .ok () := by decide +kernel
  have hstart : s.startNode 0 0 = (s', .ok ()) := Prod.ext rfl hok
  obtain ⟨p, l, hplace, -, hl, htls, hfiles, htasks⟩ := certificate_agrees rfl hstart
  obtain ⟨cert, key, hsecurity⟩ := htls.2 ⟨rfl, by decide⟩
  obtain ⟨hmanaged, -⟩ := hfiles cert key hsecurity
  refine ⟨hok, ⟨p, l, cert, key, hplace, hl, hsecurity, hmanaged⟩, ?_⟩
  exact congrArg (List.map (·.key)) htasks

end OwnFiles

end Agenda

end NodeAgent
