import NodeAgent.Fleet
import NodeAgent.Schedule.Timetable
import NodeAgent.Watch

/-!
Everything that the periodic tasks work on: the host, the reload signal and the instances, each with
its core and its nodes. An instance that was closed stays, for runs that are still in progress.
-/

namespace NodeAgent

/-- The types stand for the engine, the panel clients of nodes, and the server's client. -/
structure Instance (ε π σ : Type) where
  core : Core ε
  fleet : Fleet π
  server : Option σ := none
  /-- The number of the task that polls the server's configuration. -/
  monitor : Option Nat := none

structure World (χ ε π σ : Type) where
  host : Host χ
  signal : Signal := {}
  instances : List (Instance ε π σ) := []

inductive Duty
  | sync
  | report
  | renew
  deriving DecidableEq, Repr

/-- What a task is there for; instances and nodes are known by their numbers. -/
inductive Job
  | node (owner node : Nat) (duty : Duty)
  | monitor (owner : Nat)
  deriving DecidableEq, Repr

inductive InFlight
  | stage (s : Stage) (a : s.request.Answer)
  | fetched (a : Except PanelError (Option ServerReply))

def Outcome.ofResult {α : Type} : Except Fault α → Outcome
  | .ok _ => .ok
  | .error (.failure _) => .failed
  | .error (.overflow _) => .panicked

structure Place (χ ε π : Type) where
  number : Nat
  node : Node π
  core : Core ε
  host : Host χ

inductive Pause
  | finished (r : Except Fault Unit)
  | wait (delay : Nat) (s : Stage) (a : s.request.Answer)

namespace Pause

def rank : Pause → Nat
  | finished _ => 0
  | wait _ s _ => s.rank

def toTurn : Pause → Turn InFlight
  | finished r => .finished (Outcome.ofResult r)
  | wait delay s a => .wait delay (.stage s a)

end Pause

namespace Place

variable {χ ε π : Type}

def unixTime (p : Place χ ε π) : Int := p.host.epoch + (p.core.now / 1000 : Nat)

def ask [PanelApi π χ] (p : Place χ ε π) (q : PanelRequest) : Place χ ε π × Reply q.Answer :=
  let ((client, host), reply) := PanelApi.ask q p.core.now p.node.client p.host
  ({ p with node := { p.node with client }, core := p.core.note (.panel p.number q), host }, reply)

def apply (p : Place χ ε π) (a : Advance ε) : Place χ ε π :=
  { p with node := { p.node with session := a.session }, core := a.core }

variable [Engine ε] [Shell χ]

def failEnrolling (p : Place χ ε π) (f : Failure) : Place χ ε π × Except Fault Unit :=
  ({ p with core := p.core.deleteLimiter p.node.session.tag }, .error (.failure f))

/-- Certificate, listener and users of a node that starts; a failure takes its limits back. -/
def enroll (p : Place χ ε π) (users : List User) : Place χ ε π × Except Fault Unit :=
  let s := p.node.session
  match s.ensureCert p.core.cert p.host with
  | (host, .error f) => { p with host }.failEnrolling f
  | (host, .ok cert) =>
    match s.registerUsers p.core users with
    | (core, .error f) => { p with host, core }.failEnrolling f
    | (core, .ok ()) =>
      ({ p with node := { p.node with session := { s with users }, cert }, core, host }, .ok ())

variable [PanelApi π χ]

/-- Goes on as long as answers take no time. -/
def pursue (p : Place χ ε π) (progress : Progress) : Place χ ε π × Pause :=
  match progress with
  | .finished r => (p, .finished r)
  | .enroll users =>
    let (p, r) := p.enroll users
    (p, .finished r)
  | .ask stage =>
    let (p, reply) := p.ask stage.request
    if reply.delay = 0 then
      let a := p.node.session.resume p.core stage reply.answer
      (p.apply a).pursue a.progress
    else (p, .wait reply.delay stage reply.answer)
  termination_by progress.rank
  decreasing_by exact Session.rank_resume_lt ..

def resume (p : Place χ ε π) (stage : Stage) (answer : stage.request.Answer) :
    Place χ ε π × Pause :=
  let a := p.node.session.resume p.core stage answer
  (p.apply a).pursue a.progress

def renewCert (p : Place χ ε π) : Place χ ε π × Except Fault Unit :=
  match p.node.cert with
  | none => (p, .ok ())
  | some m =>
    match m.renewIfDue p.unixTime p.host with
    | (host, .ok _) => ({ p with host }, .ok ())
    | (host, .error e) =>
      ({ p with host }, .error (.failure ⟨[.renewingCert p.node.session.tag], .cert e⟩))

def run (p : Place χ ε π) : Duty → Place χ ε π × Pause
  | .sync => p.pursue (.ask .alive)
  | .report =>
    let a := p.node.session.beginReport p.core
    (p.apply a).pursue a.progress
  | .renew =>
    let (p, r) := p.renewCert
    (p, .finished r)

end Place

namespace World

variable {χ ε π σ : Type}

def place? (w : World χ ε π σ) (owner number : Nat) : Option (Place χ ε π) := do
  let i ← w.instances[owner]?
  let node ← i.fleet.nodes[number]?
  return { number, node, core := i.core, host := w.host }

def setInstance (w : World χ ε π σ) (owner : Nat) (i : Instance ε π σ) : World χ ε π σ :=
  { w with instances := w.instances.set owner i }

def putPlace (w : World χ ε π σ) (owner : Nat) (p : Place χ ε π) : World χ ε π σ :=
  { w with
    host := p.host
    instances := w.instances.modify owner fun i =>
      { i with
        core := p.core
        fleet := { i.fleet with nodes := i.fleet.nodes.set p.number p.node } } }

/-- Does something at a node, at the instant `now`. Where there is no such node, nothing is done. -/
def visit {α : Type} (w : World χ ε π σ) (owner number : Nat) (now : Instant) (default : α)
    (f : Place χ ε π → Place χ ε π × α) : World χ ε π σ × α :=
  match w.place? owner number with
  | none => (w, default)
  | some p =>
    let (p, a) := f { p with core := { p.core with now } }
    (w.putPlace owner p, a)

def concludePoll (w : World χ ε π σ) (a : Except PanelError (Option ServerReply)) :
    World χ ε π σ × Turn InFlight :=
  let (signal, outcome) := Monitor.conclude a w.signal
  ({ w with signal }, .finished outcome)

def poll [ServerApi σ χ] (w : World χ ε π σ) (owner : Nat) (now : Instant) :
    World χ ε π σ × Turn InFlight :=
  match w.instances[owner]? with
  | none => (w, .finished .ok)
  | some i =>
    match i.server with
    | none => (w, .finished .ok)
    | some client =>
      let ((client, host), reply) := ServerApi.fetch now client w.host
      let w := { w with host }.setInstance owner { i with server := some client }
      if reply.delay = 0 then w.concludePoll reply.answer
      else (w, .wait reply.delay (.fetched reply.answer))

variable [Engine ε] [Shell χ] [PanelApi π χ] [ServerApi σ χ]

def actions : Actions Job InFlight (World χ ε π σ) where
  enter
    | .node owner number duty, now, w =>
      let (w, pause) := w.visit owner number now (.finished (.ok ())) (·.run duty)
      (w, pause.toTurn)
    | .monitor owner, now, w => w.poll owner now
  resume
    | .node owner number _, .stage s a, now, w =>
      let (w, pause) := w.visit owner number now (.finished (.ok ())) (·.resume s a)
      (w, pause.toTurn)
    | _, .fetched a, _, w => w.concludePoll a
    | .monitor _, .stage .., _, w => (w, .finished .ok)

end World

end NodeAgent
