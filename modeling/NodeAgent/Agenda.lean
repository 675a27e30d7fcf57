import NodeAgent.World

/-!
Starting and closing nodes. Whoever does it waits for the panel's answers, and meanwhile the clock
goes on and the tasks of other nodes with it.
-/

namespace NodeAgent

abbrev Agenda (χ ε π σ : Type) := Timetable Job InFlight (World χ ε π σ)

/-- Between two looks at a certificate, in seconds. -/
def renewalPeriod : Nat := 24 * 60 * 60

namespace Agenda

variable {χ ε π σ : Type}

def addStarted (s : Agenda χ ε π σ) (job : Job) (seconds : Nat) : Agenda χ ε π σ :=
  (s.add job (seconds * 1000)).start s.tasks.length true

def visit {α : Type} (s : Agenda χ ε π σ) (owner number : Nat) (default : α)
    (f : Place χ ε π → Place χ ε π × α) : Agenda χ ε π σ × α :=
  let (w, a) := s.state.visit owner number s.now default f
  ({ s with state := w }, a)

def addNodeTask (s : Agenda χ ε π σ) (owner number : Nat) (duty : Duty) (seconds : Nat) :
    Agenda χ ε π σ :=
  let task := s.tasks.length
  let (s, ()) := s.visit owner number () fun p =>
    ({ p with node := { p.node with tasks := p.node.tasks ++ [task] } }, ())
  s.addStarted (.node owner number duty) seconds

/-- The tasks of a node that has started; the first run comes after a whole period. -/
def addNodeTasks (s : Agenda χ ε π σ) (owner number : Nat) : Agenda χ ε π σ :=
  match s.state.place? owner number with
  | none => s
  | some p =>
    let info := p.node.session.info
    let s := s.addNodeTask owner number .sync info.pullInterval
    let s := s.addNodeTask owner number .report info.pushInterval
    if p.node.cert.any (·.needsRenewalTask) then
      s.addNodeTask owner number .renew renewalPeriod
    else s

def closeTasks (s : Agenda χ ε π σ) (tasks : List Nat) : Agenda χ ε π σ :=
  tasks.foldl Timetable.close s

/-- What is done with the nodes of one instance, for each the tag and the failure. -/
abbrev Failures := List (String × Failure)

def nodeCount (s : Agenda χ ε π σ) (owner : Nat) : Nat :=
  ((s.state.instances[owner]?).map (·.fleet.nodes.length)).getD 0

def nodeTag (s : Agenda χ ε π σ) (owner number : Nat) : String :=
  ((s.state.place? owner number).map (·.node.session.tag)).getD ""

section Close

variable [Engine ε]

/-- The node's tasks begin no other run; its limits and its listener go. -/
def closeNode (s : Agenda χ ε π σ) (owner number : Nat) : Agenda χ ε π σ × Except Failure Unit :=
  let tasks := ((s.state.place? owner number).map (·.node.tasks)).getD []
  (s.closeTasks tasks).visit owner number (.ok ()) fun p =>
    let (core, r) := p.node.session.close p.core
    ({ p with core, node := { p.node with tasks := [] } }, r)

/-- Goes on where a node does not close. -/
def closeNodes (s : Agenda χ ε π σ) (owner : Nat) : List Nat → Agenda χ ε π σ × Failures
  | [] => (s, [])
  | n :: r =>
    let tag := s.nodeTag owner n
    let (s, result) := s.closeNode owner n
    let (s, failures) := s.closeNodes owner r
    (s, match result with
      | .ok () => failures
      | .error f => (tag, f) :: failures)

def closeFleet (s : Agenda χ ε π σ) (owner : Nat) : Agenda χ ε π σ × Except Failure Unit :=
  match s.closeNodes owner (List.range (s.nodeCount owner)) with
  | (s, []) => (s, .ok ())
  | (s, failures) =>
    (s, .error ⟨[], .nodesNotClosed (failures.map fun f => (f.1, f.2.message))⟩)

def closeCore (s : Agenda χ ε π σ) (owner : Nat) : Agenda χ ε π σ × Except Failure Unit :=
  match s.state.instances[owner]? with
  | none => (s, .ok ())
  | some i =>
    let s := s.closeTasks i.monitor.toList
    let (core, r) := { i.core with now := s.now }.close
    ({ s with state := s.state.setInstance owner { i with core, monitor := none } }, r)

end Close

variable [Engine ε] [Shell χ] [PanelApi π χ] [ServerApi σ χ]

/-- Waits for answers until the run of a node is over; at most `fuel` of them take time. -/
def await (owner number : Nat) : Nat → Agenda χ ε π σ → Pause →
    Agenda χ ε π σ × Except Fault Unit
  | _, s, .finished r => (s, r)
  | 0, s, .wait .. => (s, .ok ())
  | fuel + 1, s, .wait delay stage answer =>
    let s : Agenda χ ε π σ := s.advanceTo World.actions (s.now + delay)
    let (s, pause) := s.visit owner number (.finished (.ok ())) (·.resume stage answer)
    await owner number fuel s pause

def startNode (s : Agenda χ ε π σ) (owner number : Nat) : Agenda χ ε π σ × Except Fault Unit :=
  let (s, pause) := s.visit owner number (.finished (.ok ())) (·.pursue (.ask .firstUsers))
  match await owner number Timetable.mostWaits s pause with
  | (s, .error e) => (s, .error e)
  | (s, .ok ()) => (s.addNodeTasks owner number, .ok ())

/-- After a failure the nodes that were `started`, the last one first, are closed again. -/
def startNodes (s : Agenda χ ε π σ) (owner : Nat) (started : List Nat) :
    List Nat → Agenda χ ε π σ × Except Fault Unit
  | [] => (s, .ok ())
  | n :: r =>
    let tag := s.nodeTag owner n
    match s.startNode owner n with
    | (s, .ok ()) => s.startNodes owner (n :: started) r
    | (s, .error (.failure f)) =>
      ((s.closeNodes owner started).1, .error (.failure (f.during (.startingNode tag))))
    | (s, .error (.overflow o)) => (s, .error (.overflow o))

/-- Starts the nodes of an instance in order, all or none of them. -/
def startFleet (s : Agenda χ ε π σ) (owner : Nat) : Agenda χ ε π σ × Except Fault Unit :=
  s.startNodes owner [] (List.range (s.nodeCount owner))

end Agenda

end NodeAgent
