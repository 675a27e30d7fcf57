import NodeAgent.Agenda
import NodeAgent.Panel.ServerClient

/-!
An agent from its configuration file to its nodes: booting, closing and reloading. At most one
instance runs at a time; those before it are closed or were dropped.
-/

namespace NodeAgent

/-- With the engine of this process, and panels that are reached through the network. -/
abbrev LiveAgenda (χ : Type) := Agenda χ LocalEngine PanelClient ServerClient

abbrev LiveInstance := Instance LocalEngine PanelClient ServerClient

structure Agent (χ : Type) where
  agenda : LiveAgenda χ
  configPath : String
  running : Option Nat := none

def Config.load (files : FileTree) (path : String) : Except Failure Config :=
  match files.read path with
  | .error e => .error ⟨[.readingConfig path], .file e⟩
  | .ok text => (Config.ofText text).mapError fun e => ⟨[.parsingConfig path], .config e⟩

/-- What is to be served; without it nothing can be. -/
def ServerData.ofReply : Except PanelError (Option ServerReply) → Except Failure ServerData
  | .error e => .error ⟨[.fetchingServer], .panel e⟩
  | .ok none => .error ⟨[], .noServerReply⟩
  | .ok (some reply) =>
    match reply.data with
    | none => .error ⟨[], .noServerData⟩
    | some data => .ok data

def LiveInstance.ofServer {χ : Type} [HttpNetwork χ] (h : Host χ) (config : Config)
    (data : ServerData) : Except Failure LiveInstance := do
  let make (_ : Nat) (info : NodeInfo) : Except Cause PanelClient :=
    match h.openNetwork config.api.host with
    | .error e => .error (.panel e)
    | .ok () => .ok (PanelClient.ofSettings config.api info.endpoint.kindName)
  let fleet ← Fleet.ofServer config.api.serverId data make
  return { core := { engine := {}, limit := config.limit, cert := config.cert }, fleet }

namespace Agenda

variable {χ : Type} [Shell χ] [HttpNetwork χ]

def fetchServer (s : LiveAgenda χ) (client : ServerClient) :
    LiveAgenda χ × ServerClient × Except PanelError (Option ServerReply) :=
  let ((client, host), reply) := ServerApi.fetch s.now client s.state.host
  let s := { s with state := { s.state with host } }
  (if reply.delay = 0 then s else s.advanceTo World.actions (s.now + reply.delay), client,
    reply.answer)

omit [Shell χ] in
def startMonitor (s : LiveAgenda χ) (owner : Nat) (client : ServerClient) (seconds : Nat) :
    LiveAgenda χ :=
  match s.state.instances[owner]? with
  | none => s
  | some i =>
    let i := { i with server := some client, monitor := some s.tasks.length }
    let s : LiveAgenda χ := { s with state := s.state.setInstance owner i }
    s.addStarted (.monitor owner) seconds

/-- Starts the nodes of a new instance, and then its poll; gives the number of the instance. -/
def launch (s : LiveAgenda χ) (client : ServerClient) (data : ServerData) (i : LiveInstance) :
    LiveAgenda χ × Except Fault Nat :=
  let owner := s.state.instances.length
  let s : LiveAgenda χ :=
    { s with state := { s.state with instances := s.state.instances ++ [i] } }
  match s.startFleet owner with
  | (s, .ok ()) => (s.startMonitor owner client data.pullSeconds, .ok owner)
  | (s, .error (.failure f)) => ((s.closeCore owner).1, .error (.failure f))
  | (s, .error (.overflow o)) => (s, .error (.overflow o))

end Agenda

namespace Agent

variable {χ : Type} [Shell χ] [HttpNetwork χ]

/-- A new instance. What went wrong before its nodes were started leaves none behind. -/
def build (a : Agent χ) : Agent χ × Except Fault Nat :=
  match Config.load a.agenda.state.host.files a.configPath with
  | .error f => (a, .error (.failure f))
  | .ok config =>
    match a.agenda.state.host.openNetwork config.api.host with
    | .error e => (a, .error (.failure ⟨[], .panel e⟩))
    | .ok () =>
      let (agenda, client, reply) := a.agenda.fetchServer (ServerClient.ofSettings config.api)
      let a := { a with agenda }
      match ServerData.ofReply reply with
      | .error f => (a, .error (.failure f))
      | .ok data =>
        match LiveInstance.ofServer a.agenda.state.host config data with
        | .error f => (a, .error (.failure f))
        | .ok i =>
          let (agenda, r) := a.agenda.launch client data i
          ({ a with agenda }, r)

omit [Shell χ] [HttpNetwork χ] in
/-- Ends the tasks of what runs, and closes nothing else of it. -/
def abandon (a : Agent χ) : Agent χ :=
  match a.running.bind (a.agenda.state.instances[·]?) with
  | none => { a with running := none }
  | some i =>
    let tasks := i.monitor.toList ++ i.fleet.nodes.flatMap (·.tasks)
    { a with agenda := a.agenda.closeTasks tasks, running := none }

/-- A new instance in place of the one that runs, which is abandoned. -/
def boot (a : Agent χ) : Agent χ × Except Fault Unit :=
  match a.abandon.build with
  | (a, .error f) => (a, .error f)
  | (a, .ok owner) => ({ a with running := some owner }, .ok ())

omit [Shell χ] [HttpNetwork χ] in
/-- Closes nodes and engine, whatever goes wrong with either. -/
def close (a : Agent χ) : Agent χ :=
  match a.running with
  | none => a
  | some owner =>
    let agenda := (a.agenda.closeFleet owner).1
    { a with agenda := (agenda.closeCore owner).1, running := none }

/-- Closes what runs and boots again. After a failure nothing runs. -/
def reload (a : Agent χ) : Agent χ × Except Overflow Unit :=
  match a.close.boot with
  | (a, .ok ()) => (a, .ok ())
  | (a, .error (.failure _)) => (a, .ok ())
  | (a, .error (.overflow o)) => (a, .error o)

end Agent

end NodeAgent
