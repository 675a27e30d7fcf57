import NodeAgent.Agent
import NodeAgent.Calendar
import NodeAgent.CommandLine

/-!
The agent as a service in the foreground: it reads its settings, opens its log and boots. From then
on it serves until it is told to end.
-/

namespace NodeAgent

inductive Ending
  | success
  | failure (f : Failure)
  | misuse
  /-- Something went wrong of which no one takes care. -/
  | panicked
  deriving DecidableEq, Repr

def Ending.code : Ending → UInt32
  | success => 0
  | failure _ => 1
  | misuse => 2
  | panicked => 101

namespace Service

variable {χ : Type}

/-- Each day has a log of its own. -/
def logPath (dir : String) (h : Host χ) : String :=
  joinPath dir ("node.log." ++ (Calendar.dateOfUnixTime h.epoch).text)

/-- Goes on with the log that is there, or begins one, if need be with its directory. -/
def openLog (dir : String) (h : Host χ) : Except OsError (Host χ) :=
  let path := logPath dir h
  match h.files.read path with
  | .ok _ => .ok h
  | .error _ =>
    match h.files.write path "" with
    | (files, .ok ()) => .ok { h with files }
    | (_, .error _) => do
      let files ← h.files.createDirectories (FileTree.parentPath path)
      match files.write path "" with
      | (files, .ok ()) => .ok { h with files }
      | (_, .error e) => .error e

/-- A log that cannot be opened is the end of the program. -/
def start [Shell χ] [HttpNetwork χ] (configPath : String) (h : Host χ) :
    Host χ × Except Ending (Agent χ) :=
  match Config.load h.files configPath with
  | .error f => (h, .error (.failure f))
  | .ok config =>
    match config.log.output.elim (.ok h) (openLog · h) with
    | .error _ => (h, .error .panicked)
    | .ok h =>
      let agent : Agent χ := { agenda := { state := { host := h } }, configPath }
      match agent.boot with
      | (a, .ok ()) => (a.agenda.state.host, .ok a)
      | (a, .error (.failure f)) => (a.agenda.state.host, .error (.failure f))
      | (a, .error (.overflow _)) => (a.agenda.state.host, .error .panicked)

/-- Runs the program. A service that has come up is told to end at once. -/
def run [Shell χ] [HttpNetwork χ] (args : List String) (h : Host χ) : Host χ × String × Ending :=
  match CommandLine.parse args with
  | .inform text => (h, text, .success)
  | .version => (h, CommandLine.versionLine, .success)
  | .misuse => (h, "", .misuse)
  | .server path _ =>
    match start path h with
    | (h, .error e) => (h, "", e)
    | (_, .ok a) => (a.close.agenda.state.host, "", .success)

end Service

end NodeAgent
