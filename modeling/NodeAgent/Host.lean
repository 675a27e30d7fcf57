import NodeAgent.FileTree

/-!
The machine on which the agent runs: its files, its clock, what is beyond it (the network and other
programs, of type `χ`), and the commands that it carries out.
-/

namespace NodeAgent

structure CertPair where
  cert : String
  key : String
  deriving DecidableEq, Repr

/-- The use of the machine, in percent. -/
structure HostLoad where
  cpu : Float := 0.0
  memory : Float := 0.0
  disk : Float := 0.0

structure Host (χ : Type) where
  files : FileTree := {}
  outside : χ
  /-- The time in UTC, in seconds since 1970, when the agent's clock showed zero. -/
  epoch : Int := 0
  load : HostLoad := {}
  /-- What the generator of key pairs yields; it signs for thirty years. -/
  freshPair : CertPair := ⟨"", ""⟩

structure Command where
  program : String
  arguments : List String
  /-- Of two values for one name the later one counts. -/
  environment : List (String × String) := []
  /-- In seconds. -/
  timeout : Nat

def Command.hasNul (c : Command) : Bool :=
  (c.program :: c.arguments).any NodeAgent.hasNul ||
    (Table.ofList c.environment).entries.any fun e =>
      NodeAgent.hasNul e.1 || NodeAgent.hasNul e.2

inductive Execution
  | notStarted (e : OsError)
  | timedOut
  /-- `errors` is what the program wrote about its errors. -/
  | ended (succeeded : Bool) (errors : String)
  deriving DecidableEq, Repr

/-- Surroundings in which programs can be started. -/
class Shell (χ : Type) where
  execute : Command → Host χ → Host χ × Execution

/-- A command that holds the character of number zero reaches no program. -/
def Host.execute {χ : Type} [Shell χ] (h : Host χ) (c : Command) : Host χ × Execution :=
  if c.hasNul then (h, .notStarted .nulInCommand) else Shell.execute c h

end NodeAgent
