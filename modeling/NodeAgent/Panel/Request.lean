import NodeAgent.Calendar
import NodeAgent.Endpoint
import NodeAgent.Host
import NodeAgent.Panel.Error
import NodeAgent.User

/-!
What is asked of a panel, and what it may answer. A request of a node decides the type of its
answer.
-/

namespace NodeAgent

inductive PanelRequest
  | users
  /-- How many devices other nodes count. -/
  | alive
  /-- Ask for the whole user list the next time, whether it has changed or not. -/
  | invalidate
  | traffic (l : List UserTraffic)
  | online (l : List OnlineDevice)
  /-- The use of the host, measured as the request is made. -/
  | status
  deriving DecidableEq, Repr

namespace PanelRequest

/-- No user list means that it has not changed. -/
abbrev Answer : PanelRequest → Type
  | users => Except PanelError (Option (List User))
  | alive => Except PanelError AliveCounts
  | invalidate => Unit
  | traffic _ => Except PanelError Unit
  | online _ => Except PanelError Unit
  | status => Except PanelError Unit

end PanelRequest

/-- An answer, and how many milliseconds it takes. -/
structure Reply (α : Type) where
  answer : α
  delay : Nat := 0

/-- What reaches a panel at an address. -/
class Addressed (π : Type) where
  /-- The panel's address, as node tags show it. -/
  host : π → String

/-- Clients of type `π`, each of one node, that may remember earlier answers. -/
class PanelApi (π χ : Type) where
  ask : (q : PanelRequest) → Instant → π → Host χ → (π × Host χ) × Reply q.Answer

/-- Clients of type `σ` for the server's configuration. An unchanged one is answered by nothing. -/
class ServerApi (σ χ : Type) where
  fetch : Instant → σ → Host χ → (σ × Host χ) × Reply (Except PanelError (Option ServerReply))

end NodeAgent
