import NodeAgent.Session

/-! The nodes of one server: one for each enabled endpoint of a kind that can be served. -/

namespace NodeAgent

/-- What a node is made of besides its core; `π` is the type of its panel client. -/
structure Node (π : Type) where
  client : π
  session : Session
  cert : Option (CertManager Lego) := none
  /-- Numbers of the node's tasks in the timetable. -/
  tasks : List Nat := []

structure Fleet (π : Type) where
  nodes : List (Node π)
  total : Nat
  disabled : Nat

def Node.new {π : Type} [Addressed π] (client : π) (info : NodeInfo) : Node π where
  client
  session := { tag := nodeTag (Addressed.host client) info.kind info.id, info }

namespace Fleet

variable {π : Type} [Addressed π]

/-- An endpoint of an unknown kind is skipped. -/
def infos (serverId : Int) (data : ServerData) : List NodeInfo :=
  ((data.endpoints.getD []).filter (·.enable)).filterMap fun e =>
    (NodeInfo.ofEndpoint serverId data e).toOption

/-- `make` gives the client of the node of that number, and may refuse. -/
def ofServer (serverId : Int) (data : ServerData) (make : Nat → NodeInfo → Except Cause π) :
    Except Failure (Fleet π) := do
  let nodes ← (infos serverId data).zipIdx.mapM fun (info, n) =>
    match make n info with
    | .ok client => Except.ok (Node.new client info)
    | .error cause => .error ⟨[.makingClient info.kind], cause⟩
  let endpoints := data.endpoints.getD []
  return { nodes, total := endpoints.length, disabled := endpoints.countP (!·.enable) }

end Fleet

end NodeAgent
