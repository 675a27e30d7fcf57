import NodeAgent.Endpoint
import NodeAgent.Kind
import NodeAgent.Panel.Error

/-! A node: one endpoint of a server, of a kind that can be served. Tags name nodes and users. -/

namespace NodeAgent

structure NodeInfo where
  id : Int
  kind : Kind
  pushInterval : Nat := 60
  pullInterval : Nat := 60
  /-- In KB; a user's traffic is reported once it exceeds this. -/
  reportThreshold : UInt64 := 0
  endpoint : Endpoint := {}
  deriving DecidableEq, Repr

namespace NodeInfo

def ofEndpoint (serverId : Int) (data : ServerData) (e : Endpoint) : Except PanelError NodeInfo :=
  match Kind.ofText? e.kindName with
  | none => .error (.unsupportedKind e.kindName)
  | some kind => .ok {
      id := serverId
      kind
      pushInterval := data.pushSeconds
      pullInterval := data.pullSeconds
      reportThreshold := UInt64.ofNat data.reportThreshold.toNat
      endpoint := e }

def requiresTls (n : NodeInfo) : Bool := n.kind.requiresTls n.endpoint.security

end NodeInfo

/-- The tag of a node: `[host]-kind:id`. -/
def nodeTag (host : String) (kind : Kind) (id : Int) : String :=
  "[" ++ host ++ "]-" ++ kind.name ++ ":" ++ toString id

/-- The tag of a user at a node: `node|uuid`. -/
def userTag (node uuid : String) : String := node ++ "|" ++ uuid

end NodeAgent
