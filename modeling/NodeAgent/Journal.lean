import NodeAgent.Json.Basic
import NodeAgent.Panel.Request

/-! What was asked of the engine and of the panels, and when. -/

namespace NodeAgent

inductive EngineCall
  | addListener (tag : String) (port : UInt16)
  | removeListener (tag : String)
  | addUsers (tag : String) (uids : List Int)
  | removeUsers (tag : String) (userTags : List String)
  | close
  deriving DecidableEq, Repr

inductive Call
  | engine (call : EngineCall) (succeeded : Bool)
  /-- By the node of that number. -/
  | panel (node : Nat) (request : PanelRequest)
  deriving DecidableEq, Repr

structure JournalEntry where
  instant : Instant
  call : Call
  deriving DecidableEq, Repr

namespace UserTraffic

/-- By user id, then by bytes up and bytes down. -/
def le (a b : UserTraffic) : Bool :=
  a.uid < b.uid || (a.uid == b.uid && (a.upload < b.upload ||
    (a.upload == b.upload && a.download ≤ b.download)))

def triples (l : List UserTraffic) : Json :=
  .list ((l.mergeSort le).map fun t =>
    .list [.ofInt t.uid, .ofNat t.upload.toNat, .ofNat t.download.toNat])

end UserTraffic

section Encode

open Json

def EngineCall.members : EngineCall → List (String × Json)
  | .addListener tag port =>
    [("call", ofText "add_listener"), ("tag", ofText tag), ("port", ofNat port.toNat)]
  | .removeListener tag => [("call", ofText "remove_listener"), ("tag", ofText tag)]
  | .addUsers tag uids =>
    [("call", ofText "add_users"), ("tag", ofText tag), ("uids", .list (uids.map ofInt))]
  | .removeUsers tag users =>
    [("call", ofText "remove_users"), ("tag", ofText tag), ("users", .list (users.map ofText))]
  | .close => [("call", ofText "close")]

def PanelRequest.name : PanelRequest → String
  | .users => "users"
  | .alive => "alive"
  | .invalidate => "invalidate"
  | .traffic _ => "push"
  | .online _ => "online"
  | .status => "status"

def PanelRequest.members (q : PanelRequest) : List (String × Json) :=
  ("call", ofText q.name) :: match q with
    | .traffic l => [("traffic", UserTraffic.triples l)]
    | .online l => [("users", .list (l.map fun d => .list [ofInt d.uid, ofText d.ip]))]
    | _ => []

def JournalEntry.toJson (e : JournalEntry) : Json :=
  object (("t", ofNat e.instant) :: match e.call with
    | .engine call ok => ("ok", .bool ok) :: call.members
    | .panel node request => ("panel", ofNat node) :: request.members)

end Encode

end NodeAgent
