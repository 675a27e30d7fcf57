import NodeAgent.Json.Reader
import NodeAgent.Json.Record
import NodeAgent.Overflow
import NodeAgent.Table

/-! Users of a node, what is counted about them, and the difference between two user lists. -/

namespace NodeAgent

structure User where
  id : Int
  uuid : String
  /-- In Mbps; zero is no limit. -/
  speedLimit : UInt64 := 0
  /-- Zero is no limit. -/
  deviceLimit : UInt32 := 0
  deriving DecidableEq, Repr

structure UserTraffic where
  uid : Int
  upload : UInt64
  download : UInt64
  deriving DecidableEq, Repr

structure OnlineDevice where
  uid : Int
  ip : String
  deriving DecidableEq, Repr

/-- Devices that other nodes count, by user id. -/
abbrev AliveCounts := Table Int UInt32

namespace User

/-- A user whose speed limit changes counts as another user. -/
def key (u : User) : String × UInt64 := (u.uuid, u.speedLimit)

def ofJson (j : Json) : Option User := do
  let f ← j.asFields ["id", "uuid", "speed_limit", "device_limit"]
  return {
    id := ← f.required 0 Json.asInt64
    uuid := ← f.required 1 Json.asText
    speedLimit := ← f.withDefault 2 0 Json.asWord64
    deviceLimit := ← f.withDefault 3 0 Json.asWord32 }

/-- A list that is absent or `null` is no list, which is not the same as an empty one. -/
def listOfJson (j : Json) : Option (Option (List User)) := do
  let f ← j.asFields ["users"]
  f.withDefault 0 none (Json.asOptional (Json.asList ofJson))

end User

namespace AliveCounts

def count (alive : AliveCounts) (uid : Int) : UInt32 := (alive.find? uid).getD 0

/-- The ids are whole numbers written inside a string, without escapes. -/
def ofJson (j : Json) : Option AliveCounts := do
  let f ← j.asFields ["alive"]
  f.withDefault 0 ∅ fun
    | .record members => do
      let counts ← members.mapM fun m => do
        let uid ← (← Json.numberOfText? m.1).asInt64
        let n ← m.2.asWord32
        return (uid, n)
      return Table.ofList counts
    | _ => none

end AliveCounts

namespace UserTraffic

def total (t : UserTraffic) : Except Overflow UInt64 := Overflow.add64 t.upload t.download

def ofJson (j : Json) : Option UserTraffic := do
  let f ← j.asFields ["uid", "upload", "download"]
  return {
    uid := ← f.required 0 Json.asInt64
    upload := ← f.required 1 Json.asWord64
    download := ← f.required 2 Json.asWord64 }

def toJson (t : UserTraffic) : Json :=
  .object [("uid", .ofInt t.uid), ("upload", .ofNat t.upload.toNat),
    ("download", .ofNat t.download.toNat)]

end UserTraffic

namespace OnlineDevice

def ofJson (j : Json) : Option OnlineDevice := do
  let f ← j.asFields ["uid", "ip"]
  return { uid := ← f.required 0 Json.asInt64, ip := ← f.required 1 Json.asText }

def toJson (d : OnlineDevice) : Json := .object [("uid", .ofInt d.uid), ("ip", .ofText d.ip)]

/-- By user id, then by address. -/
def le (a b : OnlineDevice) : Bool := a.uid < b.uid || (a.uid == b.uid && a.ip ≤ b.ip)

end OnlineDevice

/-- What leads from one user list to another: whom to remove, then whom to add. -/
structure UserDiff where
  deleted : List User
  added : List User
  deriving DecidableEq, Repr

namespace UserDiff

/-- Both parts keep the order of their list. -/
def between (old new : List User) : UserDiff where
  deleted := old.filter fun u => !(new.map User.key).contains u.key
  added := new.filter fun u => !(old.map User.key).contains u.key

def isEmpty (d : UserDiff) : Bool := d.deleted.isEmpty && d.added.isEmpty

end UserDiff

end NodeAgent
