import NodeAgent.Config
import NodeAgent.Limit.Bucket
import NodeAgent.NodeInfo
import NodeAgent.User

/-!
The limits of one node's users: the bandwidth that each may use, and the number of devices that
each may have online at once. A device is an address; one that was not seen for five minutes is
offline. The registry keeps the limiters of all nodes.
-/

namespace NodeAgent

def onlineSpan : Nat := 300000

/-- The stricter of two limits; zero stands for none. -/
def resolveLimit {α : Type} [DecidableEq α] [OfNat α 0] [Min α] (a b : α) : α :=
  if a = 0 then b else if b = 0 then a else min a b

def bytesPerSecond (mbps : UInt64) : Except Overflow UInt64 :=
  (Overflow.mul64 mbps 1000000).map (· / 8)

structure UserLimit where
  uid : Int
  /-- Zero is no limit. -/
  deviceLimit : UInt32
  bucket : Option (Bucket Instant Float)

inductive LimitError
  | unknownUser (userTag : String)
  | deviceLimit (uid : Int) (limit : UInt32)
  deriving DecidableEq, Repr

def LimitError.kind : LimitError → String
  | unknownUser _ => "UnknownUser"
  | deviceLimit .. => "DeviceLimit"

def LimitError.message : LimitError → String
  | unknownUser tag => s!"未知用户: {tag}"
  | deviceLimit uid limit => s!"用户 #{uid} 超过设备数限制 {limit}"

/-- The addresses of a user, each with the instant at which it was seen last. -/
abbrev Sightings := Table String Instant

def Sightings.recent (s : Sightings) (now : Instant) : Sightings :=
  s.filter fun _ seen => now - seen < onlineSpan

structure Limiter where
  tag : String
  defaults : LimitDefaults
  /-- By user tag, as `online` is. -/
  users : Table String UserLimit := ∅
  online : Table String Sightings := ∅
  alive : AliveCounts := ∅

namespace Limiter

def userLimit (l : Limiter) (u : User) (now : Instant) : Except Overflow UserLimit := do
  let speed := resolveLimit l.defaults.speedLimit u.speedLimit
  let bucket ← if speed = 0 then .ok none
    else (bytesPerSecond speed).map fun rate => some (Bucket.new rate now)
  return { uid := u.id, deviceLimit := resolveLimit l.defaults.deviceLimit u.deviceLimit, bucket }

/-- Users out, then users in; nothing changes if a rate of the new ones is out of range. -/
def update (l : Limiter) (added deleted : List User) (now : Instant) : Except Overflow Limiter := do
  let limits ← added.mapM fun u => (l.userLimit u now).map (userTag l.tag u.uuid, ·)
  let gone := deleted.map fun u => userTag l.tag u.uuid
  return { l with
    users := (l.users.eraseMany gone).insertMany limits
    online := l.online.eraseMany gone }

def setAlive (l : Limiter) (alive : AliveCounts) : Limiter := { l with alive }

/-- How many devices a user of id `uid` has here and elsewhere. -/
def deviceCount (l : Limiter) (uid : Int) (here : Sightings) : Except Overflow UInt32 :=
  Overflow.add32 (l.alive.count uid) (UInt32.ofNat here.size)

inductive Verdict
  /-- Let in, under the user's bucket if there is one. -/
  | admitted (bucket : Option (Bucket Instant Float))
  | refused (e : LimitError)
  | overflow (o : Overflow)

/-- A device asks to come online at `now`. A known address always may. -/
def check (l : Limiter) (user ip : String) (now : Instant) : Limiter × Verdict :=
  match l.users.find? user with
  | none => (l, .refused (.unknownUser user))
  | some limit =>
    let here := ((l.online.find? user).getD ∅).recent now
    let seen := { l with online := l.online.insert user here }
    let enter := ({ l with online := l.online.insert user (here.insert ip now) },
      Verdict.admitted limit.bucket)
    if limit.deviceLimit = 0 ∨ here.contains ip then enter
    else
      match l.deviceCount limit.uid here with
      | .error o => (seen, .overflow o)
      | .ok n =>
        if limit.deviceLimit ≤ n then (seen, .refused (.deviceLimit limit.uid limit.deviceLimit))
        else enter

/-- The users whose recent addresses are known, with those addresses. -/
def pruned (l : Limiter) (now : Instant) : Table String Sightings :=
  (l.online.map fun _ s => s.recent now).filter fun user s => l.users.contains user && !s.isEmpty

def devicesOf (l : Limiter) (user : String) (s : Sightings) : List OnlineDevice :=
  match l.users.find? user with
  | none => []
  | some limit => s.keys.map fun ip => ⟨limit.uid, ip⟩

def onlineDevices (l : Limiter) (now : Instant) : Limiter × List OnlineDevice :=
  let online := l.pruned now
  let devices := online.entries.flatMap fun e => l.devicesOf e.1 e.2
  ({ l with online }, devices.mergeSort OnlineDevice.le)

/-- The bucket of a user, after some of it was consumed. -/
def setBucket (l : Limiter) (user : String) (b : Bucket Instant Float) : Limiter :=
  { l with users := l.users.modify user fun limit => { limit with bucket := some b } }

def ofUsers (tag : String) (defaults : LimitDefaults) (users : List User) (alive : AliveCounts)
    (now : Instant) : Except Overflow Limiter :=
  (update { tag, defaults } users [] now).map (·.setAlive alive)

end Limiter

abbrev LimiterRegistry := Table String Limiter

end NodeAgent
