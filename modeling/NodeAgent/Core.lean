import NodeAgent.Config
import NodeAgent.Failure
import NodeAgent.Journal
import NodeAgent.Limit.Limiter
import NodeAgent.Traffic

/-!
The core of an instance: the engine, and what is known about the users it serves. Nodes change
listeners and users through the core alone, which keeps a journal of what was asked of the engine
and of the panels.
-/

namespace NodeAgent

structure Core (ε : Type) where
  engine : ε
  limit : LimitDefaults := {}
  cert : CertSettings := {}
  traffic : TrafficRegistry := ∅
  /-- User ids, by user tag. -/
  uids : Table String Int := ∅
  limiters : LimiterRegistry := ∅
  now : Instant := 0
  journal : List JournalEntry := []

namespace Core

variable {ε α : Type}

def note (c : Core ε) (call : Call) : Core ε :=
  { c with journal := c.journal ++ [⟨c.now, call⟩] }

def callEngine (c : Core ε) (a : Activity) (call : EngineCall)
    (act : ε → ε × Except EngineError α) : Core ε × Except Failure α :=
  let (engine, r) := act c.engine
  ({ c with engine }.note (.engine call r.toBool), r.mapError fun e => ⟨[a], .engine e⟩)

variable [Engine ε]

def addNode (c : Core ε) (tag : String) (info : NodeInfo) : Core ε × Except Failure Unit :=
  match Listener.build info tag c.cert.dir with
  | .error e => (c, .error ⟨[.buildingListener tag], .build e⟩)
  | .ok l =>
    c.callEngine (.registeringListener tag) (.addListener tag l.port) (Engine.addListener · l)

def isUserOf (tag user : String) : Bool := (userTag tag "").toList.isPrefixOf user.toList

/-- Removes the listener of a node, with its counters and the ids of its users. -/
def delNode (c : Core ε) (tag : String) : Core ε × Except Failure Unit :=
  match c.callEngine (.removingListener tag) (.removeListener tag)
      (Engine.removeListener · tag) with
  | (c, .error f) => (c, .error f)
  | (c, .ok ()) =>
    ({ c with
        traffic := c.traffic.erase tag
        uids := c.uids.filter fun user _ => !isUserOf tag user }, .ok ())

/-- Gives the number of users that came in. Their ids are known even if the engine refuses them. -/
def addUsers (c : Core ε) (tag : String) (info : NodeInfo) (users : List User) :
    Core ε × Except Failure Nat :=
  match Binding.ofUsers info tag users with
  | .error e => (c, .error ⟨[.buildingUsers tag], .build e⟩)
  | .ok bindings =>
    let ids := bindings.map fun b => (b.userTag, b.uid)
    let c := { c with uids := c.uids.insertMany ids }
    c.callEngine (.addingUsers tag) (.addUsers tag (ids.map Prod.snd))
      (Engine.addUsers · tag bindings)

/-- Traffic of theirs that was not reported is lost. -/
def delUsers (c : Core ε) (tag : String) (users : List User) : Core ε × Except Failure Unit :=
  let userTags := users.map fun u => userTag tag u.uuid
  match c.callEngine (.removingUsers tag) (.removeUsers tag userTags)
      (Engine.removeUsers · tag userTags) with
  | (c, .error f) => (c, .error f)
  | (c, .ok ()) =>
    ({ c with
        uids := c.uids.eraseMany userTags
        traffic := c.traffic.modify tag (·.eraseMany userTags) }, .ok ())

def close (c : Core ε) : Core ε × Except Failure Unit :=
  c.callEngine .closingEngine .close Engine.close

omit [Engine ε] in
/-- Gives the node a limiter, in place of the one it has. -/
def addLimiter (c : Core ε) (tag : String) (users : List User) (alive : AliveCounts) :
    Core ε × Except Overflow Unit :=
  match Limiter.ofUsers tag c.limit users alive c.now with
  | .error o => (c, .error o)
  | .ok l => ({ c with limiters := c.limiters.insert tag l }, .ok ())

omit [Engine ε] in
def deleteLimiter (c : Core ε) (tag : String) : Core ε :=
  { c with limiters := c.limiters.erase tag }

omit [Engine ε] in
def setAlive (c : Core ε) (tag : String) (alive : AliveCounts) : Core ε :=
  { c with limiters := c.limiters.modify tag (·.setAlive alive) }

omit [Engine ε] in
def updateLimiter (c : Core ε) (tag : String) (d : UserDiff) : Core ε × Except Overflow Unit :=
  match c.limiters.find? tag with
  | none => (c, .ok ())
  | some l =>
    match l.update d.added d.deleted c.now with
    | .error o => (c, .error o)
    | .ok l => ({ c with limiters := c.limiters.insert tag l }, .ok ())

omit [Engine ε] in
def onlineDevices (c : Core ε) (tag : String) : Core ε × List OnlineDevice :=
  match c.limiters.find? tag with
  | none => (c, [])
  | some l =>
    let (l, devices) := l.onlineDevices c.now
    ({ c with limiters := c.limiters.insert tag l }, devices)

omit [Engine ε] in
def account (c : Core ε) (tag user : String) (upload download : UInt64) : Core ε :=
  { c with traffic := c.traffic.account tag user upload download }

def bytesPerKilobyte : UInt64 := 1000

omit [Engine ε] in
/--
Takes the traffic of the node's users who have more than `threshold` KB. A counter above it whose
user has no id is dropped.
-/
def trafficSlice (c : Core ε) (tag : String) (threshold : UInt64) :
    Core ε × Except Overflow (List UserTraffic) :=
  match c.traffic.find? tag with
  | none => (c, .ok [])
  | some counter =>
    match counter.drainOver (Overflow.saturatingMul64 threshold bytesPerKilobyte) with
    | (counter, .error o) => ({ c with traffic := c.traffic.insert tag counter }, .error o)
    | (counter, .ok taken) =>
      let orphans := (taken.filter fun e => !c.uids.contains e.1).map Prod.fst
      ({ c with traffic := c.traffic.insert tag (counter.eraseMany orphans) },
        .ok (taken.filterMap fun e =>
          (c.uids.find? e.1).map fun uid => ⟨uid, e.2.upload, e.2.download⟩))

end Core

end NodeAgent
