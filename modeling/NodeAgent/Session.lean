import NodeAgent.Certificate.Lego
import NodeAgent.Core

/-!
What a node does with its panel's answers. At its start it takes in the panel's users; a sync brings
engine and limits to a later list; a report tells the panel about traffic, devices and the host.
All are runs that stop at each request and go on with its answer, so that anything may happen to the
core in between.
-/

namespace NodeAgent

structure Session where
  tag : String
  info : NodeInfo
  /-- The list to which the engine was brought last. -/
  users : List User := []

inductive Stage
  | firstUsers
  | firstAlive (users : List User)
  | alive
  | users
  /-- Of a sync that has failed so. -/
  | invalidate (f : Failure)
  | traffic (l : List UserTraffic)
  | online (l : List OnlineDevice)
  | status
  deriving DecidableEq, Repr

namespace Stage

abbrev request : Stage → PanelRequest
  | firstUsers => .users
  | firstAlive _ => .alive
  | alive => .alive
  | users => .users
  | invalidate _ => .invalidate
  | traffic l => .traffic l
  | online l => .online l
  | status => .status

/-- How many more requests the run can make, this one included. -/
def rank : Stage → Nat
  | firstUsers => 2
  | firstAlive _ => 1
  | alive => 3
  | users => 2
  | invalidate _ => 1
  | traffic _ => 3
  | online _ => 2
  | status => 1

end Stage

inductive Progress
  | ask (s : Stage)
  /-- A node that starts has its users and their limits; what is left needs no panel. -/
  | enroll (users : List User)
  | finished (r : Except Fault Unit)

def Progress.rank : Progress → Nat
  | ask s => s.rank
  | enroll _ => 0
  | finished _ => 0

structure Advance (ε : Type) where
  session : Session
  core : Core ε
  progress : Progress

namespace Session

variable {ε χ : Type}

/-- What counts for alive devices; none if the panel does not tell. -/
def aliveOr : Except PanelError AliveCounts → AliveCounts
  | .ok alive => alive
  | .error _ => ∅

def fetchFailure (s : Session) (e : PanelError) : Failure := ⟨[.fetchingUsers s.tag], .panel e⟩

section Start

/-- A node starts with a list of at least one user. -/
def afterFirstUsers (s : Session) (c : Core ε) :
    Except PanelError (Option (List User)) → Advance ε
  | .error e => ⟨s, c, .finished (.error (.failure (s.fetchFailure e)))⟩
  | .ok users =>
    match users.getD [] with
    | [] => ⟨s, c, .finished (.error (.failure ⟨[], .noUsers s.tag⟩))⟩
    | u :: r => ⟨s, c, .ask (.firstAlive (u :: r))⟩

def afterFirstAlive (s : Session) (c : Core ε) (users : List User)
    (a : Except PanelError AliveCounts) : Advance ε :=
  match c.addLimiter s.tag users (aliveOr a) with
  | (c, .error o) => ⟨s, c, .finished (.error (.overflow o))⟩
  | (c, .ok ()) => ⟨s, c, .enroll users⟩

end Start

section Report

def stepsAfterTraffic (s : Session) (c : Core ε) (l : List UserTraffic) : Advance ε :=
  let idle := (l.filter fun t => t.total.toOption == some 0).map (·.uid)
  match c.onlineDevices s.tag with
  | (c, []) => ⟨s, c, .ask .status⟩
  | (c, devices) => ⟨s, c, .ask (.online (devices.filter fun d => !idle.contains d.uid))⟩

/-- Takes the traffic that is to be reported. Without any, devices are next. -/
def beginReport (s : Session) (c : Core ε) : Advance ε :=
  match c.trafficSlice s.tag s.info.reportThreshold with
  | (c, .error o) => ⟨s, c, .finished (.error (.overflow o))⟩
  | (c, .ok []) => s.stepsAfterTraffic c []
  | (c, .ok l) => ⟨s, c, .ask (.traffic l)⟩

end Report

variable [Engine ε]

/-- In the engine users go out before others come in; the limits follow at once for both. -/
def applyDiff (s : Session) (c : Core ε) (d : UserDiff) : Core ε × Except Fault Unit :=
  match (if d.deleted.isEmpty then (c, .ok ()) else c.delUsers s.tag d.deleted) with
  | (c, .error f) => (c, .error (.failure f))
  | (c, .ok ()) =>
    match (if d.added.isEmpty then (c, .ok 0) else c.addUsers s.tag s.info d.added) with
    | (c, .error f) => (c, .error (.failure f))
    | (c, .ok _) =>
      let (c, r) := c.updateLimiter s.tag d
      (c, r.mapError .overflow)

/--
The list stays as it was if it cannot be applied, and the whole list is asked for the next time. A
transient error is no failure.
-/
def afterUsers (s : Session) (c : Core ε) : Except PanelError (Option (List User)) → Advance ε
  | .ok none => ⟨s, c, .finished (.ok ())⟩
  | .ok (some users) =>
    let d := UserDiff.between s.users users
    match (if d.isEmpty then (c, .ok ()) else s.applyDiff c d) with
    | (c, .ok ()) => ⟨{ s with users }, c, .finished (.ok ())⟩
    | (c, .error (.failure f)) => ⟨s, c, .ask (.invalidate f)⟩
    | (c, .error (.overflow o)) => ⟨s, c, .finished (.error (.overflow o))⟩
  | .error e =>
    ⟨s, c, .finished (if e.isTransient then .ok () else .error (.failure (s.fetchFailure e)))⟩

/-- Goes on with the answer. Whether a report arrived makes no difference to what follows it. -/
def resume (s : Session) (c : Core ε) : (stage : Stage) → stage.request.Answer → Advance ε
  | .firstUsers, a => s.afterFirstUsers c a
  | .firstAlive users, a => s.afterFirstAlive c users a
  | .alive, a => ⟨s, c.setAlive s.tag (aliveOr a), .ask .users⟩
  | .users, a => s.afterUsers c a
  | .invalidate f, _ => ⟨s, c, .finished (.error (.failure f))⟩
  | .traffic l, _ => s.stepsAfterTraffic c l
  | .online _, _ => ⟨s, c, .ask .status⟩
  | .status, _ => ⟨s, c, .finished (.ok ())⟩

theorem rank_resume_lt (s : Session) (c : Core ε) (stage : Stage) (a : stage.request.Answer) :
    (s.resume c stage a).progress.rank < stage.rank := by
  cases stage with
  | firstUsers =>
    simp only [resume, afterFirstUsers]
    split
    · simp [Progress.rank, Stage.rank]
    · split <;> simp [Progress.rank, Stage.rank]
  | firstAlive =>
    simp only [resume, afterFirstAlive]
    split <;> simp [Progress.rank, Stage.rank]
  | alive => simp [resume, Progress.rank, Stage.rank]
  | users =>
    simp only [resume, afterUsers]
    split
    · simp [Progress.rank, Stage.rank]
    · split <;> simp [Progress.rank, Stage.rank]
    · simp [Progress.rank, Stage.rank]
  | invalidate => simp [resume, Progress.rank, Stage.rank]
  | traffic =>
    simp only [resume, stepsAfterTraffic]
    split <;> simp [Progress.rank, Stage.rank]
  | online => simp [resume, Progress.rank, Stage.rank]
  | status => simp [resume, Progress.rank, Stage.rank]

def certManager (s : Session) (settings : CertSettings) :
    Except Failure (Option (CertManager Lego)) :=
  if s.info.requiresTls then
    match CertManager.ofNode s.info settings with
    | .ok m => .ok (some m)
    | .error e => .error ⟨[.readingCertMode s.tag], .cert e⟩
  else .ok none

/-- Sees to the certificate, and gives the manager that has to look after it. -/
def ensureCert [Shell χ] (s : Session) (settings : CertSettings) (h : Host χ) :
    Host χ × Except Failure (Option (CertManager Lego)) :=
  match s.certManager settings with
  | .error f => (h, .error f)
  | .ok none => (h, .ok none)
  | .ok (some m) =>
    match m.ensure h with
    | (h, .ok ()) => (h, .ok (some m))
    | (h, .error e) => (h, .error ⟨[.obtainingCert s.tag], .cert e⟩)

/-- The listener, then its users; a listener whose users cannot come in is taken out again. -/
def registerUsers (s : Session) (c : Core ε) (users : List User) : Core ε × Except Failure Unit :=
  match c.addNode s.tag s.info with
  | (c, .error f) => (c, .error f)
  | (c, .ok ()) =>
    match c.addUsers s.tag s.info users with
    | (c, .ok _) => (c, .ok ())
    | (c, .error f) => ((c.delNode s.tag).1, .error f)

def close (s : Session) (c : Core ε) : Core ε × Except Failure Unit :=
  (c.deleteLimiter s.tag).delNode s.tag

end Session

end NodeAgent
