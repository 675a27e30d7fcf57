import NodeAgent.Listener.Basic
import NodeAgent.Table

/-!
What serves the listeners. An engine takes listeners and users in and out by tag; doing the same
twice is as good as doing it once. `LocalEngine` is the engine inside the process: a registry in
which no two listeners share a port.
-/

namespace NodeAgent

inductive EngineError
  | listenerNotFound (tag : String)
  /-- The listener of the tag `tag` holds the port. -/
  | portInUse (port : UInt16) (tag : String)
  | closed
  deriving DecidableEq, Repr

def EngineError.kind : EngineError → String
  | listenerNotFound _ => "ListenerNotFound"
  | portInUse .. => "PortInUse"
  | closed => "Closed"

def EngineError.message : EngineError → String
  | listenerNotFound tag => s!"监听器不存在: {tag}"
  | portInUse port tag => s!"端口 {port} 已被监听器 {tag} 占用"
  | closed => "引擎已关闭"

/-- Each call gives the engine after it, also where it fails. -/
class Engine (ε : Type) where
  /-- A listener with a known tag replaces the old one and keeps its users. -/
  addListener : ε → Listener → ε × Except EngineError Unit
  removeListener : ε → String → ε × Except EngineError Unit
  /-- Gives the number of users that came in. -/
  addUsers : ε → String → List Binding → ε × Except EngineError Nat
  removeUsers : ε → String → List String → ε × Except EngineError Unit
  close : ε → ε × Except EngineError Unit

structure ListenerEntry where
  listener : Listener
  users : Table String Binding := ∅

structure LocalEngine where
  closed : Bool := false
  entries : Table String ListenerEntry := ∅

namespace LocalEngine

def listener? (e : LocalEngine) (tag : String) : Option Listener :=
  (e.entries.find? tag).map (·.listener)

def usersOf (e : LocalEngine) (tag : String) : Table String Binding :=
  ((e.entries.find? tag).map (·.users)).getD ∅

def authenticate (e : LocalEngine) (tag secret : String) : Option String :=
  ((e.usersOf tag).values.find? fun b => b.credential.secret == secret).map (·.userTag)

def portHolder? (e : LocalEngine) (l : Listener) : Option String :=
  (e.entries.entries.find? fun entry =>
    entry.2.listener.port == l.port && entry.1 != l.tag).map Prod.fst

def addListener (e : LocalEngine) (l : Listener) : LocalEngine × Except EngineError Unit :=
  if e.closed then (e, .error .closed)
  else
    match e.portHolder? l with
    | some tag => (e, .error (.portInUse l.port tag))
    | none => ({ e with entries := e.entries.insert l.tag ⟨l, e.usersOf l.tag⟩ }, .ok ())

def removeListener (e : LocalEngine) (tag : String) : LocalEngine × Except EngineError Unit :=
  if e.closed then (e, .error .closed) else ({ e with entries := e.entries.erase tag }, .ok ())

def updateUsers (e : LocalEngine) (tag : String) (f : Table String Binding → Table String Binding) :
    LocalEngine × Except EngineError Unit :=
  if e.closed then (e, .error .closed)
  else
    match e.entries.find? tag with
    | none => (e, .error (.listenerNotFound tag))
    | some entry =>
      ({ e with entries := e.entries.insert tag { entry with users := f entry.users } }, .ok ())

def addUsers (e : LocalEngine) (tag : String) (users : List Binding) :
    LocalEngine × Except EngineError Nat :=
  let (e, r) := e.updateUsers tag (·.insertMany (users.map fun b => (b.userTag, b)))
  (e, r.map fun _ => users.length)

def removeUsers (e : LocalEngine) (tag : String) (userTags : List String) :
    LocalEngine × Except EngineError Unit :=
  e.updateUsers tag (·.eraseMany userTags)

/-- A closed engine has no listeners and gets none. -/
def close (_ : LocalEngine) : LocalEngine × Except EngineError Unit := ({ closed := true }, .ok ())

end LocalEngine

instance : Engine LocalEngine where
  addListener := LocalEngine.addListener
  removeListener := LocalEngine.removeListener
  addUsers := LocalEngine.addUsers
  removeUsers := LocalEngine.removeUsers
  close := LocalEngine.close

end NodeAgent
