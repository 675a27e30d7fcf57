import NodeAgent.Engine

/-! An engine of which some calls fail, and then do not reach the registry. -/

namespace NodeAgent

structure FaultyEngine where
  engine : LocalEngine := {}
  failing : List String := []

namespace FaultyEngine

def guarded {α : Type} (e : FaultyEngine) (name : String)
    (act : LocalEngine → LocalEngine × Except EngineError α) :
    FaultyEngine × Except EngineError α :=
  if e.failing.contains name then (e, .error .closed)
  else
    let (engine, r) := act e.engine
    ({ e with engine }, r)

instance : Engine FaultyEngine where
  addListener e l := e.guarded "add_listener" (Engine.addListener · l)
  removeListener e tag := e.guarded "remove_listener" (Engine.removeListener · tag)
  addUsers e tag users := e.guarded "add_users" (Engine.addUsers · tag users)
  removeUsers e tag users := e.guarded "remove_users" (Engine.removeUsers · tag users)
  close e := e.guarded "close" Engine.close

end FaultyEngine

end NodeAgent
