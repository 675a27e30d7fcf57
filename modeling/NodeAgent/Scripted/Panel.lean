import NodeAgent.Panel.Request

/-! A panel that gives the answers of its script in turn, and then says that nothing has changed. -/

namespace NodeAgent

structure ScriptedPanel where
  host : String
  users : List (Except PanelError (Option (List User))) := []
  alive : List (Except PanelError AliveCounts) := []
  /-- Names of requests that are refused; the script does not go on by them. -/
  failing : List String := []

namespace ScriptedPanel

def refusal : PanelError := .status "http://p" 500 "scripted"

def guarded {α : Type} (p : ScriptedPanel) (name : String)
    (answer : ScriptedPanel × Except PanelError α) : ScriptedPanel × Except PanelError α :=
  if p.failing.contains name then (p, .error refusal) else answer

def reply (p : ScriptedPanel) : (q : PanelRequest) → ScriptedPanel × q.Answer
  | .users => p.guarded "users" ({ p with users := p.users.tail }, p.users.headD (.ok none))
  | .alive => p.guarded "alive" ({ p with alive := p.alive.tail }, p.alive.headD (.ok ∅))
  | .invalidate => (p, ())
  | .traffic _ => p.guarded "push" (p, .ok ())
  | .online _ => p.guarded "online" (p, .ok ())
  | .status => p.guarded "status" (p, .ok ())

instance : Addressed ScriptedPanel := ⟨host⟩

instance {χ : Type} : PanelApi ScriptedPanel χ where
  ask q _ p h :=
    let (p, answer) := p.reply q
    ((p, h), { answer })

end ScriptedPanel

end NodeAgent
