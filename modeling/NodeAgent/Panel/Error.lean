/-! What can go wrong between a node and its panel. -/

namespace NodeAgent

inductive PanelError
  /-- No complete answer came back. -/
  | transport (url message : String)
  | status (url : String) (code : UInt16) (body : String)
  | decode (url message : String)
  | unsupportedKind (text : String)
  deriving DecidableEq, Repr

namespace PanelError

def message : PanelError → String
  | transport url text => s!"访问 {url} 失败: {text}"
  | status url code body => s!"访问 {url} 失败: HTTP {code}: {body}"
  | decode url text => s!"解码 {url} 响应失败: {text}"
  | unsupportedKind text => s!"不支持的节点类型: {text}"

def kind : PanelError → String
  | transport .. => "Transport"
  | status .. => "Status"
  | decode .. => "Decode"
  | unsupportedKind _ => "UnsupportedProtocol"

/-- The next cycle may succeed without any change on this side. -/
def isTransient : PanelError → Bool
  | transport .. => true
  | status _ code _ => 500 ≤ code
  | _ => false

end PanelError

end NodeAgent
