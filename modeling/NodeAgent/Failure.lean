import NodeAgent.Certificate.Error
import NodeAgent.Config
import NodeAgent.Engine
import NodeAgent.Kind
import NodeAgent.Listener.Build
import NodeAgent.Overflow
import NodeAgent.Panel.Error

/-!
Why an operation of the agent failed: a cause, and what was being done around it. A text that tells
a failure goes from the outside to the cause.
-/

namespace NodeAgent

/-- What was being done; tags are those of nodes. -/
inductive Activity
  | buildingListener (tag : String)
  | registeringListener (tag : String)
  | removingListener (tag : String)
  | buildingUsers (tag : String)
  | addingUsers (tag : String)
  | removingUsers (tag : String)
  | closingEngine
  | fetchingUsers (tag : String)
  | readingCertMode (tag : String)
  | obtainingCert (tag : String)
  | renewingCert (tag : String)
  | makingClient (kind : Kind)
  | startingNode (tag : String)
  | fetchingServer
  | readingConfig (path : String)
  | parsingConfig (path : String)
  deriving DecidableEq, Repr

def Activity.message : Activity → String
  | buildingListener tag => s!"构建监听器 {tag} 失败"
  | registeringListener tag => s!"注册监听器 {tag} 失败"
  | removingListener tag => s!"注销监听器 {tag} 失败"
  | buildingUsers tag => s!"构建节点 {tag} 的用户失败"
  | addingUsers tag => s!"向节点 {tag} 添加用户失败"
  | removingUsers tag => s!"从节点 {tag} 删除用户失败"
  | closingEngine => "关闭引擎失败"
  | fetchingUsers tag => s!"[{tag}] 获取用户列表失败"
  | readingCertMode tag => s!"[{tag}] 证书配置无效"
  | obtainingCert tag => s!"[{tag}] 获取证书失败"
  | renewingCert tag => s!"[{tag}] 证书续期失败"
  | makingClient kind => "创建 " ++ kind.name ++ " 节点的面板客户端失败"
  | startingNode tag => s!"启动节点 {tag} 失败"
  | fetchingServer => "拉取服务端配置失败"
  | readingConfig path => s!"无法读取配置文件: {path}"
  | parsingConfig path => s!"解析配置文件失败: {path}"

inductive Cause
  | panel (e : PanelError)
  | build (e : BuildError)
  | engine (e : EngineError)
  | cert (e : CertError)
  | config (e : ConfigError)
  | file (e : OsError)
  | noUsers (tag : String)
  | noServerReply
  | noServerData
  /-- A client could not be made, for the reason given. -/
  | refused (reason : String)
  /-- The tags of the nodes that did not close, each with what went wrong. -/
  | nodesNotClosed (failures : List (String × String))
  deriving DecidableEq, Repr

namespace Cause

/-- Causes that no part of the agent tells apart are of no kind. -/
def kind? : Cause → Option String
  | panel e => some e.kind
  | build e => some e.kind
  | engine e => some e.kind
  | cert e => some e.kind
  | config e => e.kind?
  | file _ => some "Io"
  | _ => none

/-- The cause and what lies behind it. -/
def chain : Cause → List String
  | panel e => [e.message]
  | build e => [e.message]
  | engine e => [e.message]
  | cert e => e.chain
  | config e => [e.message]
  | file e => [e.message]
  | noUsers tag => [s!"[{tag}] 面板未返回任何用户"]
  | noServerReply => ["面板未返回服务端配置"]
  | noServerData => ["服务端配置缺少 data 字段"]
  | refused reason => [reason]
  | nodesNotClosed failures =>
    [s!"{failures.length} 个节点关闭失败: " ++
      "; ".intercalate (failures.map fun f => f.1 ++ ": " ++ f.2)]

end Cause

/-- The outermost activity comes first. -/
structure Failure where
  activities : List Activity := []
  cause : Cause
  deriving DecidableEq, Repr

namespace Failure

def message (f : Failure) : String :=
  ": ".intercalate (f.activities.map Activity.message ++ f.cause.chain)

def during (f : Failure) (a : Activity) : Failure := { f with activities := a :: f.activities }

end Failure

/-- Why an operation stops: a failure that is handled, or arithmetic out of range, which is not. -/
inductive Fault
  | failure (f : Failure)
  | overflow (o : Overflow)
  deriving DecidableEq, Repr

end NodeAgent
