import NodeAgent.FileTree
import NodeAgent.Text.Basic

/-! What can go wrong with certificates. -/

namespace NodeAgent

inductive CertError
  | unsupportedMode (mode : String)
  | io (path : String) (cause : OsError)
  | generate
  | parse
  | client (detail : String)
  | timeout (seconds : Nat)
  deriving DecidableEq, Repr

namespace CertError

def secondsText (n : Nat) : String := if n = 0 then "0ns" else toString n ++ "s"

def message : CertError → String
  | unsupportedMode mode => s!"不支持的证书模式: {mode}"
  | io path cause => "读写证书文件 " ++ path ++ " 失败: " ++ cause.message
  | generate => s!"生成自签名证书失败: {openDetail}"
  | parse => s!"解析证书失败: {openDetail}"
  | client detail => s!"ACME 客户端执行失败: {detail}"
  | timeout seconds => "ACME 请求超时 (" ++ secondsText seconds ++ ")"

def kind : CertError → String
  | unsupportedMode _ => "UnsupportedMode"
  | io .. => "Io"
  | generate => "Generate"
  | parse => "Parse"
  | client _ => "Client"
  | timeout _ => "Timeout"

/-- The error and what caused it; the cause of a file error is told twice. -/
def chain : CertError → List String
  | io path cause => [(io path cause).message, cause.message]
  | e => [e.message]

end CertError

end NodeAgent
