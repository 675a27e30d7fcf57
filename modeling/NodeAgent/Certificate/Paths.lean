import NodeAgent.Kind

/-! Where the certificates of nodes lie. -/

namespace NodeAgent

/-- A path below a directory; the empty directory is the current one. An absolute path is kept. -/
def joinPath (dir name : String) : String :=
  if dir = "" ∨ name.toList.head? = some '/' then name
  else if dir.toList.getLast? = some '/' then dir ++ name
  else dir ++ "/" ++ name

structure CertPaths where
  cert : String
  key : String
  deriving DecidableEq, Repr

/-- Each node has a pair of files of its own: `kind` and `id` with the ending `.cer` or `.key`. -/
def certPaths (dir : String) (kind : Kind) (id : Int) : CertPaths where
  cert := joinPath dir (kind.name ++ toString id ++ ".cer")
  key := joinPath dir (kind.name ++ toString id ++ ".key")

end NodeAgent
