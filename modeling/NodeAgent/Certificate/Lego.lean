import NodeAgent.Certificate.Manager
import NodeAgent.Config
import NodeAgent.NodeInfo

/-!
The client program `lego`. It keeps accounts and certificates in a directory of its own, from where
the pair is read after each run.
-/

namespace NodeAgent

/-- How the authority checks that the domain is ours. -/
inductive Challenge
  | http
  | dns (provider : String) (env : List (String × String))
  deriving DecidableEq, Repr

namespace Challenge

def ofMode? : CertMode → Option Challenge
  | .http => some http
  | .dns provider env => some (dns provider env)
  | _ => none

def arguments : Challenge → List String
  | http => ["--http", "--http.port", ":80"]
  | dns provider _ => ["--dns", provider]

def environment : Challenge → List (String × String)
  | http => []
  | dns _ env => env

end Challenge

structure Lego where
  program : String
  directory : String
  email : String
  challenge : Challenge
  /-- In seconds. -/
  timeout : Nat
  deriving DecidableEq, Repr

namespace Lego

variable {χ : Type}

def ofSettings (s : CertSettings) (challenge : Challenge) : Lego where
  program := s.legoPath
  directory := joinPath s.dir "acme"
  email := s.email
  challenge
  timeout := s.timeout

def command (l : Lego) (domain : String) (action : List String) : Command where
  program := l.program
  arguments := ["--accept-tos", "--email", l.email, "--path", l.directory, "--domains", domain] ++
    l.challenge.arguments ++ action
  environment := l.challenge.environment
  timeout := l.timeout

def outputPaths (l : Lego) (domain : String) : CertPaths :=
  let base := joinPath (joinPath l.directory "certificates") domain
  ⟨base ++ ".crt", base ++ ".key"⟩

def readFile (files : FileTree) (path : String) : Except CertError String :=
  (files.read path).mapError (.io path)

def readPair (l : Lego) (domain : String) (files : FileTree) : Except CertError CertPair := do
  let paths := l.outputPaths domain
  let cert ← readFile files paths.cert
  let key ← readFile files paths.key
  return ⟨cert, key⟩

variable [Shell χ]

def run (l : Lego) (domain : String) (action : List String) (h : Host χ) :
    Host χ × Except CertError CertPair :=
  let (h, e) := h.execute (l.command domain action)
  (h, match e with
    | .notStarted cause => .error (.client ("无法启动 " ++ l.program ++ ": " ++ cause.message))
    | .timedOut => .error (.timeout l.timeout)
    | .ended false errors => .error (.client (Text.trimmed errors))
    | .ended true _ => l.readPair domain h.files)

/-- The program knows the certificate that is there. -/
instance : CertClient Lego χ where
  obtain l domain := l.run domain ["run"]
  renew l domain _ := l.run domain ["renew", "--days", toString Certificate.renewBeforeDays]

end Lego

def CertManager.ofNode (n : NodeInfo) (s : CertSettings) : Except CertError (CertManager Lego) := do
  let mode ← CertMode.ofEndpoint n.endpoint
  return {
    mode
    domain := n.endpoint.sni
    paths := certPaths s.dir n.kind n.id
    client := (Challenge.ofMode? mode).map (Lego.ofSettings s) }

end NodeAgent
