import NodeAgent.Certificate.Expiry
import NodeAgent.Certificate.Mode
import NodeAgent.Certificate.Paths
import NodeAgent.Host

/-!
The certificate files of a node. They are made or requested when one of them is missing, and
requested again when an authority's certificate is about to expire.
-/

namespace NodeAgent

class CertClient (γ χ : Type) where
  obtain : γ → String → Host χ → Host χ × Except CertError CertPair
  /-- Takes the domain and the certificate that is there. -/
  renew : γ → String → String → Host χ → Host χ × Except CertError CertPair

structure CertManager (γ : Type) where
  mode : CertMode
  domain : String
  paths : CertPaths
  client : Option γ

namespace CertManager

variable {γ χ : Type}

def missingClient : CertError := .client "未配置证书客户端"

/-- Someone has to look every day whether the certificate is to be renewed. -/
def needsRenewalTask (m : CertManager γ) : Bool := m.mode.isAcme

def pairExists (m : CertManager γ) (files : FileTree) : Bool :=
  files.exists? m.paths.cert && files.exists? m.paths.key

def writeFile (files : FileTree) (path text : String) : FileTree × Except CertError Unit :=
  let parent := FileTree.parentPath path
  match files.makeWay parent with
  | (files, .error e) => (files, .error (.io parent e))
  | (files, .ok ()) =>
    let (files, r) := files.write path text
    (files, r.mapError (.io path))

/-- The certificate first; what was written stays if the rest cannot be. -/
def writePair (m : CertManager γ) (p : CertPair) (files : FileTree) :
    FileTree × Except CertError Unit :=
  match writeFile files m.paths.cert p.cert with
  | (files, .error e) => (files, .error e)
  | (files, .ok ()) => writeFile files m.paths.key p.key

def store (m : CertManager γ) (h : Host χ) :
    Except CertError CertPair → Host χ × Except CertError Unit
  | .error e => (h, .error e)
  | .ok p =>
    let (files, r) := m.writePair p h.files
    ({ h with files }, r)

/-- Names in a certificate are ASCII. -/
def selfSign (h : Host χ) (domain : String) : Except CertError CertPair :=
  if domain.toList.all fun c => c.toNat < 128 then .ok h.freshPair else .error .generate

variable [CertClient γ χ]

def obtain (m : CertManager γ) (h : Host χ) : Host χ × Except CertError CertPair :=
  match m.client with
  | none => (h, .error missingClient)
  | some c => CertClient.obtain c m.domain h

def renew (m : CertManager γ) (existing : String) (h : Host χ) :
    Host χ × Except CertError CertPair :=
  match m.client with
  | none => (h, .error missingClient)
  | some c => CertClient.renew c m.domain existing h

/-- Sees to it that both files are there, where they are the agent's business. -/
def ensure (m : CertManager γ) (h : Host χ) : Host χ × Except CertError Unit :=
  let unlessThere (get : Host χ × Except CertError CertPair) : Host χ × Except CertError Unit :=
    if m.pairExists h.files then (h, .ok ()) else m.store get.1 get.2
  match m.mode with
  | .none => (h, .ok ())
  | .file => (h, .ok ())
  | .selfSigned => unlessThere (h, selfSign h m.domain)
  | .http => unlessThere (m.obtain h)
  | .dns .. => unlessThere (m.obtain h)

/-- Tells whether the pair was renewed; `now` is in seconds since 1970. -/
def renewIfDue (m : CertManager γ) (now : Int) (h : Host χ) : Host χ × Except CertError Bool :=
  if !m.mode.isAcme then (h, .ok false)
  else
    match h.files.read m.paths.cert with
    | .error e => (h, .error (.io m.paths.cert e))
    | .ok existing =>
      match Certificate.readExpiry existing with
      | .error e => (h, .error e)
      | .ok expiry =>
        if !Certificate.needsRenewal expiry now then (h, .ok false)
        else
          let (h, pair) := m.renew existing h
          let (h, r) := m.store h pair
          (h, r.map fun _ => true)

end CertManager

end NodeAgent
