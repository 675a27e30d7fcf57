import NodeAgent.Certificate.Error
import NodeAgent.Endpoint
import NodeAgent.Text.Basic

/-! Where the certificate of a node comes from. -/

namespace NodeAgent

inductive CertMode
  | none
  | file
  | selfSigned
  | http
  | dns (provider : String) (env : List (String × String))
  deriving DecidableEq, Repr

namespace CertMode

/--
A line without a key or without `=` is skipped. Blanks around the value stay, unless they end the
line.
-/
def dnsCredential? (line : List Char) : Option (String × String) :=
  match Text.splitOnce '=' (Text.trim line) with
  | some (key, value) =>
    let key := Text.trim key
    if key.isEmpty then Option.none else some (String.ofList key, String.ofList value)
  | Option.none => Option.none

def dnsCredentials (raw : String) : List (String × String) :=
  (Text.lines raw.toList).filterMap dnsCredential?

def ofEndpoint (e : Endpoint) : Except CertError CertMode :=
  match e.certMode with
  | "" => .ok none
  | "none" => .ok none
  | "file" => .ok file
  | "self" => .ok selfSigned
  | "http" => .ok http
  | "dns" => .ok (dns e.certDnsProvider (dnsCredentials e.certDnsEnv))
  | other => .error (.unsupportedMode other)

/-- The certificate is requested from an authority, and expires. -/
def isAcme : CertMode → Bool
  | http => true
  | dns .. => true
  | _ => false

end CertMode

end NodeAgent
