import NodeAgent.Certificate.Paths
import NodeAgent.Listener.Basic
import NodeAgent.NodeInfo
import NodeAgent.Text.Base64
import NodeAgent.Text.Basic
import NodeAgent.User

/-! From the panel's description of an endpoint to a listener and the bindings of its users. -/

namespace NodeAgent

namespace Listener

def streamTransport (kind : Kind) (e : Endpoint) : Except BuildError Transport :=
  match e.transport with
  | "tcp" => .ok (.tcp none)
  | "ws" => .ok (.ws e.host e.path)
  | "websocket" => .ok (.ws e.host e.path)
  | "grpc" => .ok (.grpc e.serviceName)
  | "httpupgrade" => .ok (.httpUpgrade e.host e.path)
  | "splithttp" => .ok (.splitHttp e.host e.path e.xhttpMode)
  | "xhttp" => .ok (.splitHttp e.host e.path e.xhttpMode)
  | other => .error (.unsupportedTransport kind other)

def trojanTransport (e : Endpoint) : Except BuildError Transport :=
  match e.transport with
  | "tcp" => .ok (.tcp none)
  | "ws" => .ok (.ws e.host e.path)
  | "websocket" => .ok (.ws e.host e.path)
  | "grpc" => .ok (.grpc e.serviceName)
  | other => .error (.unsupportedTransport .trojan other)

def vlessDecryption (e : Endpoint) : Except BuildError String :=
  match e.encryption with
  | "" => .ok "none"
  | "none" => .ok "none"
  | "mlkem768x25519plus" =>
    let padding := if e.encryptionServerPadding = "" then [] else [e.encryptionServerPadding]
    .ok (".".intercalate (["mlkem768x25519plus", e.encryptionMode, e.encryptionTicket ++ "s"] ++
      padding ++ [e.encryptionPrivateKey]))
  | other => .error (.unsupportedEncryption other)

/-- The digits 2, 0, 2, 2 stand together somewhere in the name of the cipher. -/
def names2022 : List Char → Bool
  | '2' :: '0' :: '2' :: '2' :: _ => true
  | [] => false
  | _ :: r => names2022 r

def is2022 (cipher : String) : Bool := names2022 cipher.toList

def shadowsocksSettings (e : Endpoint) : ProtocolSettings :=
  let networks :=
    if e.obfs = "http" ∧ (e.obfsPath ≠ "" ∨ e.obfsHost ≠ "") then [Network.tcp] else [.tcp, .udp]
  if e.serverKey ≠ "" ∧ is2022 e.cipher then
    -- with a key of its own the server decides the cipher
    .shadowsocks "" (some (Text.Base64.encodeText e.serverKey)) .base64OfHex64 networks true
  else .shadowsocks e.cipher none .hex64 networks true

def shadowsocksTransport (e : Endpoint) : Transport :=
  if e.obfs = "http" then
    .tcp (some {
      path := if e.obfsPath = "" then "/" else e.obfsPath
      host := if e.obfsHost = "" then none else some e.obfsHost })
  else .tcp none

def hysteria2Settings (e : Endpoint) : ProtocolSettings :=
  let obfs := if e.obfs = "" ∨ e.obfs = "none" then none else some ⟨e.obfs, e.obfsPassword⟩
  .hysteria2 e.upMbps e.downMbps (e.upMbps == 0 && e.downMbps == 0) obfs

def paddingScheme (e : Endpoint) : List String :=
  if e.paddingScheme = "" then []
  else (Text.splitAt '\n' e.paddingScheme.toList).map String.ofList

def transportAndSettings (n : NodeInfo) : Except BuildError (Transport × ProtocolSettings) :=
  let e := n.endpoint
  match n.kind with
  | .vless => do
    let decryption ← vlessDecryption e
    let transport ← streamTransport .vless e
    return (transport, .vless decryption)
  | .vmess => do
    let transport ← streamTransport .vmess e
    return (transport, .vmess)
  | .trojan => do
    let transport ← trojanTransport e
    return (transport, .trojan)
  | .shadowsocks => .ok (shadowsocksTransport e, shadowsocksSettings e)
  | .hysteria2 => .ok (.hysteria2, hysteria2Settings e)
  | .tuic => .ok (.tuic, .tuic e.congestionController e.reduceRtt)
  | .anytls => .ok (.tcp none, .anytls (paddingScheme e))

/-- TLS goes before reality. -/
def securityOf (n : NodeInfo) (certDir : String) : Security :=
  let e := n.endpoint
  if n.requiresTls then
    if e.certMode = "none" ∨ e.certMode = "" then .none
    else
      let paths := certPaths certDir n.kind n.id
      .tls paths.cert paths.key
  else if e.security = "reality" then
    let address := if e.realityServerAddr = "" then e.sni else e.realityServerAddr
    .reality (address ++ ":" ++ toString e.realityServerPort) [e.sni] e.realityPrivateKey
      [e.realityShortId]
  else .none

def build (n : NodeInfo) (tag certDir : String) : Except BuildError Listener := do
  let (transport, settings) ← transportAndSettings n
  return {
    tag
    listen := "0.0.0.0"
    port := n.endpoint.port
    kind := n.kind
    transport
    security := securityOf n certDir
    settings
    sniffing := ["http", "tls"] }

end Listener

namespace Credential

/-- In bytes. -/
def keyLength2022 (cipher : String) : Nat :=
  if cipher = "2022-blake3-aes-128-gcm" then 16 else 32

/-- The characters that make up the first `n` bytes, unless the `n`-th byte lies inside one. -/
def takeBytes : Nat → List Char → Option (List Char)
  | 0, _ => some []
  | _, [] => none
  | n + 1, c :: r =>
    if c.utf8Size ≤ n + 1 then (takeBytes (n + 1 - c.utf8Size) r).map (c :: ·) else none
  termination_by _ s => s.length

def ofUser (n : NodeInfo) (u : User) : Except BuildError Credential :=
  let e := n.endpoint
  match n.kind with
  | .vless => .ok (.vless u.uuid e.flow)
  | .vmess => .ok (.vmess u.uuid)
  | .trojan => .ok (.password u.uuid)
  | .hysteria2 => .ok (.password u.uuid)
  | .anytls => .ok (.password u.uuid)
  | .tuic => .ok (.tuic u.uuid u.uuid)
  | .shadowsocks =>
    if Listener.is2022 e.cipher then
      let length := keyLength2022 e.cipher
      match takeBytes length u.uuid.toList with
      | some key => .ok (.shadowsocks2022 (Text.Base64.encodeText (String.ofList key)))
      | none => .error (.keyTooShort u.uuid e.cipher length)
    else .ok (.shadowsocks e.cipher u.uuid)

end Credential

namespace Binding

def ofUser (n : NodeInfo) (tag : String) (u : User) : Except BuildError Binding := do
  let credential ← Credential.ofUser n u
  return { userTag := NodeAgent.userTag tag u.uuid, uid := u.id, credential }

/-- All or none of the users. -/
def ofUsers (n : NodeInfo) (tag : String) (users : List User) : Except BuildError (List Binding) :=
  users.mapM (ofUser n tag)

end Binding

end NodeAgent
