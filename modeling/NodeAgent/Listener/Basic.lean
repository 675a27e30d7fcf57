import NodeAgent.Kind

/-! Listeners as an engine runs them, and the users bound to one. -/

namespace NodeAgent

/-- A disguise of plain TCP as HTTP. -/
structure HttpHeader where
  path : String
  host : Option String
  deriving DecidableEq, Repr

inductive Transport
  | tcp (header : Option HttpHeader)
  | ws (host path : String)
  | grpc (serviceName : String)
  | httpUpgrade (host path : String)
  | splitHttp (host path mode : String)
  | hysteria2
  | tuic
  deriving DecidableEq, Repr

inductive Security
  | none
  | tls (certFile keyFile : String)
  | reality (dest : String) (serverNames : List String) (privateKey : String)
      (shortIds : List String)
  deriving DecidableEq, Repr

inductive Network
  | tcp
  | udp
  deriving DecidableEq, Repr

structure Obfuscation where
  kind : String
  password : String
  deriving DecidableEq, Repr

/-- A secret that no input decides; only its form is known. -/
inductive RandomSecret
  /-- 64 lower-case hexadecimal digits. -/
  | hex64
  /-- Those digits in Base64. -/
  | base64OfHex64
  deriving DecidableEq, Repr

inductive ProtocolSettings
  | vless (decryption : String)
  | vmess
  | trojan
  | shadowsocks (cipher : String) (serverKey : Option String) (defaultPassword : RandomSecret)
      (networks : List Network) (ivCheck : Bool)
  | hysteria2 (upMbps downMbps : UInt64) (ignoreClientBandwidth : Bool)
      (obfs : Option Obfuscation)
  | tuic (congestionControl : String) (zeroRttHandshake : Bool)
  | anytls (paddingScheme : List String)
  deriving DecidableEq, Repr

structure Listener where
  tag : String
  listen : String
  port : UInt16
  kind : Kind
  transport : Transport
  security : Security
  settings : ProtocolSettings
  /-- What the targets of connections are read from. -/
  sniffing : List String
  deriving DecidableEq, Repr

inductive Credential
  | vless (id flow : String)
  | vmess (id : String)
  | password (password : String)
  | tuic (uuid password : String)
  | shadowsocks (cipher password : String)
  | shadowsocks2022 (key : String)
  deriving DecidableEq, Repr

def Credential.secret : Credential → String
  | vless id _ => id
  | vmess id => id
  | password p => p
  | tuic _ p => p
  | shadowsocks _ p => p
  | shadowsocks2022 key => key

structure Binding where
  userTag : String
  uid : Int
  credential : Credential
  deriving DecidableEq, Repr

inductive BuildError
  | unsupportedTransport (kind : Kind) (transport : String)
  | unsupportedEncryption (encryption : String)
  | keyTooShort (uuid cipher : String) (length : Nat)
  deriving DecidableEq, Repr

def BuildError.kind : BuildError → String
  | unsupportedTransport .. => "UnsupportedTransport"
  | unsupportedEncryption _ => "UnsupportedEncryption"
  | keyTooShort .. => "KeyTooShort"

def BuildError.message : BuildError → String
  | unsupportedTransport kind transport => s!"{kind.name} 不支持传输方式: {transport}"
  | unsupportedEncryption encryption => s!"vless 不支持加密方式: {encryption}"
  | keyTooShort uuid cipher length =>
    s!"用户 {uuid} 的 uuid 长度不足 {length}，无法生成 {cipher} 密钥"

end NodeAgent
