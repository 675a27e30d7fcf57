import NodeAgent.Json.Basic
import NodeAgent.Listener.Basic

/-! Listeners and bindings as JSON. What cannot be foretold of a password is shown by its form. -/

namespace NodeAgent

open Json

def Transport.toJson : Transport → Json
  | .tcp header => object [("network", ofText "tcp"), ("header", ofOption (fun h =>
      object [("path", ofText h.path), ("host", ofOption ofText h.host)]) header)]
  | .ws host path =>
    object [("network", ofText "ws"), ("host", ofText host), ("path", ofText path)]
  | .grpc name => object [("network", ofText "grpc"), ("service_name", ofText name)]
  | .httpUpgrade host path =>
    object [("network", ofText "httpupgrade"), ("host", ofText host), ("path", ofText path)]
  | .splitHttp host path mode =>
    object [("network", ofText "splithttp"), ("host", ofText host), ("path", ofText path),
      ("mode", ofText mode)]
  | .hysteria2 => object [("network", ofText "hysteria2")]
  | .tuic => object [("network", ofText "tuic")]

def Security.toJson : Security → Json
  | .none => object [("type", ofText "none")]
  | .tls cert key =>
    object [("type", ofText "tls"), ("cert_file", ofText cert), ("key_file", ofText key)]
  | .reality dest names key ids =>
    object [("type", ofText "reality"), ("dest", ofText dest),
      ("server_names", .list (names.map ofText)), ("private_key", ofText key),
      ("short_ids", .list (ids.map ofText))]

def RandomSecret.text : RandomSecret → String
  | .hex64 => "<hex64>"
  | .base64OfHex64 => "<base64 of hex64>"

def Network.name : Network → String
  | .tcp => "tcp"
  | .udp => "udp"

def ProtocolSettings.toJson : ProtocolSettings → Json
  | .vless d => object [("protocol", ofText "vless"), ("decryption", ofText d)]
  | .vmess => object [("protocol", ofText "vmess")]
  | .trojan => object [("protocol", ofText "trojan")]
  | .shadowsocks cipher key password networks check =>
    object [("protocol", ofText "shadowsocks"), ("cipher", ofText cipher),
      ("server_key", ofOption ofText key), ("default_password", ofText password.text),
      ("networks", .list (networks.map fun n => ofText n.name)), ("iv_check", .bool check)]
  | .hysteria2 up down ignores obfs =>
    object [("protocol", ofText "hysteria2"), ("up_mbps", ofNat up.toNat),
      ("down_mbps", ofNat down.toNat), ("ignore_client_bandwidth", .bool ignores),
      ("obfs", ofOption (fun o =>
        object [("kind", ofText o.kind), ("password", ofText o.password)]) obfs)]
  | .tuic control zero =>
    object [("protocol", ofText "tuic"), ("congestion_control", ofText control),
      ("zero_rtt_handshake", .bool zero)]
  | .anytls scheme =>
    object [("protocol", ofText "anytls"), ("padding_scheme", .list (scheme.map ofText))]

def Listener.toJson (l : Listener) : Json :=
  object [("tag", ofText l.tag), ("listen", ofText l.listen), ("port", ofNat l.port.toNat),
    ("kind", ofText l.kind.name), ("transport", l.transport.toJson),
    ("security", l.security.toJson), ("settings", l.settings.toJson),
    ("sniffing", .list (l.sniffing.map ofText))]

def Credential.toJson : Credential → Json
  | .vless id flow => object [("type", ofText "vless"), ("id", ofText id), ("flow", ofText flow)]
  | .vmess id => object [("type", ofText "vmess"), ("id", ofText id)]
  | .password p => object [("type", ofText "password"), ("password", ofText p)]
  | .tuic uuid p =>
    object [("type", ofText "tuic"), ("uuid", ofText uuid), ("password", ofText p)]
  | .shadowsocks cipher p =>
    object [("type", ofText "shadowsocks"), ("cipher", ofText cipher), ("password", ofText p)]
  | .shadowsocks2022 key => object [("type", ofText "shadowsocks2022"), ("key", ofText key)]

def Binding.toJson (b : Binding) : Json :=
  object [("user_tag", ofText b.userTag), ("uid", ofInt b.uid),
    ("credential", b.credential.toJson), ("secret", ofText b.credential.secret)]

end NodeAgent
