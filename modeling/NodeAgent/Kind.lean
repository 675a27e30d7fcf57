import NodeAgent.Text.LowerCase

/-! The kinds of endpoint that a node serves. -/

namespace NodeAgent

inductive Kind
  | vless
  | vmess
  | trojan
  | shadowsocks
  | hysteria2
  | tuic
  | anytls
  deriving DecidableEq, Repr

namespace Kind

def all : List Kind := [vless, vmess, trojan, shadowsocks, hysteria2, tuic, anytls]

def name : Kind → String
  | vless => "vless"
  | vmess => "vmess"
  | trojan => "trojan"
  | shadowsocks => "shadowsocks"
  | hysteria2 => "hysteria2"
  | tuic => "tuic"
  | anytls => "anytls"

def ofLowerCase? : String → Option Kind
  | "vless" => some vless
  | "vmess" => some vmess
  | "trojan" => some trojan
  | "shadowsocks" => some shadowsocks
  | "hysteria" => some hysteria2
  | "hysteria2" => some hysteria2
  | "tuic" => some tuic
  | "anytls" => some anytls
  | _ => none

def ofText? (text : String) : Option Kind := ofLowerCase? (Text.toLower text)

/-- The QUIC kinds always need a certificate and shadowsocks never does. -/
def requiresTls : Kind → String → Bool
  | tuic, _ => true
  | hysteria2, _ => true
  | shadowsocks, _ => false
  | _, security => security == "tls"

end Kind

end NodeAgent
