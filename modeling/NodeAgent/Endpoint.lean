import NodeAgent.Json.Record

/-! The panel's description of a server: its endpoints and the intervals they share. -/

namespace NodeAgent

/-- One endpoint as the panel describes it. A text that is not given is empty, a number zero. -/
structure Endpoint where
  kindName : String := ""
  port : UInt16 := 0
  enable : Bool := false
  security : String := ""
  sni : String := ""
  allowInsecure : Bool := false
  fingerprint : String := ""
  realityServerAddr : String := ""
  realityServerPort : UInt16 := 0
  realityPrivateKey : String := ""
  realityPublicKey : String := ""
  realityShortId : String := ""
  transport : String := ""
  host : String := ""
  path : String := ""
  serviceName : String := ""
  cipher : String := ""
  serverKey : String := ""
  flow : String := ""
  hopPorts : String := ""
  hopInterval : Int := 0
  obfsPassword : String := ""
  disableSni : Bool := false
  reduceRtt : Bool := false
  udpRelayMode : String := ""
  congestionController : String := ""
  multiplex : String := ""
  paddingScheme : String := ""
  upMbps : UInt64 := 0
  downMbps : UInt64 := 0
  obfs : String := ""
  obfsHost : String := ""
  obfsPath : String := ""
  xhttpMode : String := ""
  xhttpExtra : String := ""
  encryption : String := ""
  encryptionMode : String := ""
  encryptionRtt : String := ""
  encryptionTicket : String := ""
  encryptionServerPadding : String := ""
  encryptionPrivateKey : String := ""
  encryptionClientPadding : String := ""
  encryptionPassword : String := ""
  certMode : String := ""
  certDnsProvider : String := ""
  /-- Credentials of the DNS provider, one `KEY=VALUE` a line. -/
  certDnsEnv : String := ""
  deriving DecidableEq, Repr

namespace Endpoint

def fieldNames : List String :=
  ["type", "port", "enable", "security", "sni", "allow_insecure", "fingerprint",
    "reality_server_addr", "reality_server_port", "reality_private_key", "reality_public_key",
    "reality_short_id", "transport", "host", "path", "service_name", "cipher", "server_key",
    "flow", "hop_ports", "hop_interval", "obfs_password", "disable_sni", "reduce_rtt",
    "udp_relay_mode", "congestion_controller", "multiplex", "padding_scheme", "up_mbps",
    "down_mbps", "obfs", "obfs_host", "obfs_path", "xhttp_mode", "xhttp_extra", "encryption",
    "encryption_mode", "encryption_rtt", "encryption_ticket", "encryption_server_padding",
    "encryption_private_key", "encryption_client_padding", "encryption_password", "cert_mode",
    "cert_dns_provider", "cert_dns_env"]

def fieldValues (e : Endpoint) : List Json :=
  [.ofText e.kindName, .ofNat e.port.toNat, .bool e.enable, .ofText e.security, .ofText e.sni,
    .bool e.allowInsecure, .ofText e.fingerprint, .ofText e.realityServerAddr,
    .ofNat e.realityServerPort.toNat, .ofText e.realityPrivateKey, .ofText e.realityPublicKey,
    .ofText e.realityShortId, .ofText e.transport, .ofText e.host, .ofText e.path,
    .ofText e.serviceName, .ofText e.cipher, .ofText e.serverKey, .ofText e.flow,
    .ofText e.hopPorts, .ofInt e.hopInterval, .ofText e.obfsPassword, .bool e.disableSni,
    .bool e.reduceRtt, .ofText e.udpRelayMode, .ofText e.congestionController,
    .ofText e.multiplex, .ofText e.paddingScheme, .ofNat e.upMbps.toNat,
    .ofNat e.downMbps.toNat, .ofText e.obfs, .ofText e.obfsHost, .ofText e.obfsPath,
    .ofText e.xhttpMode, .ofText e.xhttpExtra, .ofText e.encryption, .ofText e.encryptionMode,
    .ofText e.encryptionRtt, .ofText e.encryptionTicket, .ofText e.encryptionServerPadding,
    .ofText e.encryptionPrivateKey, .ofText e.encryptionClientPadding,
    .ofText e.encryptionPassword, .ofText e.certMode, .ofText e.certDnsProvider,
    .ofText e.certDnsEnv]

def toJson (e : Endpoint) : Json := .object (fieldNames.zip e.fieldValues)

def ofJson (j : Json) : Option Endpoint := do
  let f ← j.asFields fieldNames
  let text (i : Nat) := f.withDefault i "" Json.asText
  let flag (i : Nat) := f.withDefault i false Json.asBool
  let port (i : Nat) := f.withDefault i 0 Json.asWord16
  let word (i : Nat) := f.withDefault i 0 Json.asWord64
  return {
    kindName := ← text 0
    port := ← port 1
    enable := ← flag 2
    security := ← text 3
    sni := ← text 4
    allowInsecure := ← flag 5
    fingerprint := ← text 6
    realityServerAddr := ← text 7
    realityServerPort := ← port 8
    realityPrivateKey := ← text 9
    realityPublicKey := ← text 10
    realityShortId := ← text 11
    transport := ← text 12
    host := ← text 13
    path := ← text 14
    serviceName := ← text 15
    cipher := ← text 16
    serverKey := ← text 17
    flow := ← text 18
    hopPorts := ← text 19
    hopInterval := ← f.withDefault 20 0 Json.asInt64
    obfsPassword := ← text 21
    disableSni := ← flag 22
    reduceRtt := ← flag 23
    udpRelayMode := ← text 24
    congestionController := ← text 25
    multiplex := ← text 26
    paddingScheme := ← text 27
    upMbps := ← word 28
    downMbps := ← word 29
    obfs := ← text 30
    obfsHost := ← text 31
    obfsPath := ← text 32
    xhttpMode := ← text 33
    xhttpExtra := ← text 34
    encryption := ← text 35
    encryptionMode := ← text 36
    encryptionRtt := ← text 37
    encryptionTicket := ← text 38
    encryptionServerPadding := ← text 39
    encryptionPrivateKey := ← text 40
    encryptionClientPadding := ← text 41
    encryptionPassword := ← text 42
    certMode := ← text 43
    certDnsProvider := ← text 44
    certDnsEnv := ← text 45 }

end Endpoint

structure ServerData where
  /-- In KB. -/
  reportThreshold : Int := 0
  /-- In seconds. -/
  pushInterval : Int := 0
  pullInterval : Int := 0
  endpoints : Option (List Endpoint) := none
  /-- Endpoints that the panel knows, disabled ones included. -/
  total : Int := 0
  deriving DecidableEq, Repr

namespace ServerData

def defaultInterval : Nat := 60

/-- An interval that is not positive was not set. -/
def interval (n : Int) : Nat := if n ≤ 0 then defaultInterval else n.toNat

def pushSeconds (d : ServerData) : Nat := interval d.pushInterval

def pullSeconds (d : ServerData) : Nat := interval d.pullInterval

def ofJson (j : Json) : Option ServerData := do
  let f ← j.asFields
    ["traffic_report_threshold", "push_interval", "pull_interval", "protocols", "total"]
  return {
    reportThreshold := ← f.withDefault 0 0 Json.asInt64
    pushInterval := ← f.withDefault 1 0 Json.asInt64
    pullInterval := ← f.withDefault 2 0 Json.asInt64
    endpoints := ← f.withDefault 3 none (Json.asOptional (Json.asList Endpoint.ofJson))
    total := ← f.withDefault 4 0 Json.asInt64 }

end ServerData

structure ServerReply where
  code : Int := 0
  text : String := ""
  data : Option ServerData := none
  deriving DecidableEq, Repr

namespace ServerReply

/-- Data that an object leaves out is absent; a list has to say so. -/
def ofJson (j : Json) : Option ServerReply := do
  let f ← j.asFields ["code", "msg", "data"]
  if f.positional ∧ (f.get? 2).isNone then none
  else
    return {
      code := ← f.withDefault 0 0 Json.asInt32
      text := ← f.withDefault 1 "" Json.asText
      data := ← f.withDefault 2 none (Json.asOptional ServerData.ofJson) }

end ServerReply

end NodeAgent
