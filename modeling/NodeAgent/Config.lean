import NodeAgent.Json.Record
import NodeAgent.Text.Basic
import NodeAgent.Toml.Reader

/-! The agent's own settings: where its panel is, and what the panel does not decide. -/

namespace NodeAgent

structure LogSettings where
  level : String := "info"
  /-- A directory; the console if there is none. -/
  output : Option String := none
  deriving DecidableEq, Repr

structure ApiSettings where
  host : String
  serverId : Int
  secretKey : String
  /-- In seconds. -/
  timeout : Nat := 30
  deriving DecidableEq, Repr

structure CertSettings where
  dir : String := "/etc/panel-node"
  email : String := "node@panel.local"
  legoPath : String := "lego"
  /-- In seconds. -/
  timeout : Nat := 180
  deriving DecidableEq, Repr

/-- Limits for users that have none of their own, or laxer ones. -/
structure LimitDefaults where
  speedLimit : UInt64 := 0
  deviceLimit : UInt32 := 0
  deriving DecidableEq, Repr

structure Config where
  log : LogSettings := {}
  api : ApiSettings
  cert : CertSettings := {}
  limit : LimitDefaults := {}
  deriving DecidableEq, Repr

inductive ConfigError
  /-- Not TOML, or not the fields and types that are asked for. -/
  | malformed
  | emptyHost
  | emptySecret
  | serverIdNotPositive (id : Int)
  deriving DecidableEq, Repr

/-- Settings that make no sense are of no kind. -/
def ConfigError.kind? : ConfigError → Option String
  | malformed => some "Toml"
  | _ => none

def ConfigError.message : ConfigError → String
  | malformed => openDetail
  | emptyHost => "api.api_host 不能为空"
  | emptySecret => "api.secret_key 不能为空"
  | serverIdNotPositive id => s!"api.server_id 必须为正数: {id}"

namespace Toml

mutual

/-- Whether every number in a value is in range: of at most 128 bits, or near to some double. -/
def isInRange : Toml → Bool
  | .integer n => -Int.pow 2 127 ≤ n && n < Int.pow 2 128
  | .float fits => fits
  | .list items => areInRange items
  | .tables items => areInRange items
  | .table _ es => haveInRange es
  | _ => true

def areInRange : List Toml → Bool
  | [] => true
  | v :: r => isInRange v && areInRange r

def haveInRange : List (String × Toml) → Bool
  | [] => true
  | (_, v) :: r => isInRange v && haveInRange r

end

/-- Entries that are not fields may be anything but a number out of range. -/
def fieldsOfEntries (names : List String) (es : Entries) : Option (Fields Toml) :=
  if es.all fun e => names.contains e.1 || isInRange e.2 then Fields.ofMembers names es else none

/--
In a list the fields stand in order, and no one looks at what comes after them. A point in time
counts as a record without known fields.
-/
def asFields (names : List String) : Toml → Option (Fields Toml)
  | .table _ es => fieldsOfEntries names es
  | .list items => Fields.ofItems names (items.take names.length)
  | .tables items => Fields.ofItems names (items.take names.length)
  | .datetime => Fields.ofMembers names []
  | _ => none

def asText : Toml → Option String
  | .text s => some s
  | _ => none

def asInteger (low high : Int) : Toml → Option Int
  | .integer n => if low ≤ n ∧ n ≤ high then some n else none
  | _ => none

def asWord64 (v : Toml) : Option Nat := (asInteger 0 (Int.pow 2 64 - 1) v).map Int.toNat

def asWord32 (v : Toml) : Option Nat := (asInteger 0 (Int.pow 2 32 - 1) v).map Int.toNat

end Toml

namespace Config

def logOfToml (v : Toml) : Option LogSettings := do
  let f ← v.asFields ["level", "output"]
  return {
    level := ← f.withDefault 0 "info" Toml.asText
    output := ← f.withDefault 1 none fun v => v.asText.map some }

def apiOfToml (v : Toml) : Option ApiSettings := do
  let f ← v.asFields ["api_host", "server_id", "secret_key", "timeout"]
  return {
    host := ← f.required 0 Toml.asText
    serverId := ← f.required 1 (Toml.asInteger (-Int.pow 2 63) (Int.pow 2 63 - 1))
    secretKey := ← f.required 2 Toml.asText
    timeout := ← f.withDefault 3 30 Toml.asWord64 }

def certOfToml (v : Toml) : Option CertSettings := do
  let f ← v.asFields ["dir", "email", "lego_path", "timeout"]
  return {
    dir := ← f.withDefault 0 "/etc/panel-node" Toml.asText
    email := ← f.withDefault 1 "node@panel.local" Toml.asText
    legoPath := ← f.withDefault 2 "lego" Toml.asText
    timeout := ← f.withDefault 3 180 Toml.asWord64 }

def limitOfToml (v : Toml) : Option LimitDefaults := do
  let f ← v.asFields ["speed_limit", "device_limit"]
  return {
    speedLimit := UInt64.ofNat (← f.withDefault 0 0 Toml.asWord64)
    deviceLimit := UInt32.ofNat (← f.withDefault 1 0 Toml.asWord32) }

def ofEntries (es : Toml.Entries) : Option Config := do
  let f ← Toml.fieldsOfEntries ["log", "api", "cert", "limit"] es
  return {
    log := ← f.withDefault 0 {} logOfToml
    api := ← f.required 1 apiOfToml
    cert := ← f.withDefault 2 {} certOfToml
    limit := ← f.withDefault 3 {} limitOfToml }

def validate (c : Config) : Except ConfigError Config :=
  if (Text.trim c.api.host.toList).isEmpty then .error .emptyHost
  else if c.api.secretKey = "" then .error .emptySecret
  else if c.api.serverId ≤ 0 then .error (.serverIdNotPositive c.api.serverId)
  else .ok c

def ofText (text : String) : Except ConfigError Config :=
  match (Toml.read text).bind ofEntries with
  | none => .error .malformed
  | some c => c.validate

/-- The panel's address without slashes at its end. -/
def apiHost (c : Config) : String := Text.trimSlashes c.api.host

/-- Zero asks for the usual timeout. -/
def apiTimeout (c : Config) : Nat := if c.api.timeout = 0 then 30 else c.api.timeout

def defaultPath : String := "/etc/panel-node/config.toml"

end Config

end NodeAgent
