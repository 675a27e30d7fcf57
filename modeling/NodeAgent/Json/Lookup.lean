import NodeAgent.Json.Record

/-!
Looking things up in a document that is known to be well formed: what is missing, or of another
type, reads as a default. Of equal names the last one counts.
-/

namespace NodeAgent.Json.Lookup

def members : Json → List (String × Json)
  | .record ms => ms.filterMap fun m => (unescape m.1).map fun k => (String.ofList k, m.2)
  | _ => []

def get? (j : Json) (name : String) : Option Json :=
  ((members j).reverse.find? (·.1 = name)).map (·.2)

def get (j : Json) (name : String) : Json := (get? j name).getD .null

def has (j : Json) (name : String) : Bool := (get? j name).isSome

def text? (j : Json) (name : String) : Option String := (get? j name).bind asText

def text (j : Json) (name : String) (d : String := "") : String := (text? j name).getD d

def int? (j : Json) (name : String) : Option Int :=
  match get? j name with
  | some (.number l) => integer? l
  | _ => none

def int (j : Json) (name : String) (d : Int := 0) : Int := (int? j name).getD d

def nat (j : Json) (name : String) (d : Nat := 0) : Nat := (int j name d).toNat

def word64 (j : Json) (name : String) : UInt64 := UInt64.ofNat (nat j name)

def word32 (j : Json) (name : String) : UInt32 := UInt32.ofNat (nat j name)

def bool (j : Json) (name : String) : Bool := ((get? j name).bind asBool).getD false

def items : Json → List Json
  | .list l => l
  | _ => []

def list (j : Json) (name : String) : List Json := items (get j name)

def texts (j : Json) (name : String) : List String := (list j name).filterMap asText

end NodeAgent.Json.Lookup
