import NodeAgent.Json.Basic

/-!
Typed reading of JSON. A record with known fields is written as an object, whose unknown members
are skipped and whose known ones may not repeat, or as the list of its fields in order.
-/

namespace NodeAgent

/-- The fields that a document gives, by position in the record. -/
structure Fields (ν : Type) where
  values : List (Option ν)
  /-- Written as a list: what is missing was cut off, not left out. -/
  positional : Bool

namespace Fields

variable {ν α : Type}

def ofMembers (names : List String) (members : List (String × ν)) : Option (Fields ν) :=
  if names.all fun name => (members.filter (·.1 = name)).length ≤ 1 then
    some ⟨names.map fun name => (members.find? (·.1 = name)).map (·.2), false⟩
  else none

def ofItems (names : List String) (items : List ν) : Option (Fields ν) :=
  if items.length ≤ names.length then
    some ⟨items.map some ++ List.replicate (names.length - items.length) none, true⟩
  else none

def get? (f : Fields ν) (i : Nat) : Option ν := (f.values[i]?).join

def required (f : Fields ν) (i : Nat) (decode : ν → Option α) : Option α :=
  (f.get? i).bind decode

/-- A field that is not given has the value `d`. -/
def withDefault (f : Fields ν) (i : Nat) (d : α) (decode : ν → Option α) : Option α :=
  match f.get? i with
  | none => some d
  | some v => decode v

end Fields

namespace Json

def asFields (names : List String) : Json → Option (Fields Json)
  | .record members => do
    let named ← members.mapM fun m => (unescape m.1).map fun name => (String.ofList name, m.2)
    Fields.ofMembers names named
  | .list items => Fields.ofItems names items
  | _ => none

def asText : Json → Option String
  | .text raw => (unescape raw).map String.ofList
  | _ => none

def asBool : Json → Option Bool
  | .bool b => some b
  | _ => none

def asInteger (low high : Int) : Json → Option Int
  | .number literal => (integer? literal).filter fun n => low ≤ n ∧ n ≤ high
  | _ => none

def asInt64 : Json → Option Int := asInteger (-Int.pow 2 63) (Int.pow 2 63 - 1)

def asInt32 : Json → Option Int := asInteger (-Int.pow 2 31) (Int.pow 2 31 - 1)

def asWord64 (j : Json) : Option UInt64 :=
  (asInteger 0 (Int.pow 2 64 - 1) j).map fun n => UInt64.ofNat n.toNat

def asWord32 (j : Json) : Option UInt32 :=
  (asInteger 0 (Int.pow 2 32 - 1) j).map fun n => UInt32.ofNat n.toNat

def asWord16 (j : Json) : Option UInt16 :=
  (asInteger 0 (Int.pow 2 16 - 1) j).map fun n => UInt16.ofNat n.toNat

def asList {α : Type} (decode : Json → Option α) : Json → Option (List α)
  | .list items => items.mapM decode
  | _ => none

/-- `null` stands for no value. -/
def asOptional {α : Type} (decode : Json → Option α) : Json → Option (Option α)
  | .null => some none
  | j => (decode j).map some

end Json

end NodeAgent
