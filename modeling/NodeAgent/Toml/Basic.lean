/-!
TOML documents. A table remembers how it came about, since that decides who may still add to it:
`assign` takes keys into a table, `addTable` and `appendTable` follow the headers.
-/

namespace NodeAgent

namespace Toml

inductive Origin
  /-- Only named on the way to a table below it. -/
  | implied
  | header
  | dotted
  /-- Written in braces; closed to later additions. -/
  | inline
  deriving DecidableEq, Repr

end Toml

inductive Toml where
  | text (s : String)
  | integer (n : Int)
  /-- A float of which no more is known than whether a double can come near it. -/
  | float (fits : Bool)
  | datetime
  | bool (b : Bool)
  | list (items : List Toml)
  | table (origin : Toml.Origin) (entries : List (String × Toml))
  /-- One table for each double-bracketed header. -/
  | tables (items : List Toml)
  deriving Inhabited

namespace Toml

abbrev Entries := List (String × Toml)

def find? (name : String) (es : Entries) : Option Toml := (es.find? (·.1 = name)).map (·.2)

def put (name : String) (v : Toml) : Entries → Entries
  | [] => [(name, v)]
  | (k, w) :: r => if k = name then (k, v) :: r else (k, w) :: put name v r

def onLast (f : Origin → Entries → Option Entries) : List Toml → Option (List Toml)
  | [] => none
  | [.table origin es] => (f origin es).map fun es => [.table origin es]
  | [_] => none
  | t :: r => (onLast f r).map (t :: ·)

/-- Whether a path leads through a table; a dotted key's does not if the table has a header. -/
def Origin.isPassable (dotted : Bool) : Origin → Bool
  | .inline => false
  | .header => !dotted
  | _ => true

/--
Changes the table that a path leads to, from a table of some origin. Of several tables the last one
is meant. What is missing on the way is made: by a header (`false`) or by a dotted key (`true`).
-/
def under (dotted : Bool) :
    List String → (Origin → Entries → Option Entries) → Origin → Entries → Option Entries
  | [], f, origin, es => f origin es
  | name :: path, f, _, es =>
    match find? name es with
    | none =>
      let origin : Origin := if dotted then .dotted else .implied
      (under dotted path f origin []).map fun inner => put name (.table origin inner) es
    | some (.table origin inner) =>
      if origin.isPassable dotted then
        (under dotted path f origin inner).map fun inner => put name (.table origin inner) es
      else none
    | some (.tables items) =>
      (onLast (under dotted path f) items).map fun items => put name (.tables items) es
    | some _ => none

/--
Sets a value that was not there before. A key of several parts adds only to a table that such keys
have made.
-/
def assign (key : List String) (v : Toml) (origin : Origin) (es : Entries) : Option Entries :=
  match key.getLast? with
  | none => none
  | some name =>
    let way := key.dropLast
    under true way (fun origin es =>
      if (way.isEmpty ∨ origin = .dotted) ∧ (find? name es).isNone then some (put name v es)
      else none) origin es

/-- A header `[path]`: a table may have one only once. -/
def addTable (path : List String) (es : Entries) : Option Entries :=
  match path.getLast? with
  | none => none
  | some name =>
    under false path.dropLast (fun _ es =>
      match find? name es with
      | none => some (put name (.table .header []) es)
      | some (.table .implied inner) => some (put name (.table .header inner) es)
      | some _ => none) .header es

/-- A header `[[path]]`: one more table. -/
def appendTable (path : List String) (es : Entries) : Option Entries :=
  match path.getLast? with
  | none => none
  | some name =>
    under false path.dropLast (fun _ es =>
      match find? name es with
      | none => some (put name (.tables [.table .header []]) es)
      | some (.tables items) => some (put name (.tables (items ++ [.table .header []])) es)
      | some _ => none) .header es

end Toml

end NodeAgent
