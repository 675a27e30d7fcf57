/-!
JSON documents as they are written: strings keep their escapes and numbers their digits, members
keep their order and may repeat a name.
-/

namespace NodeAgent

inductive Json where
  | null
  | bool (b : Bool)
  | number (literal : List Char)
  | text (raw : List Char)
  | list (items : List Json)
  | record (members : List (List Char × Json))
  deriving Inhabited

namespace Json

def hexValue? (c : Char) : Option Nat :=
  let n := c.toNat
  if 48 ≤ n ∧ n ≤ 57 then some (n - 48)
  else if 97 ≤ n ∧ n ≤ 102 then some (n - 87)
  else if 65 ≤ n ∧ n ≤ 70 then some (n - 55)
  else none

def unit16? (a b c d : Char) : Option Nat := do
  some ((((← hexValue? a) * 16 + (← hexValue? b)) * 16 + (← hexValue? c)) * 16 + (← hexValue? d))

def simpleEscape? : Char → Option Char
  | '"' => some '"'
  | '\\' => some '\\'
  | '/' => some '/'
  | 'b' => some '\x08'
  | 'f' => some '\x0c'
  | 'n' => some '\n'
  | 'r' => some '\r'
  | 't' => some '\t'
  | _ => none

/-- The text that a raw string stands for; a surrogate has to come as one of a pair. -/
def unescape : List Char → Option (List Char)
  | [] => some []
  | '\\' :: 'u' :: a :: b :: c :: d :: '\\' :: 'u' :: e :: f :: g :: h :: r => do
    let n ← unit16? a b c d
    if n < 0xd800 ∨ 0xdfff < n then
      let rest ← unescape ('\\' :: 'u' :: e :: f :: g :: h :: r)
      some (Char.ofNat n :: rest)
    else
      let m ← unit16? e f g h
      if n < 0xdc00 ∧ 0xdc00 ≤ m ∧ m ≤ 0xdfff then
        let rest ← unescape r
        some (Char.ofNat (0x10000 + (n - 0xd800) * 0x400 + (m - 0xdc00)) :: rest)
      else none
  | '\\' :: 'u' :: a :: b :: c :: d :: r => do
    let n ← unit16? a b c d
    if n < 0xd800 ∨ 0xdfff < n then
      let rest ← unescape r
      some (Char.ofNat n :: rest)
    else none
  | '\\' :: c :: r => do
    let e ← simpleEscape? c
    let rest ← unescape r
    some (e :: rest)
  | ['\\'] => none
  | c :: r => (unescape r).map (c :: ·)

def hexDigit (n : Nat) : Char := Char.ofNat (if n < 10 then n + 48 else n + 87)

def escapeChar (c : Char) : List Char :=
  match c with
  | '"' => ['\\', '"']
  | '\\' => ['\\', '\\']
  | '\x08' => ['\\', 'b']
  | '\x0c' => ['\\', 'f']
  | '\n' => ['\\', 'n']
  | '\r' => ['\\', 'r']
  | '\t' => ['\\', 't']
  | c =>
    if c.toNat < 0x20 then ['\\', 'u', '0', '0', hexDigit (c.toNat / 16), hexDigit (c.toNat % 16)]
    else [c]

/-- Only what may not stand in a string is escaped. -/
def escape (s : List Char) : List Char := s.flatMap escapeChar

def ofText (s : String) : Json := .text (escape s.toList)

def ofNat (n : Nat) : Json := .number (toString n).toList

def ofInt (n : Int) : Json := .number (toString n).toList

def object (members : List (String × Json)) : Json :=
  .record (members.map fun m => (escape m.1.toList, m.2))

def ofOption {α : Type} (f : α → Json) : Option α → Json
  | none => .null
  | some a => f a

mutual

def writeAux : Json → List Char
  | null => ['n', 'u', 'l', 'l']
  | bool true => ['t', 'r', 'u', 'e']
  | bool false => ['f', 'a', 'l', 's', 'e']
  | number literal => literal
  | text raw => '"' :: (raw ++ ['"'])
  | list items => '[' :: writeItems items
  | record members => '\x7b' :: writeMembers members

def writeItems : List Json → List Char
  | [] => [']']
  | [a] => writeAux a ++ [']']
  | a :: r => writeAux a ++ ',' :: writeItems r

def writeMembers : List (List Char × Json) → List Char
  | [] => ['\x7d']
  | [(k, a)] => '"' :: (k ++ '"' :: ':' :: (writeAux a ++ ['\x7d']))
  | (k, a) :: r => '"' :: (k ++ '"' :: ':' :: (writeAux a ++ ',' :: writeMembers r))

end

/-- The compact form: no blank outside strings. -/
def write (j : Json) : String := String.ofList (writeAux j)

def natural? (digits : List Char) : Option Nat :=
  if digits.all Char.isDigit then some (digits.foldl (fun n c => n * 10 + (c.toNat - 48)) 0)
  else none

/-- A whole number is written without a point or an exponent, and zero without a sign. -/
def integer? : List Char → Option Int
  | ['-', '0'] => none
  | '-' :: digits => (natural? digits).map fun n => -(n : Int)
  | digits => (natural? digits).map fun n => (n : Int)

end Json

end NodeAgent
