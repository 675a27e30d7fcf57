import NodeAgent.Json.Basic

/-!
Reading JSON text. The grammar is the strict one: no comments, no trailing commas, no control
characters in strings, and nothing but blanks around the document.
-/

namespace NodeAgent.Json

def skipBlank : List Char → List Char
  | ' ' :: r => skipBlank r
  | '\t' :: r => skipBlank r
  | '\n' :: r => skipBlank r
  | '\r' :: r => skipBlank r
  | s => s

/-- The raw text up to the closing quote, and what follows the quote. -/
def scanString : List Char → Option (List Char × List Char)
  | [] => none
  | '"' :: r => some ([], r)
  | '\\' :: 'u' :: a :: b :: c :: d :: r => do
    let _ ← unit16? a b c d
    let (raw, rest) ← scanString r
    some ('\\' :: 'u' :: a :: b :: c :: d :: raw, rest)
  | '\\' :: c :: r => do
    let _ ← simpleEscape? c
    let (raw, rest) ← scanString r
    some ('\\' :: c :: raw, rest)
  | c :: r => do
    if c.toNat < 0x20 ∨ c = '\\' then none
    else
      let (raw, rest) ← scanString r
      some (c :: raw, rest)

def scanDigits (s : List Char) : Option (List Char × List Char) :=
  let digits := s.takeWhile Char.isDigit
  if digits.isEmpty then none else some (digits, s.dropWhile Char.isDigit)

def scanWhole : List Char → Option (List Char × List Char)
  | '0' :: r => some (['0'], r)
  | s => scanDigits s

def scanFraction : List Char → Option (List Char × List Char)
  | '.' :: r => do
    let (digits, rest) ← scanDigits r
    some ('.' :: digits, rest)
  | s => some ([], s)

def scanExponent : List Char → Option (List Char × List Char)
  | e :: r =>
    if e = 'e' ∨ e = 'E' then do
      let (sign, r) := match r with
        | '+' :: r => (['+'], r)
        | '-' :: r => (['-'], r)
        | r => ([], r)
      let (digits, rest) ← scanDigits r
      some (e :: (sign ++ digits), rest)
    else some ([], e :: r)
  | [] => some ([], [])

def scanNumber (s : List Char) : Option (List Char × List Char) := do
  let (sign, s) := match s with
    | '-' :: r => (['-'], r)
    | s => ([], s)
  let (whole, s) ← scanWhole s
  let (fraction, s) ← scanFraction s
  let (exponent, s) ← scanExponent s
  -- a digit after a leading zero
  match whole, s with
  | ['0'], c :: _ => if c.isDigit then none else some (sign ++ whole ++ fraction ++ exponent, s)
  | _, _ => some (sign ++ whole ++ fraction ++ exponent, s)

mutual

/-- The first argument bounds the depth and the number of items. -/
def scanValue : Nat → List Char → Option (Json × List Char)
  | 0, _ => none
  | fuel + 1, s =>
    match skipBlank s with
    | 'n' :: 'u' :: 'l' :: 'l' :: r => some (.null, r)
    | 't' :: 'r' :: 'u' :: 'e' :: r => some (.bool true, r)
    | 'f' :: 'a' :: 'l' :: 's' :: 'e' :: r => some (.bool false, r)
    | '"' :: r => (scanString r).map fun (raw, rest) => (.text raw, rest)
    | '[' :: r =>
      match skipBlank r with
      | ']' :: rest => some (.list [], rest)
      | r => (scanItems fuel r).map fun (items, rest) => (.list items, rest)
    | '\x7b' :: r =>
      match skipBlank r with
      | '\x7d' :: rest => some (.record [], rest)
      | r => (scanMembers fuel r).map fun (members, rest) => (.record members, rest)
    | s => (scanNumber s).map fun (literal, rest) => (.number literal, rest)

def scanItems : Nat → List Char → Option (List Json × List Char)
  | 0, _ => none
  | fuel + 1, s => do
    let (item, s) ← scanValue fuel s
    match skipBlank s with
    | ',' :: r =>
      let (items, rest) ← scanItems fuel r
      some (item :: items, rest)
    | ']' :: rest => some ([item], rest)
    | _ => none

def scanMembers : Nat → List Char → Option (List (List Char × Json) × List Char)
  | 0, _ => none
  | fuel + 1, s =>
    match skipBlank s with
    | '"' :: s => do
      let (name, s) ← scanString s
      match skipBlank s with
      | ':' :: s =>
        let (value, s) ← scanValue fuel s
        match skipBlank s with
        | ',' :: r =>
          let (members, rest) ← scanMembers fuel r
          some ((name, value) :: members, rest)
        | '\x7d' :: rest => some ([(name, value)], rest)
        | _ => none
      | _ => none
    | _ => none

end

/-- Each level of the recursion reads a character, so the length bounds it. -/
def read (text : String) : Option Json :=
  let s := text.toList
  match scanValue (2 * s.length + 2) s with
  | some (j, rest) => if (skipBlank rest).isEmpty then some j else none
  | none => none

def numberOfText? (raw : List Char) : Option Json :=
  match scanNumber raw with
  | some (literal, []) => some (.number literal)
  | _ => none

end NodeAgent.Json
