import NodeAgent.Json.Basic
import NodeAgent.Toml.Basic

/-! The values of TOML that are one token: numbers, booleans and points in time. -/

namespace NodeAgent.Toml

/-- Single underscores may stand between digits. -/
def ungroup (isDigit : Char → Bool) : List Char → Option (List Char)
  | [] => none
  | [c] => if isDigit c then some [c] else none
  | c :: '_' :: r => if isDigit c then (ungroup isDigit r).map (c :: ·) else none
  | c :: r => if isDigit c then (ungroup isDigit r).map (c :: ·) else none

def inBase (base : Nat) (digits : List Char) : Option Nat :=
  digits.foldlM (fun n c => (Json.hexValue? c).bind fun d =>
    if d < base then some (n * base + d) else none) 0

def unsigned (s : List Char) : List Char :=
  match s with
  | '+' :: r => r
  | '-' :: r => r
  | s => s

def decimal? (s : List Char) : Option Nat := do
  let digits ← ungroup Char.isDigit s
  match digits with
  | '0' :: _ :: _ => none
  | _ => inBase 10 digits

def radix? (base : Nat) (s : List Char) : Option Nat := do
  inBase base (← ungroup (fun c => (Json.hexValue? c).any (· < base)) s)

def integer? : List Char → Option Int
  | '0' :: 'x' :: r => (radix? 16 r).map Int.ofNat
  | '0' :: 'o' :: r => (radix? 8 r).map Int.ofNat
  | '0' :: 'b' :: r => (radix? 2 r).map Int.ofNat
  | '-' :: r => (decimal? r).map fun n => -(n : Int)
  | '+' :: r => (decimal? r).map Int.ofNat
  | s => (decimal? s).map Int.ofNat

/-- Numbers from here on are nearer to infinity than to any double. -/
def doubleBound : Nat := Nat.pow 2 1024 - Nat.pow 2 970

def fitsDouble (m : Nat) (e : Int) : Bool :=
  let size : Int := (Nat.toDigits 10 m).length + e
  if m = 0 ∨ size ≤ 308 then true
  else if 309 < size then false
  else if 0 ≤ e then m * Nat.pow 10 e.toNat < doubleBound
  else m < doubleBound * Nat.pow 10 (-e).toNat

def isExponentMark (c : Char) : Bool := c == 'e' || c == 'E'

def exponent? (s : List Char) : Option Int := do
  let n ← inBase 10 (← ungroup Char.isDigit (unsigned s))
  some (if s.head? = some '-' then -(n : Int) else n)

/-- A whole part, then a fraction or an exponent or both; tells whether a double can come near. -/
def decimalFloat? (s : List Char) : Option Bool :=
  let (mantissa, exponent) := s.span fun c => !isExponentMark c
  let (whole, fraction) := mantissa.span (· ≠ '.')
  if fraction.isEmpty && exponent.isEmpty then none
  else do
    let w ← decimal? whole
    let digits ← if fraction.isEmpty then some [] else ungroup Char.isDigit (fraction.drop 1)
    let e ← if exponent.isEmpty then some 0 else exponent? (exponent.drop 1)
    some (fitsDouble (w * Nat.pow 10 digits.length + (← inBase 10 digits)) (e - digits.length))

def float? (s : List Char) : Option Bool :=
  let s := unsigned s
  if s = "inf".toList ∨ s = "nan".toList then some true else decimalFloat? s

def isPair (high : Nat) : Char → Char → Bool := fun a b =>
  a.isDigit && b.isDigit && (a.toNat - 48) * 10 + (b.toNat - 48) ≤ high

def isDate : List Char → Bool
  | [y1, y2, y3, y4, '-', m1, m2, '-', d1, d2] =>
    if [y1, y2, y3, y4, m1, m2, d1, d2].all Char.isDigit then
      let digit (c : Char) := c.toNat - 48
      let year := ((digit y1 * 10 + digit y2) * 10 + digit y3) * 10 + digit y4
      let month := digit m1 * 10 + digit m2
      let day := digit d1 * 10 + digit d2
      let leap := (year % 4 == 0 && year % 100 != 0) || year % 400 == 0
      let days := if month = 2 then (if leap then 29 else 28)
        else if month = 4 ∨ month = 6 ∨ month = 9 ∨ month = 11 then 30 else 31
      decide (1 ≤ month ∧ month ≤ 12 ∧ 1 ≤ day ∧ day ≤ days)
    else false
  | _ => false

def isFractionalSecond : List Char → Bool
  | [] => true
  | '.' :: r => !r.isEmpty && r.all Char.isDigit
  | _ => false

/-- Seconds may be left out. -/
def isTime : List Char → Bool
  | h1 :: h2 :: ':' :: i1 :: i2 :: ':' :: s1 :: s2 :: r =>
    isPair 23 h1 h2 && isPair 59 i1 i2 && isPair 60 s1 s2 && isFractionalSecond r
  | [h1, h2, ':', i1, i2] => isPair 23 h1 h2 && isPair 59 i1 i2
  | _ => false

def isOffset : List Char → Bool
  | ['Z'] => true
  | ['z'] => true
  | [sign, h1, h2, ':', i1, i2] =>
    (sign == '+' || sign == '-') && isPair 23 h1 h2 && isPair 59 i1 i2
  | _ => false

def isDatetime (s : List Char) : Bool :=
  let (date, rest) := (s.take 10, s.drop 10)
  if isDate date then
    match rest with
    | [] => true
    | mark :: r =>
      let (time, offset) := r.span fun c => c.isDigit || c == ':' || c == '.'
      (mark == 'T' || mark == 't' || mark == ' ') && isTime time &&
        (offset.isEmpty || isOffset offset)
  else isTime s

def scalar? (token : List Char) : Option Toml :=
  if token = "true".toList then some (.bool true)
  else if token = "false".toList then some (.bool false)
  else if let some n := integer? token then some (.integer n)
  else if let some fits := float? token then some (.float fits)
  else if isDatetime token then some .datetime
  else none

def isTokenChar (c : Char) : Bool :=
  c.isAlphanum || c == '_' || c == '+' || c == '-' || c == '.' || c == ':'

/-- A date and a time may be parted by one space. -/
def scanScalar (s : List Char) : Option (Toml × List Char) :=
  let (token, rest) := s.span isTokenChar
  match rest with
  | ' ' :: c :: r =>
    if isDate token && c.isDigit then
      let (time, rest) := (c :: r).span isTokenChar
      (scalar? (token ++ ' ' :: time)).map fun v => (v, rest)
    else (scalar? token).map fun v => (v, rest)
  | _ => (scalar? token).map fun v => (v, rest)

end NodeAgent.Toml
