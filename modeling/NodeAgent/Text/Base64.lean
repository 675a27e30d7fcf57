/-!
Base64 with padding: `encode`, and a `decode` that accepts what `encode` writes, one text of it or
several in a row, and nothing else.
-/

namespace NodeAgent.Text.Base64

def digit (n : Nat) : Char :=
  if n < 26 then Char.ofNat (n + 65)
  else if n < 52 then Char.ofNat (n + 71)
  else if n < 62 then Char.ofNat (n - 4)
  else if n = 62 then '+' else '/'

def value? (c : Char) : Option Nat :=
  let n := c.toNat
  if 65 ≤ n ∧ n ≤ 90 then some (n - 65)
  else if 97 ≤ n ∧ n ≤ 122 then some (n - 71)
  else if 48 ≤ n ∧ n ≤ 57 then some (n + 4)
  else if n = 43 then some 62
  else if n = 47 then some 63
  else none

def encode : List UInt8 → List Char
  | [] => []
  | [a] =>
    let n := a.toNat * 16
    [digit (n / 64), digit (n % 64), '=', '=']
  | [a, b] =>
    let n := (a.toNat * 256 + b.toNat) * 4
    [digit (n / 4096), digit (n / 64 % 64), digit (n % 64), '=']
  | a :: b :: c :: r =>
    let n := (a.toNat * 256 + b.toNat) * 256 + c.toNat
    digit (n / 262144) :: digit (n / 4096 % 64) :: digit (n / 64 % 64) :: digit (n % 64) :: encode r

/-- One to three bytes from four characters. Bits that padding leaves unused have to be zero. -/
def decodeGroup (a b c d : Char) : Option (List UInt8) := do
  let n := (← value? a) * 64 + (← value? b)
  if c = '=' ∧ d = '=' then
    if n % 16 = 0 then some [UInt8.ofNat (n / 16)] else none
  else do
    let n := n * 64 + (← value? c)
    if d = '=' then
      if n % 4 = 0 then some [UInt8.ofNat (n / 1024), UInt8.ofNat (n / 4 % 256)] else none
    else do
      let n := n * 64 + (← value? d)
      some [UInt8.ofNat (n / 65536), UInt8.ofNat (n / 256 % 256), UInt8.ofNat (n % 256)]

/-- Each group of four characters may be padded, so that written texts can be joined. -/
def decode : List Char → Option (List UInt8)
  | [] => some []
  | a :: b :: c :: d :: r => do
    let bytes ← decodeGroup a b c d
    let rest ← decode r
    some (bytes ++ rest)
  | _ => none

def encodeText (s : String) : String := String.ofList (encode s.toUTF8.toList)

end NodeAgent.Text.Base64
