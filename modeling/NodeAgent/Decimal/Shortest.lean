/-!
The shortest decimal that reads back as a given binary number. The numbers that round to it form an
interval; the first grid of powers of ten with a point in the interval gives the digits.
-/

namespace NodeAgent.Decimal

structure Scientific where
  digits : Nat
  exponent : Int
  deriving DecidableEq, Repr

/-- A positive number and the ends of the interval that rounds to it, over one denominator. -/
structure Rounding where
  low : Nat
  value : Nat
  high : Nat
  den : Nat
  /-- The ends belong to the interval. -/
  closed : Bool

namespace Rounding

/-- Of a float that is finite and positive. Below a power of two the gap is half as wide. -/
def ofFloat (x : Float) : Rounding :=
  let bits := x.toBits.toNat % Nat.pow 2 63
  let exponent := bits / Nat.pow 2 52
  let fraction := bits % Nat.pow 2 52
  let m := if exponent = 0 then fraction else fraction + Nat.pow 2 52
  let q := max exponent 1
  -- the value is 4 * m * 2 ^ (q - 1077)
  let scale := Nat.pow 2 (q - 1077)
  { low := (if fraction = 0 ∧ 1 < exponent then 4 * m - 1 else 4 * m - 2) * scale
    value := 4 * m * scale
    high := (4 * m + 2) * scale
    den := Nat.pow 2 (1077 - q)
    closed := m % 2 == 0 }

def contains (r : Rounding) (n : Nat) (e : Int) : Bool :=
  let p := n * Nat.pow 10 e.toNat * r.den
  let scale := Nat.pow 10 (-e).toNat
  if r.closed then r.low * scale ≤ p && p ≤ r.high * scale
  else r.low * scale < p && p < r.high * scale

/-- How many places a number below one has to be moved up to reach one; at most `fuel`. -/
def placesBelow (num den : Nat) : Nat → Nat
  | 0 => 0
  | fuel + 1 => if den ≤ num then 0 else placesBelow (num * 10) den fuel + 1

/-- The exponent of the least power of ten that is greater than the value. -/
def magnitude (r : Rounding) : Int :=
  if r.den ≤ r.value then (toString (r.value / r.den)).length
  else 1 - (placesBelow r.value r.den 400 : Nat)

/-- The nearer of the grid's points around the value; of two equally near ones the even one. -/
def nearest? (r : Rounding) (e : Int) : Option Nat :=
  let num := r.value * Nat.pow 10 (-e).toNat
  let den := r.den * Nat.pow 10 e.toNat
  let n := num / den
  let rest := 2 * (num % den)
  match r.contains n e, r.contains (n + 1) e with
  | false, false => none
  | true, false => some n
  | false, true => some (n + 1)
  | true, true => some (if rest < den ∨ (rest = den ∧ n % 2 = 0) then n else n + 1)

/-- Seventeen digits always suffice. -/
def shortest (r : Rounding) : Scientific :=
  let found := (List.range 17).findSome? fun n =>
    let e := r.magnitude - (n + 1 : Nat)
    (r.nearest? e).map fun digits => (⟨digits, e⟩ : Scientific)
  found.getD ⟨0, 0⟩

end Rounding

def stripZeros : List Char → List Char := fun s => (s.reverse.dropWhile (· = '0')).reverse

/-- How numbers are written: between the two magnitudes with a point, outside with an exponent. -/
structure Style where
  least : Int
  greatest : Int
  plus : String

def zeros (n : Nat) : List Char := List.replicate n '0'

def Scientific.write (d : Scientific) (s : Style) : List Char :=
  let all := (toString d.digits).toList
  let digits := stripZeros all
  let point : Int := all.length + d.exponent
  if s.least < point ∧ point ≤ 0 then '0' :: '.' :: (zeros (-point).toNat ++ digits)
  else if 0 < point ∧ point ≤ s.greatest then
    let whole := digits.take point.toNat
    let fraction := digits.drop point.toNat
    whole ++ zeros (point.toNat - whole.length) ++
      '.' :: (if fraction.isEmpty then ['0'] else fraction)
  else
    let mantissa := match digits with
      | [] => []
      | [c] => [c]
      | c :: r => c :: '.' :: r
    let e := point - 1
    mantissa ++ 'e' :: (if 0 ≤ e then s.plus.toList else []) ++ (toString e).toList

/-- Nothing for what is no number or not finite. -/
def ofFloat? (s : Style) (x : Float) : Option (List Char) :=
  if x.isNaN || x.isInf then none
  else
    let sign := if x.toBits.toNat < Nat.pow 2 63 then [] else ['-']
    if x == 0.0 then some (sign ++ ['0', '.', '0'])
    else some (sign ++ (Rounding.ofFloat x).shortest.write s)

end NodeAgent.Decimal
