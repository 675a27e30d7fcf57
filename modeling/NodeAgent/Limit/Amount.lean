import NodeAgent.Calendar

/-!
The numbers that a token bucket counts in. Binary floating point is what runs; any other field of
numbers, the rationals for one, makes the same bucket exact.
-/

namespace NodeAgent

class Amount (α : Type) where
  ofWord : UInt64 → α
  zero : α
  one : α
  add : α → α → α
  sub : α → α → α
  mul : α → α → α
  div : α → α → α
  min : α → α → α
  /-- The second is not more than the first. -/
  covers : α → α → Bool

/-- Instants whose distance can be measured in seconds. -/
class Timeline (τ α : Type) where
  seconds : τ → τ → α

instance : Amount Float where
  ofWord := UInt64.toFloat
  zero := 0.0
  one := 1.0
  add := (· + ·)
  sub := (· - ·)
  mul := (· * ·)
  div := (· / ·)
  min a b := if a ≤ b then a else b
  covers a b := a ≥ b

instance : Timeline Instant Float where
  seconds t u :=
    let ms := u - t
    (UInt64.ofNat (ms / 1000)).toFloat +
      (UInt64.ofNat (ms % 1000 * 1000000)).toFloat / 1000000000.0

instance : Amount Rat where
  ofWord n := (n.toNat : Rat)
  zero := 0
  one := 1
  add := (· + ·)
  sub := (· - ·)
  mul := (· * ·)
  div := (· / ·)
  min a b := if a ≤ b then a else b
  covers a b := b ≤ a

instance : Timeline Rat Rat where
  seconds t u := u - t

/-- A quotient to the nearest whole number; a half goes to the even one. -/
def roundQuotient (num den : Nat) : Nat :=
  let q := num / den
  let r := num % den
  if 2 * r < den then q else if den < 2 * r then q + 1 else q + q % 2

/-- A float that is not negative, times ten to the ninth, to the nearest whole number. -/
def nanoseconds (x : Float) : Nat :=
  let bits := x.toBits.toNat
  let exponent := bits / Nat.pow 2 52 % Nat.pow 2 11
  let fraction := bits % Nat.pow 2 52
  let (m, q) := if exponent = 0 then (fraction, 1) else (fraction + Nat.pow 2 52, exponent)
  -- the value is m * 2 ^ (q - 1075)
  if 1075 ≤ q then m * Nat.pow 2 (q - 1075) * 1000000000
  else roundQuotient (m * 1000000000) (Nat.pow 2 (1075 - q))

end NodeAgent
