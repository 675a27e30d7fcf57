/-!
Distinguished encoding: an item is a tag, a length and so many bytes. What an item is goes by the
number of its tag; the class of the tag counts only for the fields that it tells apart.
-/

namespace NodeAgent.Der

structure Tag where
  number : Nat
  /-- What the number means depends on where the item stands. -/
  isContextual : Bool
  isConstructed : Bool
  deriving DecidableEq, Repr

structure Item where
  tag : Tag
  content : List UInt8
  deriving DecidableEq, Repr

def booleanNumber : Nat := 0x01
def integerNumber : Nat := 0x02
def bitStringNumber : Nat := 0x03
def octetStringNumber : Nat := 0x04
def sequenceNumber : Nat := 0x10
def utcTimeNumber : Nat := 0x17
def generalizedTimeNumber : Nat := 0x18

/-- As many bytes of a number in the long form are read. -/
def mostNumberBytes : Nat := 5

/-- Seven bits a byte, the last byte without the highest bit; at most `fuel` bytes. -/
def readLongNumber : Nat → Nat → List UInt8 → Option (Nat × List UInt8)
  | 0, _, _ => none
  | _, _, [] => none
  | fuel + 1, n, b :: r =>
    let n := n * 128 + b.toNat % 128
    if b < 0x80 then some (n % Nat.pow 2 32, r) else readLongNumber fuel n r

def readTag : List UInt8 → Option (Tag × List UInt8)
  | [] => none
  | b :: r => do
    let low := b.toNat % 32
    let (number, r) ← if low = 31 then readLongNumber mostNumberBytes 0 r else some (low, r)
    some (⟨number, b.toNat / 64 = 2, b.toNat / 32 % 2 = 1⟩, r)

inductive Length
  | definite (n : Nat)
  /-- Up to an end mark. -/
  | indefinite
  deriving DecidableEq, Repr

def readLength : List UInt8 → Option (Length × List UInt8)
  | [] => none
  | b :: r =>
    if b < 0x80 then some (.definite b.toNat, r)
    else
      let n := b.toNat - 0x80
      if n = 0 then some (.indefinite, r)
      else if n = 0x7f ∨ r.length < n then none
      else some (.definite ((r.take n).foldl (fun len d => len * 256 + d.toNat) 0), r.drop n)

def readHeader (s : List UInt8) : Option (Tag × Length × List UInt8) := do
  let (tag, r) ← readTag s
  let (length, r) ← readLength r
  some (tag, length, r)

def readItem (s : List UInt8) : Option (Item × List UInt8) := do
  match ← readHeader s with
  | (tag, .definite n, r) =>
    if r.length < n then none else some (⟨tag, r.take n⟩, r.drop n)
  | (_, .indefinite, _) => none

/-- So many items of unknown length may lie in one another. -/
def mostOpen : Nat := 49

/-- Passes over items until `open_` end marks have been seen; at most `fuel` of them. -/
def skipOpen : Nat → Nat → List UInt8 → Option (List UInt8)
  | _, 0, s => some s
  | 0, _, _ => none
  | fuel + 1, open_ + 1, s => do
    match ← readHeader s with
    | (tag, .definite n, r) =>
      if r.length < n then none
      else skipOpen fuel (if tag.number = 0 ∧ n = 0 then open_ else open_ + 1) (r.drop n)
    | (tag, .indefinite, r) =>
      if tag.isConstructed ∧ open_ + 1 < mostOpen then skipOpen fuel (open_ + 2) r else none

/-- The number of the next item's tag, and what follows the item; its length may be unknown. -/
def passItem (s : List UInt8) : Option (Nat × List UInt8) := do
  match ← readHeader s with
  | (tag, .definite n, r) => if r.length < n then none else some (tag.number, r.drop n)
  | (tag, .indefinite, r) =>
    if tag.isConstructed then (skipOpen r.length 1 r).map fun r => (tag.number, r) else none

/-- The content of the next item, whose tag has to have that number. -/
def expect (number : Nat) (s : List UInt8) : Option (List UInt8 × List UInt8) := do
  let (item, rest) ← readItem s
  if item.tag.number = number then some (item.content, rest) else none

def expectPrimitive (number : Nat) (s : List UInt8) : Option (List UInt8 × List UInt8) := do
  let (item, rest) ← readItem s
  if item.tag.number = number ∧ !item.tag.isConstructed then some (item.content, rest) else none

/-- Passes over what `part` reads until nothing is left; at most `fuel` times. -/
def skipAll (part : List UInt8 → Option (List UInt8)) : Nat → List UInt8 → Option Unit
  | _, [] => some ()
  | 0, _ => none
  | fuel + 1, s => do skipAll part fuel (← part s)

/-- The next item if its tag is contextual and has that number. -/
def optional (number : Nat) (s : List UInt8) : Option (Option Item × List UInt8) :=
  if s.isEmpty then some (none, s)
  else do
    match ← readHeader s with
    | (_, .indefinite, _) => none
    | (tag, .definite _, _) =>
      if tag.number = number ∧ tag.isContextual then
        let (item, rest) ← readItem s
        some (some item, rest)
      else some (none, s)

/-- Without needless leading bytes, not negative, and of at most four bytes. -/
def isWord32 : List UInt8 → Bool
  | [] => false
  | [b] => b < 0x80
  | b :: c :: r =>
    if b = 0 then 0x80 ≤ c && r.length < 4 else b < 0x80 && r.length < 3

def trailingZeros (b : UInt8) : Nat :=
  (List.range 8).findIdx fun n => b.toNat.testBit n

/-- The first byte tells how many bits at the end are not used; these are zero. -/
def isBitString : List UInt8 → Bool
  | [] => false
  | [unused] => unused = 0
  | unused :: bits => unused.toNat ≤ trailingZeros (bits.getLast?.getD 0)

end NodeAgent.Der
