import NodeAgent.Calendar
import NodeAgent.Certificate.Der
import NodeAgent.Certificate.Error
import NodeAgent.Certificate.Pem

/-!
When a certificate expires. Instants are whole seconds since 1970 in UTC. Of the certificate only
the structure is looked at: names and the values of extensions may hold anything, and signatures are
not checked.
-/

namespace NodeAgent.Certificate

open Calendar

/-- Nothing for a day that the calendar does not have. -/
def instant? (y m d hour minute second : Nat) : Option Int :=
  if 1 ≤ m ∧ m ≤ 12 ∧ 1 ≤ d ∧ d ≤ daysInMonth y m ∧ hour < 24 ∧ minute < 60 ∧ second < 60 then
    let days : Int := daysBeforeYear y + daysBeforeMonth y m + (d - 1) - daysBeforeYear 1970
    some (days * 86400 + hour * 3600 + minute * 60 + second)
  else none

def twoDigits? (a b : UInt8) : Option Nat :=
  let isDigit (c : UInt8) := 0x30 ≤ c && c ≤ 0x39
  if isDigit a && isDigit b then some ((a.toNat - 0x30) * 10 + (b.toNat - 0x30)) else none

def zulu : UInt8 := 0x5a

/-- How far, in seconds, a zone is ahead of UTC. Less than an hour behind counts as ahead. -/
def offset? (behind : Bool) (hours minutes : Nat) : Option Int :=
  if hours ≤ 25 ∧ minutes ≤ 59 then
    let seconds : Int := hours * 3600 + minutes * 60
    some (if behind ∧ hours ≠ 0 then -seconds else seconds)
  else none

def zone? : List UInt8 → Option Int
  | [z] => if z = zulu then some 0 else none
  | [sign, h1, h2, m1, m2] => do
    let offset := offset? (sign = 0x2d) (← twoDigits? h1 h2) (← twoDigits? m1 m2)
    if sign = 0x2b ∨ sign = 0x2d then offset else none
  | _ => none

/-- Two digits of a year stand for 1950 to 2049; seconds may be missing. -/
def utcTime? : List UInt8 → Option Int
  | y1 :: y2 :: m1 :: m2 :: d1 :: d2 :: h1 :: h2 :: i1 :: i2 :: r => do
    let y ← twoDigits? y1 y2
    let year := if y < 50 then 2000 + y else 1900 + y
    let instant := instant? year (← twoDigits? m1 m2) (← twoDigits? d1 d2) (← twoDigits? h1 h2)
      (← twoDigits? i1 i2)
    match r with
    | s1 :: s2 :: r => some ((← instant (← twoDigits? s1 s2)) - (← zone? r))
    | r => some ((← instant 0) - (← zone? r))
  | _ => none

def isFraction : List UInt8 → Bool
  | [] => true
  | 0x2e :: digits => digits.length ≤ 3 && digits.all fun c => 0x30 ≤ c && c ≤ 0x39
  | _ => false

def generalizedTime? : List UInt8 → Option Int
  | y1 :: y2 :: y3 :: y4 :: m1 :: m2 :: d1 :: d2 :: h1 :: h2 :: i1 :: i2 :: r => do
    let year := (← twoDigits? y1 y2) * 100 + (← twoDigits? y3 y4)
    let instant := instant? year (← twoDigits? m1 m2) (← twoDigits? d1 d2) (← twoDigits? h1 h2)
      (← twoDigits? i1 i2)
    match r with
    | [z] => if z = zulu then instant 0 else none
    | s1 :: s2 :: r =>
      if r.getLast? = some zulu ∧ isFraction r.dropLast then instant (← twoDigits? s1 s2) else none
    | [] => none
  | _ => none

def time? (s : List UInt8) : Option (Int × List UInt8) := do
  let (item, rest) ← Der.readItem s
  let t ← if item.tag.number = Der.utcTimeNumber then utcTime? item.content
    else if item.tag.number = Der.generalizedTimeNumber then generalizedTime? item.content
    else none
  some (t, rest)

/-- The identifier, a primitive item, and then perhaps an item with parameters. -/
def algorithm (s : List UInt8) : Option (List UInt8) := do
  let (content, rest) ← Der.expect Der.sequenceNumber s
  let (identifier, parameters) ← Der.readItem content
  if identifier.tag.isConstructed then none
  else if parameters.isEmpty then some rest
  else do
    let _ ← Der.readItem parameters
    some rest

def bitString (s : List UInt8) : Option (List UInt8) := do
  let (content, rest) ← Der.expectPrimitive Der.bitStringNumber s
  if Der.isBitString content then some rest else none

def publicKey (s : List UInt8) : Option (List UInt8) := do
  let (content, rest) ← Der.expect Der.sequenceNumber s
  let _ ← bitString (← algorithm content)
  some rest

/-- The version may be missing. Behind its number anything may stand. -/
def version (s : List UInt8) : Option (List UInt8) := do
  match ← Der.optional 0 s with
  | (none, rest) => some rest
  | (some item, rest) =>
    let (content, _) ← Der.expectPrimitive Der.integerNumber item.content
    if Der.isWord32 content then some rest else none

def serial (s : List UInt8) : Option (List UInt8) := do
  let (number, rest) ← Der.passItem s
  if number = Der.integerNumber then some rest else none

/-- An identifier of the issuer or of the subject, which may be missing. -/
def uniqueIdentifier (number : Nat) (s : List UInt8) : Option (List UInt8) := do
  match ← Der.optional number s with
  | (none, rest) => some rest
  | (some item, rest) =>
    if !item.tag.isConstructed && Der.isBitString item.content then some rest else none

/-- A mark of one byte that the extension is critical, if it is there. -/
def critical (s : List UInt8) : List UInt8 :=
  match Der.expect Der.booleanNumber s with
  | some ([_], rest) => rest
  | _ => s

/-- An identifier, and a value in which anything may stand. -/
def extension (s : List UInt8) : Option (List UInt8) := do
  let (content, rest) ← Der.expect Der.sequenceNumber s
  let (identifier, value) ← Der.readItem content
  if identifier.tag.isConstructed then none
  else do
    let _ ← Der.expectPrimitive Der.octetStringNumber (critical value)
    some rest

/-- A list of extensions under the number 3, if anything is left, and nothing behind it. -/
def extensions (s : List UInt8) : Option Unit :=
  if s.isEmpty then some ()
  else do
    match ← Der.readHeader s with
    | (_, .indefinite, _) => none
    | (tag, .definite _, list) =>
      let (content, rest) ← Der.expect Der.sequenceNumber list
      if tag.number = 3 ∧ rest.isEmpty then Der.skipAll extension content.length content else none

def bodyExpiry (s : List UInt8) : Option Int := do
  let s ← algorithm (← serial (← version s))
  let (_issuer, s) ← Der.expect Der.sequenceNumber s
  let (validity, s) ← Der.expect Der.sequenceNumber s
  let (_, later) ← time? validity
  let (expiry, _) ← time? later
  let (_subject, s) ← Der.expect Der.sequenceNumber s
  extensions (← uniqueIdentifier 2 (← uniqueIdentifier 1 (← publicKey s)))
  some expiry

def derExpiry (s : List UInt8) : Option Int := do
  let (content, _) ← Der.expect Der.sequenceNumber s
  let (body, rest) ← Der.expect Der.sequenceNumber content
  let expiry ← bodyExpiry body
  let _ ← bitString (← algorithm rest)
  some expiry

def readExpiry (text : String) : Except CertError Int :=
  match (Pem.decode text).bind derExpiry with
  | some t => .ok t
  | none => .error .parse

def renewBeforeDays : Nat := 30

/-- Fewer than 31 whole days are left. -/
def needsRenewal (expiry now : Int) : Bool := Int.tdiv (expiry - now) 86400 ≤ renewBeforeDays

end NodeAgent.Certificate
