/-!
Time as the agent sees it, in whole milliseconds since the clock was started, and the days of the
calendar.
-/

namespace NodeAgent

abbrev Instant := Nat

/-- The first millisecond that is not before the end of a wait of `ns` nanoseconds. -/
def Instant.afterNanoseconds (now : Instant) (ns : Nat) : Instant := now + (ns + 999999) / 1000000

namespace Calendar

def isLeapYear (y : Nat) : Bool := (y % 4 == 0 && y % 100 != 0) || y % 400 == 0

def daysInMonth (y m : Nat) : Nat :=
  if m = 2 then (if isLeapYear y then 29 else 28)
  else if m = 4 ∨ m = 6 ∨ m = 9 ∨ m = 11 then 30
  else 31

/-- Days from the first day of year 0 to the first day of year `y`. -/
def daysBeforeYear (y : Nat) : Nat :=
  y * 365 + (y + 3) / 4 - (y + 99) / 100 + (y + 399) / 400

def daysBeforeMonth (y m : Nat) : Nat :=
  ((List.range (m - 1)).map fun k => daysInMonth y (k + 1)).foldr (· + ·) 0

def secondsPerDay : Nat := 86400

structure Date where
  year : Nat
  month : Nat
  day : Nat
  deriving DecidableEq, Repr

/-- Counts on from the day `rest` days after the first of the month; at most `fuel` months. -/
def countMonths (y : Nat) : Nat → Nat → Nat → Date
  | 0, m, rest => ⟨y, m, rest + 1⟩
  | fuel + 1, m, rest =>
    if rest < daysInMonth y m then ⟨y, m, rest + 1⟩
    else countMonths y fuel (m + 1) (rest - daysInMonth y m)

def dateOfDay (n : Nat) : Date :=
  let guess := n / 366
  let y := ((List.range (n / 365 + 1 - guess)).map (· + guess)).foldl
    (fun best y => if daysBeforeYear y ≤ n then max best y else best) guess
  countMonths y 11 1 (n - daysBeforeYear y)

/-- The date in UTC, `t` seconds after the beginning of 1970. -/
def dateOfUnixTime (t : Int) : Date :=
  dateOfDay (t / secondsPerDay + daysBeforeYear 1970).toNat

def twoPlaces (n : Nat) : String := if n < 10 then "0" ++ toString n else toString n

/-- Year, month and day, such as `2026-01-31`. -/
def Date.text (d : Date) : String :=
  toString d.year ++ "-" ++ twoPlaces d.month ++ "-" ++ twoPlaces d.day

end Calendar

end NodeAgent
