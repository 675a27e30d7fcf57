import NodeAgent.Calendar
import NodeAgent.Limit.Amount

/-!
The token bucket of one user. It fills at the user's rate up to the amount of one second; a
consumer takes what is there and waits for the rest, at most one second at a time.
-/

namespace NodeAgent

/-- Instants are of type `τ` and tokens of type `α`. -/
structure Bucket (τ α : Type) where
  /-- In bytes a second; zero is no limit. -/
  rate : UInt64
  available : α
  /-- When the bucket was filled up last. -/
  filled : τ

namespace Bucket

open Amount

variable {τ α : Type} [Amount α] [Timeline τ α]

def new (rate : UInt64) (now : τ) : Bucket τ α := ⟨rate, ofWord rate, now⟩

def refill (b : Bucket τ α) (now : τ) : Bucket τ α where
  rate := b.rate
  available := min (add b.available (mul (ofWord b.rate) (Timeline.seconds b.filled now)))
    (ofWord b.rate)
  filled := now

inductive Attempt (α : Type)
  | done
  /-- So much is still missing, and so many seconds have to pass before the next attempt. -/
  | wait (remaining seconds : α)

def attempt (b : Bucket τ α) (remaining : α) (now : τ) : Bucket τ α × Attempt α :=
  if b.rate = 0 then (b, .done)
  else
    let b := b.refill now
    if covers b.available remaining then
      ({ b with available := sub b.available remaining }, .done)
    else
      let left := sub remaining b.available
      ({ b with available := zero }, .wait left (min (div left (ofWord b.rate)) one))

/-- A lower rate also cuts what has gathered. -/
def updateRate (b : Bucket τ α) (rate : UInt64) : Bucket τ α :=
  { b with rate, available := min b.available (ofWord rate) }

structure RateChange where
  due : Instant
  rate : UInt64

/-- The changes that are due, the earliest first; those for one instant as they were given. -/
def dueChanges (now : Instant) (changes : List RateChange) : List RateChange :=
  (changes.filter (·.due ≤ now)).mergeSort fun a b => a.due ≤ b.due

def applyDue (b : Bucket Instant α) (now : Instant) (changes : List RateChange) :
    Bucket Instant α × List RateChange :=
  ((dueChanges now changes).foldl (fun b c => b.updateRate c.rate) b,
    changes.filter fun c => !(c.due ≤ now))

/-- The end of a consumption: the bucket, the instant, and the changes still to come. -/
structure Consumed where
  bucket : Bucket Instant Float
  now : Instant
  changes : List RateChange

/-- At most `fuel` waits. -/
def consumeLoop : Nat → Bucket Instant Float → Float → Instant → List RateChange → Consumed
  | 0, b, _, now, changes => ⟨b, now, changes⟩
  | fuel + 1, b, remaining, now, changes =>
    let (b, changes) := b.applyDue now changes
    match b.attempt remaining now with
    | (b, .done) => ⟨b, now, changes⟩
    | (b, .wait left seconds) =>
      consumeLoop fuel b left (Instant.afterNanoseconds now (nanoseconds seconds)) changes

/-- Takes `bytes` tokens. A wait yields at least one token, as long as the rate is not changed. -/
def consume (b : Bucket Instant Float) (bytes : UInt64) (now : Instant)
    (changes : List RateChange) : Consumed :=
  consumeLoop (bytes.toNat + 4 * changes.length + 8) b bytes.toFloat now changes

end Bucket

end NodeAgent
