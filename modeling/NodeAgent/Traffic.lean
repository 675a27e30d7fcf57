import NodeAgent.Overflow
import NodeAgent.Table

/-!
Traffic counters: bytes by user tag for each node. Counting wraps around; draining takes what
exceeds a threshold and leaves the rest to a later cycle.
-/

namespace NodeAgent

structure Tally where
  upload : UInt64 := 0
  download : UInt64 := 0
  deriving DecidableEq, Repr

namespace Tally

def total (t : Tally) : Except Overflow UInt64 := Overflow.add64 t.upload t.download

def add (t : Tally) (upload download : UInt64) : Tally :=
  ⟨t.upload + upload, t.download + download⟩

end Tally

abbrev TrafficCounter := Table String Tally

namespace TrafficCounter

def tally (c : TrafficCounter) (user : String) : Tally := (c.find? user).getD {}

/-- Counts for the user, who has a counter from then on. -/
def add (c : TrafficCounter) (user : String) (upload download : UInt64) : TrafficCounter :=
  c.insert user ((c.tally user).add upload download)

/-- Back to zero, with what was there before. -/
def reset (c : TrafficCounter) (user : String) : TrafficCounter × Tally :=
  (c.modify user fun _ => {}, c.tally user)

/-- A total that is out of range ends the pass where it stands; what was taken before it is lost. -/
def drainEntries (threshold : UInt64) : List (String × Tally) →
    List (String × Tally) × Except Overflow (List (String × Tally))
  | [] => ([], .ok [])
  | (user, t) :: r =>
    match t.total with
    | .error o => ((user, t) :: r, .error o)
    | .ok n =>
      let (left, taken) := drainEntries threshold r
      if n ≤ threshold then ((user, t) :: left, taken)
      else ((user, {}) :: left, taken.map ((user, t) :: ·))

theorem keys_drainEntries (threshold : UInt64) (l : List (String × Tally)) :
    (drainEntries threshold l).1.map Prod.fst = l.map Prod.fst := by
  induction l with
  | nil => rfl
  | cons e r ih =>
    obtain ⟨user, t⟩ := e
    unfold drainEntries
    split
    · rfl
    · dsimp only
      split <;> simp [ih]

def drainOver (c : TrafficCounter) (threshold : UInt64) :
    TrafficCounter × Except Overflow (List (String × Tally)) :=
  let d := drainEntries threshold c.entries
  (⟨d.1, (keys_drainEntries threshold c.entries).symm ▸ c.nodup⟩, d.2)

end TrafficCounter

abbrev TrafficRegistry := Table String TrafficCounter

namespace TrafficRegistry

def counter (r : TrafficRegistry) (node : String) : TrafficCounter := (r.find? node).getD ∅

def account (r : TrafficRegistry) (node user : String) (upload download : UInt64) :
    TrafficRegistry :=
  r.insert node ((r.counter node).add user upload download)

end TrafficRegistry

end NodeAgent
