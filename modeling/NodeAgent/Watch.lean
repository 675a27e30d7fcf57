import NodeAgent.Panel.Error
import NodeAgent.Schedule.PeriodicTask

/-!
What asks for a reload: a poll of the configuration file's modification time, and a poll of the
panel for a changed server configuration. The request goes to a mailbox that holds at most one.
-/

namespace NodeAgent

structure Signal where
  pending : Bool := false
  /-- Someone may still receive it. -/
  hasReceiver : Bool := true
  deriving DecidableEq, Repr

namespace Signal

/-- A request that finds another one pending is dropped. -/
def raise (s : Signal) : Signal × Bool :=
  if s.hasReceiver && !s.pending then ({ s with pending := true }, true) else (s, false)

def receive (s : Signal) : Signal × Bool := ({ s with pending := false }, s.pending)

def dropReceiver (s : Signal) : Signal := { s with hasReceiver := false }

end Signal

/-- In milliseconds. -/
def fileWatchPeriod : Nat := 10000

/-- The modification time that was seen last; nothing if there was no file. -/
structure FileWatch where
  last : Option Int
  deriving DecidableEq, Repr

namespace FileWatch

/-- A file that is there and was not there before, or not of that time, has changed. -/
def poll (w : FileWatch) (current : Option Int) : FileWatch × Bool :=
  (⟨current⟩, current.isSome && current != w.last)

def pollAndRaise (w : FileWatch) (current : Option Int) (s : Signal) : FileWatch × Signal :=
  let (w, changed) := w.poll current
  (w, if changed then s.raise.1 else s)

end FileWatch

namespace Monitor

/-- A fetch that finds a changed configuration asks for a reload. -/
def conclude {α : Type} (answer : Except PanelError (Option α)) (s : Signal) : Signal × Outcome :=
  match answer with
  | .ok (some _) => (s.raise.1, .ok)
  | .ok none => (s, .ok)
  | .error _ => (s, .failed)

end Monitor

end NodeAgent
