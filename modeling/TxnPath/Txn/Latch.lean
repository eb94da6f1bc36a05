/-!
# Latches

A latch counts down to zero and stays there. Whoever waits for it goes on as soon as it is at zero;
if nobody counts down any more, a wait with a bound ends when the bound has passed, and one without
never does.
-/

set_option autoImplicit false

namespace TxnPath

/-- A latch. -/
structure Latch where
  /-- How many events are awaited still. -/
  count : Nat
  deriving DecidableEq

/-- How a wait ends. -/
inductive WaitEnd where
  /-- The latch is at zero. -/
  | ready
  /-- The bound passes first. -/
  | timedOut
  /-- There is no bound. -/
  | never
  deriving DecidableEq

namespace Latch

/-- Whether nothing is awaited. -/
def isOpen (l : Latch) : Bool := l.count == 0

/-- Counts one event. -/
def countDown (l : Latch) : Latch := ⟨l.count - 1⟩

/-- Opens the latch at once. -/
def releaseAll (_ : Latch) : Latch := ⟨0⟩

/-- How a wait ends if nobody counts down any more. -/
def wait (l : Latch) (timeout : Option Nat) : WaitEnd :=
  if l.isOpen then .ready else if timeout.isSome then .timedOut else .never

end Latch

end TxnPath
