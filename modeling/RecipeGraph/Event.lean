/-!
Notices of changes, and how a subscriber receives them.
-/

namespace RecipeGraph

inductive Event where
  | nodeAdded (id : String)
  | nodeRemoved (id : String)
  | nodeUpdated (id : String)
  | edgeAdded (id : String)
  | edgeRemoved (id : String)
  | reloaded
  | compileStarted (nodes : Nat)
  | compileFinished (success : Bool)
deriving DecidableEq, Repr

/-- What a subscriber finds: how many notices it came too late for, and the
notices that were still there. -/
structure Delivery where
  lost : Nat
  events : List Event
deriving DecidableEq, Repr

namespace Event

/-- Room for notices that are not fetched yet, if nothing else is asked for. -/
def defaultCapacity : Nat := 256

/-- The least power of two that is at least `n`, doubling from `power`. -/
def powerFrom (n power : Nat) : Nat :=
  if _h : 0 < power ∧ power < n then powerFrom n (2 * power) else power
termination_by n - power

/-- Buffers hold a power of two and at least one notice. -/
def room (capacity : Nat) : Nat :=
  powerFrom capacity 1

/-- Notices since the last fetch. When there are more than the buffer holds the
oldest are lost. -/
def deliver (capacity : Nat) (events : List Event) : Delivery :=
  let lost := events.length - room capacity
  ⟨lost, events.drop lost⟩

end Event

end RecipeGraph
