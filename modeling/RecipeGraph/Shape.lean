import RecipeGraph.Text.Quoted

/-!
Shapes of symbolic tensors.
-/

namespace RecipeGraph

/-- One axis: the batch axis, whose length is left open, or one of fixed length. -/
inductive Dim where
  | batch
  | fixed (length : Nat)
deriving DecidableEq, Repr

abbrev Shape := List Dim

namespace Shape

/-- The batch axis followed by the features. -/
def batched (features : List Nat) : Shape :=
  .batch :: features.map .fixed

def last (shape : Shape) : Option Dim :=
  shape.getLast?

/-- The fixed lengths in order. -/
def features (shape : Shape) : List Nat :=
  shape.filterMap fun
    | .fixed length => some length
    | .batch => none

def display (shape : Shape) : String :=
  "(" ++ ", ".intercalate (shape.map fun
    | .batch => "None"
    | .fixed length => toString length) ++ ")"

end Shape

/-- Plain lengths in square brackets, as messages show them. -/
def showLengths (lengths : List Nat) : String :=
  Text.bracketed (lengths.map toString)

end RecipeGraph
