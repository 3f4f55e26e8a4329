/-!
The order of texts by code point, in which object keys are listed.
-/

namespace RecipeGraph.Text

/-- Whether the first text comes strictly before the second: at the first place
where they differ the smaller code point wins, and a beginning of a text comes
before the text. -/
def charsBefore : List Char → List Char → Bool
  | _, [] => false
  | [], _ :: _ => true
  | a :: as, b :: bs =>
    if a.toNat < b.toNat then true
    else if b.toNat < a.toNat then false
    else charsBefore as bs

def before (a b : String) : Bool :=
  charsBefore a.toList b.toList

end RecipeGraph.Text
