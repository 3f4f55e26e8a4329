import RecipeGraph.Number.Written
import RecipeGraph.Text.Quoted

/-!
What can be wrong with a document, and how a message names it.
-/

namespace RecipeGraph

/-- The kind of value that stands where another was expected. -/
inductive Found where
  | null
  | boolean (value : Bool)
  | integer (value : Int)
  | float (value : Float)
  | string (value : String)
  | sequence
  | map
deriving Repr

def Found.describe : Found → String
  | .null => "null"
  | .boolean b => "boolean `" ++ toString b ++ "`"
  | .integer i => "integer `" ++ toString i ++ "`"
  | .float x => "floating point `" ++ Number.written x ++ "`"
  | .string s => "string " ++ Text.quoted s
  | .sequence => "sequence"
  | .map => "map"

/-- A value of another form than the expected one. -/
inductive Mismatch where
  | invalidType (found : Found) (wanted : String)
  | invalidValue (found : Found) (wanted : String)
  | unknownCase (name : String) (cases : List String)
  /-- A case that carries a value stands alone. -/
  | missingPayload (name : String)
  | missingField (name : String)
  | duplicateField (name : String)
  | wrongLength (length : Nat)
deriving Repr

def Mismatch.message : Mismatch → String
  | .invalidType found wanted =>
    "invalid type: " ++ found.describe ++ ", expected " ++ wanted
  | .invalidValue found wanted =>
    "invalid value: " ++ found.describe ++ ", expected " ++ wanted
  | .unknownCase name cases =>
    "unknown variant `" ++ name ++ "`, expected one of " ++ Text.ticked cases
  | .missingPayload name => "missing value of `" ++ name ++ "`"
  | .missingField name => "missing field `" ++ name ++ "`"
  | .duplicateField name => "duplicate field `" ++ name ++ "`"
  | .wrongLength length => "invalid length " ++ toString length

/-- The first fault met on the way through a document. -/
inductive Fault where
  /-- The text is not JSON. -/
  | malformed
  /-- JSON of another form, noticed by the scanner because the next character
  is none of those it looks for. -/
  | unexpected (mismatch : Mismatch)
  /-- JSON of another form. -/
  | mismatch (mismatch : Mismatch)
deriving Repr

/-- Whether a fault counts as one of the text rather than of its content. -/
def Fault.ofText : Fault → Bool
  | .malformed => true
  | .unexpected _ => true
  | .mismatch _ => false

def Fault.message : Fault → String
  | .malformed => "malformed JSON"
  | .unexpected m => m.message
  | .mismatch m => m.message

end RecipeGraph
