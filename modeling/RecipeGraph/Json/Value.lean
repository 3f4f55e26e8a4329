import RecipeGraph.Number.Literal
import RecipeGraph.Text.Order

/-!
JSON values.

Integers of 64 bits and floats are different numbers. An object lists its
entries in ascending order of the keys, each key once; `insert` keeps that.
-/

namespace RecipeGraph

inductive Json where
  | null
  | bool (value : Bool)
  | num (value : Number.Numeral)
  | str (value : String)
  | arr (items : List Json)
  | obj (entries : List (String × Json))
deriving BEq, Repr, Inhabited

namespace Json

/-- Adds an entry at its place. An entry under the same key is replaced. -/
def insert (key : String) (value : Json) :
    List (String × Json) → List (String × Json)
  | [] => [(key, value)]
  | (k, v) :: rest =>
    if k = key then (key, value) :: rest
    else if Text.before key k then (key, value) :: (k, v) :: rest
    else (k, v) :: insert key value rest

/-- The object with these entries; of entries under one key the last counts. -/
def ofEntries (entries : List (String × Json)) : Json :=
  .obj (entries.foldl (fun done entry => insert entry.1 entry.2 done) [])

/-- Value under a key of an object. Anything else has no entries. -/
def get? (key : String) : Json → Option Json
  | .obj entries => entries.lookup key
  | _ => none

def size (n : Nat) : Json :=
  .num (.int n)

/-- Only finite numbers have a number as their value. -/
def float (x : Float) : Json :=
  if x.isFinite then .num (.float x) else .null

def optional (encode : α → Json) : Option α → Json
  | none => .null
  | some a => encode a

def list (encode : α → Json) (items : List α) : Json :=
  .arr (items.map encode)

def texts (items : List String) : Json :=
  list .str items

def sizes (items : List Nat) : Json :=
  list size items

end Json

end RecipeGraph
