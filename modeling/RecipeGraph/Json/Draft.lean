import RecipeGraph.Json.Value

/-!
Scanned JSON, before anything is read from it.

A draft keeps what a value has lost: repeated keys in the order of the text,
and the place where the text stops being JSON. A reader that goes through a
draft from left to right therefore meets the first fault first, whether it is
one of the text or one of the form that the reader expects.
-/

namespace RecipeGraph

/-- A key is `none` if it is no string of characters. -/
inductive Draft where
  | null
  | bool (value : Bool)
  | num (value : Number.Numeral)
  | str (value : String)
  | arr (items : List Draft)
  | obj (entries : List (Option String × Draft))
  /-- Well formed, but without a value: a number too large for a float, half a
  surrogate pair, or brackets nested too deep. Only skipping gets past it. -/
  | unreadable
  /-- Here the text ends or is no longer JSON. Nothing follows. -/
  | broken
deriving Inhabited

/-- A scanned text: its value and whether anything but blanks follows. -/
structure Document where
  root : Draft
  hasMore : Bool

mutual

def Json.draft : Json → Draft
  | .null => .null
  | .bool b => .bool b
  | .num n => .num n
  | .str s => .str s
  | .arr items => .arr (draftItems items)
  | .obj entries => .obj (draftEntries entries)

def Json.draftItems : List Json → List Draft
  | [] => []
  | item :: rest => item.draft :: draftItems rest

def Json.draftEntries : List (String × Json) → List (Option String × Draft)
  | [] => []
  | (key, value) :: rest => (some key, value.draft) :: draftEntries rest

end

namespace Draft

mutual

/-- Whether the text goes on behind the value. -/
def isWhole : Draft → Bool
  | .broken => false
  | .arr items => wholeItems items
  | .obj entries => wholeEntries entries
  | _ => true

def wholeItems : List Draft → Bool
  | [] => true
  | item :: rest => item.isWhole && wholeItems rest

def wholeEntries : List (Option String × Draft) → Bool
  | [] => true
  | (_, value) :: rest => value.isWhole && wholeEntries rest

end

mutual

/-- The value of a draft, if every part of it has one. Of entries under one
key the last counts. -/
def value? : Draft → Option Json
  | .null => some .null
  | .bool b => some (.bool b)
  | .num n => some (.num n)
  | .str s => some (.str s)
  | .arr items => (valueItems? items).map .arr
  | .obj entries => (valueEntries? entries []).map .obj
  | .unreadable => none
  | .broken => none

def valueItems? : List Draft → Option (List Json)
  | [] => some []
  | item :: rest => do
    let value ← item.value?
    let values ← valueItems? rest
    return value :: values

def valueEntries? : List (Option String × Draft) → List (String × Json) →
    Option (List (String × Json))
  | [], done => some done
  | (none, _) :: _, _ => none
  | (some key, draft) :: rest, done => do
    let value ← draft.value?
    valueEntries? rest (Json.insert key value done)

end

end Draft

end RecipeGraph
