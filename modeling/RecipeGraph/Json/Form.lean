import RecipeGraph.Json.Decoder

/-!
Readers of records.

A form lists the fields of a record in their order. The record is written as an
object, whose entries are read in the order of the text, or as the list of its
fields. Unknown keys are skipped, a repeated key is a fault.
-/

namespace RecipeGraph

/-- What stands for a field that is not there. -/
inductive Absent (α : Type) where
  | fault
  /-- The value for a key that an object lacks. A list has to be complete. -/
  | inObject (value : α)
  /-- The value for a missing key and for the missing end of a list. -/
  | anywhere (value : α)

/-- `State` is what the entries read so far have given. -/
structure Form (α : Type) where
  State : Type
  start : State
  /-- Reads one entry; `none` if the key is unknown. -/
  take : Reading → String → Draft → State → Option (Except Fault State)
  finish : State → Except Fault α
  /-- Reads from the front of a list. -/
  listed : Reading → List Draft → Except Fault (α × List Draft)

namespace Form

/-- One field under its key or one of its other names. -/
def field (key : String) (others : List String) (absent : Absent α)
    (decode : Decoder α) : Form α where
  State := Option α
  start := none
  take reading name draft state :=
    if name = key || others.contains name then
      some (match state with
        | some _ => .error (.mismatch (.duplicateField key))
        | none => (decode reading draft).map some)
    else none
  finish
    | some value => .ok value
    | none =>
      match absent with
      | .fault => .error (.mismatch (.missingField key))
      | .inObject value => .ok value
      | .anywhere value => .ok value
  listed reading
    | draft :: rest => (decode reading draft).map (·, rest)
    | [] =>
      match absent with
      | .anywhere value => .ok (value, [])
      | _ => .error (.mismatch (.missingField key))

def required (key : String) (decode : Decoder α) : Form α :=
  field key [] .fault decode

def withDefault (key : String) (value : α) (decode : Decoder α) : Form α :=
  field key [] (.anywhere value) decode

def both (f : Form α) (g : Form β) : Form (α × β) where
  State := f.State × g.State
  start := (f.start, g.start)
  take reading key draft state :=
    match f.take reading key draft state.1 with
    | some taken => some (taken.map (·, state.2))
    | none => (g.take reading key draft state.2).map fun taken => taken.map (state.1, ·)
  finish state := do
    let a ← f.finish state.1
    let b ← g.finish state.2
    return (a, b)
  listed reading drafts := do
    let (a, drafts) ← f.listed reading drafts
    let (b, drafts) ← g.listed reading drafts
    return ((a, b), drafts)

def map (f : Form α) (h : α → β) : Form β where
  State := f.State
  start := f.start
  take := f.take
  finish state := (f.finish state).map h
  listed reading drafts := (f.listed reading drafts).map fun (a, rest) => (h a, rest)

def step (f : Form α) (reading : Reading) (state : f.State) :
    Option String × Draft → Except Fault f.State
  | (none, _) => .error .malformed
  | (some key, draft) =>
    match f.take reading key draft state with
    | some taken => taken
    | none => draft.skip.map fun () => state

def readEntries (f : Form α) (reading : Reading)
    (entries : List (Option String × Draft)) : Except Fault α := do
  let state ← entries.foldlM (f.step reading) f.start
  f.finish state

/-- A record that is only ever written as an object. -/
def readObject (f : Form α) : Decoder α := fun reading draft =>
  match draft with
  | .obj entries => f.readEntries reading entries
  | other => .error (other.reject "a record")

def read (f : Form α) : Decoder α := fun reading draft =>
  match draft with
  | .obj entries => f.readEntries reading entries
  | .arr drafts => do
    let (value, rest) ← f.listed reading drafts
    if rest.isEmpty then return value
    else .error (reading.refuse (.wrongLength drafts.length))
  | other => .error (other.reject "a record")

end Form

end RecipeGraph
