import RecipeGraph.Json.Fault
import RecipeGraph.Json.Scanner

/-!
Readers of drafts for single values and for tagged cases.

A draft is read either live, as the scanner comes by, or after it was kept back
because the tag that says how to read it came later. A kept draft has no faults
of the text, and the two readings tell some faults of form apart.
-/

namespace RecipeGraph

inductive Reading where
  | live
  | kept
deriving DecidableEq, Repr

/-- The fault of a value that the scanner itself refuses while reading live. -/
def Reading.refuse : Reading → Mismatch → Fault
  | .live, m => .unexpected m
  | .kept, m => .mismatch m

abbrev Decoder (α : Type) := Reading → Draft → Except Fault α

namespace Draft

def found : Draft → Found
  | .null => .null
  | .bool b => .boolean b
  | .num (.int i) => .integer i
  | .num (.float x) => .float x
  | .str s => .string s
  | .arr _ => .sequence
  | .obj _ => .map
  | .unreadable => .null
  | .broken => .null

/-- The fault of a draft that is not what was wanted. -/
def reject (draft : Draft) (wanted : String) : Fault :=
  match draft with
  | .unreadable => .malformed
  | .broken => .malformed
  | other => .mismatch (.invalidType other.found wanted)

/-- Passes over a value without reading it. -/
def skip (draft : Draft) : Except Fault Unit :=
  if draft.isWhole then .ok () else .error .malformed

/-- Keeps a value back, which takes reading all of it. -/
def keep (draft : Draft) : Except Fault Unit :=
  if draft.value?.isSome then .ok () else .error .malformed

end Draft

namespace Decoder

def json : Decoder Json := fun _ draft =>
  match draft.value? with
  | some value => .ok value
  | none => .error .malformed

def entries : Decoder (List (String × Json)) := fun _ draft =>
  match draft, draft.value? with
  | .obj _, some (.obj entries) => .ok entries
  | .obj _, _ => .error .malformed
  | other, _ => .error (other.reject "a map")

def text : Decoder String := fun _ draft =>
  match draft with
  | .str s => .ok s
  | other => .error (other.reject "a string")

def bool : Decoder Bool := fun _ draft =>
  match draft with
  | .bool b => .ok b
  | other => .error (other.reject "a boolean")

def float : Decoder Float := fun _ draft =>
  match draft with
  | .num (.int i) => .ok (Number.ofInt i)
  | .num (.float x) => .ok x
  | other => .error (other.reject "f64")

/-- A whole number of 64 bits without a sign. -/
def size : Decoder Nat := fun _ draft =>
  match draft with
  | .num (.int i) =>
    if 0 ≤ i && i.toNat < Number.limit then .ok i.toNat
    else .error (.mismatch (.invalidValue (.integer i) "usize"))
  | other => .error (other.reject "usize")

def optional (decode : Decoder α) : Decoder (Option α) := fun reading draft =>
  match draft with
  | .null => .ok none
  | other => (decode reading other).map some

def items (decode : Decoder α) (reading : Reading) : List Draft → Except Fault (List α)
  | [] => .ok []
  | item :: rest => do
    let value ← decode reading item
    let values ← items decode reading rest
    return value :: values

def list (decode : Decoder α) : Decoder (List α) := fun reading draft =>
  match draft with
  | .arr drafts => items decode reading drafts
  | other => .error (other.reject "a sequence")

/-- One case of a choice: bare, or with a value of its own. -/
inductive Case (α : Type) where
  | plain (value : α)
  | carrying (decode : Decoder α)

def plainCases (cases : List (String × α)) : List (String × Case α) :=
  cases.map fun (name, value) => (name, .plain value)

/-- A kept empty object passes for nothing. -/
def unit : Decoder Unit := fun reading draft =>
  match reading, draft with
  | _, .null => .ok ()
  | .kept, .obj [] => .ok ()
  | _, other => .error (other.reject "unit")

def named (cases : List (String × β)) (name : String) : Except Fault β :=
  match cases.lookup name with
  | some found => .ok found
  | none => .error (.mismatch (.unknownCase name (cases.map (·.1))))

def payload (reading : Reading) (found : Case α) (draft : Draft) : Except Fault α :=
  match found with
  | .plain value => (unit reading draft).map fun () => value
  | .carrying decode => decode reading draft

def oneKey : Mismatch :=
  .invalidValue .map "map with a single key"

/-- A choice, written as the name of the case or as an object with the name as
its only key. -/
def oneOf (cases : List (String × Case α)) : Decoder α := fun reading draft =>
  match reading, draft with
  | _, .str name => do
    match ← named cases name with
    | .plain value => return value
    | .carrying _ => .error (.mismatch (.missingPayload name))
  | .live, .obj ((some name, draft) :: rest) => do
    let found ← named cases name
    let value ← payload .live found draft
    if rest.isEmpty then return value else .error (.unexpected oneKey)
  | .kept, .obj [(some name, draft)] => do
    let found ← named cases name
    payload .kept found draft
  | _, .obj ((none, _) :: _) => .error .malformed
  | reading, .obj _ => .error (reading.refuse oneKey)
  | _, .unreadable => .error .malformed
  | _, .broken => .error .malformed
  | reading, other =>
    .error (reading.refuse (.invalidType other.found "string or map"))

/-- The name of a case standing as the value of a tag. A kept tag may also be
the position of the case. -/
def tag (cases : List (String × β)) : Decoder β := fun reading draft =>
  match reading, draft with
  | _, .str name => named cases name
  | .kept, .num (.int i) =>
    match cases[i.toNat]? with
    | some (_, found) =>
      if 0 ≤ i then .ok found
      else .error (.mismatch (.invalidType (.integer i) "variant identifier"))
    | none => .error (.mismatch (.invalidValue (.integer i) "variant index"))
  | _, other => .error (other.reject "variant identifier")

/-- How far the entries of an object with a tag beside its content are read. -/
inductive Progress (α : Type) where
  | nothing
  | tagged (decode : Decoder α)
  | content (draft : Draft)
  | whole (value : α)

/-- An entry under another key than the two is skipped. Content that comes
before the tag is kept. The tag is a choice between names. -/
def besideStep (tagKey contentKey : String) (cases : List (String × Decoder α))
    (reading : Reading) (progress : Progress α) :
    Option String × Draft → Except Fault (Progress α)
  | (none, _) => .error .malformed
  | (some key, draft) =>
    let tagged := oneOf (plainCases cases) reading
    if key = tagKey then
      match progress with
      | .nothing => (tagged draft).map .tagged
      | .content held => do
        let decode ← tagged draft
        (decode .kept held).map .whole
      | _ => .error (.mismatch (.duplicateField tagKey))
    else if key = contentKey then
      match progress with
      | .nothing => draft.keep.map fun () => .content draft
      | .tagged decode => (decode reading draft).map .whole
      | _ => .error (.mismatch (.duplicateField contentKey))
    else draft.skip.map fun () => progress

/-- A choice written as an object with the tag in one entry and the content in
another, or as the list of the two, where the tag is a name and nothing else. -/
def tagBeside (tagKey contentKey : String) (cases : List (String × Decoder α)) :
    Decoder α := fun reading draft =>
  match draft with
  | .obj entries => do
    match ← entries.foldlM (besideStep tagKey contentKey cases reading) .nothing with
    | .whole value => return value
    | .tagged _ => .error (.mismatch (.missingField contentKey))
    | _ => .error (.mismatch (.missingField tagKey))
  | .arr [] => .error (.mismatch (.wrongLength 0))
  | .arr (first :: rest) => do
    let decode ← tag cases reading first
    match rest with
    | [] => .error (.mismatch (.wrongLength 1))
    | second :: rest => do
      let value ← decode reading second
      if rest.isEmpty then return value
      else .error (reading.refuse (.wrongLength (rest.length + 2)))
  | other => .error (other.reject "a tagged value")

/-- Splits the tag off from the other entries, which are kept. -/
def insideStep (tagKey : String) (cases : List (String × β)) (reading : Reading)
    (state : Option β × List (Option String × Draft)) :
    Option String × Draft → Except Fault (Option β × List (Option String × Draft))
  | (none, _) => .error .malformed
  | (some key, draft) =>
    if key = tagKey then
      match state.1 with
      | none => (tag cases reading draft).map fun found => (some found, state.2)
      | some _ => .error (.mismatch (.duplicateField tagKey))
    else draft.keep.map fun () => (state.1, state.2 ++ [(some key, draft)])

/-- A choice whose tag is one more entry beside the fields of the case, or the
first item of their list. -/
def tagInside (tagKey : String) (cases : List (String × Decoder α)) :
    Decoder α := fun reading draft =>
  match draft with
  | .obj entries => do
    match ← entries.foldlM (insideStep tagKey cases reading) (none, []) with
    | (some decode, others) => decode .kept (.obj others)
    | (none, _) => .error (.mismatch (.missingField tagKey))
  | .arr [] => .error (.mismatch (.missingField tagKey))
  | .arr (first :: rest) => do
    let decode ← tag cases reading first
    (Draft.arr rest).keep
    decode .kept (.arr rest)
  | other => .error (other.reject "a tagged value")

/-- A case without fields ignores entries, but a list has to be empty. -/
def noFields (value : α) : Decoder α := fun _ draft =>
  match draft with
  | .obj _ => .ok value
  | .arr [] => .ok value
  | .arr drafts => .error (.mismatch (.wrongLength drafts.length))
  | other => .error (other.reject "no fields")

/-- Reads a value that is no text any more. -/
def ofJson (decode : Decoder α) (value : Json) : Except Fault α :=
  decode .live value.draft

/-- Reads a whole text. Faults inside the value come before anything behind it. -/
def ofText (decode : Decoder α) (text : String) : Except Fault α := do
  let document := Draft.scan text
  let value ← decode .live document.root
  if document.hasMore then .error .malformed else return value

end Decoder

end RecipeGraph
