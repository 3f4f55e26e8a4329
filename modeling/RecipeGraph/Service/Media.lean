/-!
Content types of requests.

A content type is `type/subtype`, possibly followed by parameters. What stands
behind the last plus sign of a subtype names the format it is built on.
-/

namespace RecipeGraph

structure MediaType where
  group : String
  name : String
  suffix : Option String
deriving DecidableEq, Repr

namespace MediaType

def isToken (c : Char) : Bool :=
  c.isAlphanum || "!#$%&'*+-.^_`|~".toList.contains c

def isPrintable (c : Char) : Bool :=
  c = '\t' || (32 ≤ c.toNat && c.toNat < 127)

/-- Where in the parameters the next character stands. -/
inductive Place where
  | start
  | name
  | valueStart
  | value
  | quotedStart
  | quoted
  | behindQuoted
deriving DecidableEq, Repr

namespace Place

/-- The first character between quotes may be a quote itself. -/
def step : Place → Char → Option Place
  | .start, c => if c = ' ' then some .start else if isToken c then some .name else none
  | .name, c => if c = '=' then some .valueStart else if isToken c then some .name else none
  | .valueStart, c => if c = '"' then some .quotedStart else if isToken c then some .value else none
  | .value, c => if c = ';' then some .start else if isToken c then some .value else none
  | .quotedStart, c => if 31 < c.toNat then some .quoted else none
  | .quoted, c =>
    if c = '"' then some .behindQuoted else if 31 < c.toNat then some .quoted else none
  | .behindQuoted, c =>
    if c = ';' then some .start else if c = ' ' then some .behindQuoted else none

def mayEnd : Place → Bool
  | .name => false
  | .quotedStart => false
  | .quoted => false
  | _ => true

end Place

/-- Whether parameters are well formed, from behind the first semicolon on. -/
def parametersEnd (cs : List Char) : Bool :=
  match cs.foldlM Place.step .start with
  | some place => place.mayEnd
  | none => false

/-- Splits a subtype at its last plus sign. A plus sign in front is part of the
name. -/
def splitSuffix : List Char → Option (List Char × List Char)
  | [] => none
  | first :: rest =>
    match splitSuffix rest with
    | some (name, suffix) => some (first :: name, suffix)
    | none =>
      match rest with
      | '+' :: suffix => some ([first], suffix)
      | _ => none

def ofNames (group subtype : List Char) : MediaType :=
  match splitSuffix subtype with
  | some (name, suffix) =>
    ⟨String.ofList group, String.ofList name, some (String.ofList suffix)⟩
  | none => ⟨String.ofList group, String.ofList subtype, none⟩

/-- Reads a content type, in lower case. -/
def parse? (text : String) : Option MediaType :=
  let cs := text.toList.map Char.toLower
  if cs.all isPrintable then
    match cs.takeWhile isToken, cs.dropWhile isToken with
    | [], _ => none
    | group, '/' :: rest =>
      match rest.takeWhile isToken, rest.dropWhile isToken with
      | subtype, [] => some (ofNames group subtype)
      | [], _ => none
      | subtype, ';' :: parameters =>
        if parametersEnd parameters then some (ofNames group subtype) else none
      | _, _ => none
    | _, _ => none
  else none

/-- JSON itself, and formats built on it. -/
def isJson (media : MediaType) : Bool :=
  media.group = "application" && (media.name = "json" || media.suffix = some "json")

end MediaType

end RecipeGraph
