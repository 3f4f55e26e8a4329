import RecipeGraph.Params.Wire

/-!
Schemas of the node fields, from which an editor builds its forms.
-/

namespace RecipeGraph

/-- What a schema can be asked for. -/
inductive Subject where
  | nodes
  | activations
  | optimizers
  | losses
deriving DecidableEq, Repr

namespace Schema

open Json (ofEntries texts)

/-- The dialect in which the schemas are written. -/
def dialect : Json :=
  .str ("http://" ++ "json-schema.org/draft-07/schema#")

def number : List (String × Json) :=
  [("format", .str "double"), ("type", .str "number")]

def size : List (String × Json) :=
  [("format", .str "uint"), ("minimum", .float 0.0), ("type", .str "integer")]

def listOf (item : List (String × Json)) : List (String × Json) :=
  [("items", ofEntries item), ("type", .str "array")]

def choice (names : List String) : List (String × Json) :=
  [("enum", texts names), ("type", .str "string")]

/-- Null may stand for the value, and it does when nothing is given. -/
def orNull (schema : List (String × Json)) : List (String × Json) :=
  ("default", .null) :: schema.map fun (key, value) =>
    match key, value with
    | "type", .str name => (key, texts [name, "null"])
    | _, value => (key, value)

def withDefault (value : Json) (schema : List (String × Json)) : List (String × Json) :=
  ("default", value) :: schema

/-- One of the choices defined beside the schema. -/
def reference (name : String) : List (String × Json) :=
  [("allOf", .arr [ofEntries [("$ref", .str ("#/definitions/" ++ name))]])]

structure Property where
  key : String
  schema : List (String × Json)
  isRequired : Bool := false

def properties : NodeKind → List Property
  | .value => [⟨"x", orNull number, false⟩]
  | .multiply => [⟨"a", orNull number, false⟩, ⟨"b", orNull number, false⟩]
  | .tensor => [⟨"shape", listOf size, true⟩, ⟨"values", listOf number, true⟩]
  | .inputLayer => [⟨"shape", listOf size, true⟩]
  | .denseLayer =>
    [⟨"activation", withDefault (.str Activation.standard.name) (reference "Activation"), false⟩,
      ⟨"inputShape", orNull (listOf size), false⟩, ⟨"units", size, true⟩]
  | .model =>
    [⟨"learningRate", withDefault (.float NodeParams.standardRate) number, false⟩,
      ⟨"loss", withDefault (.str Loss.standard.name) (reference "Loss"), false⟩,
      ⟨"optimizer", withDefault (.str Optimizer.standard.name) (reference "Optimizer"), false⟩]
  | .trainModel => [⟨"batchSize", size, true⟩, ⟨"epochs", size, true⟩]

/-- A record with these properties. Nothing is said of required ones when there
are none. -/
def record (properties : List Property) : Json :=
  let needed := (properties.filter (·.isRequired)).map (·.key)
  ofEntries <|
    [("type", .str "object"),
      ("properties", ofEntries (properties.map fun p => (p.key, ofEntries p.schema)))] ++
    if needed.isEmpty then [] else [("required", texts needed)]

/-- The kind in one property and its fields in another. -/
def tagged (kind : NodeKind) : Json :=
  ofEntries [
    ("type", .str "object"),
    ("required", texts ["config", "type"]),
    ("properties", ofEntries [
      ("config", record (properties kind)),
      ("type", ofEntries (choice [kind.name]))])]

def titled (title : String) (schema : List (String × Json)) : Json :=
  ofEntries ([("$schema", dialect), ("title", .str title)] ++ schema)

def activationNames : List (String × Json) :=
  choice (Activation.cases.map (·.1))

def optimizerNames : List (String × Json) :=
  choice (Optimizer.cases.map (·.1))

def lossNames : List (String × Json) :=
  choice (Loss.cases.map (·.1))

end Schema

open Schema in
def Subject.schema : Subject → Json
  | .nodes =>
    titled "NodeParams" [
      ("description", .str "Kind-specific node fields."),
      ("oneOf", .arr (NodeKind.all.map tagged)),
      ("definitions", Json.ofEntries [
        ("Activation", Json.ofEntries activationNames),
        ("Loss", Json.ofEntries lossNames),
        ("Optimizer", Json.ofEntries optimizerNames)])]
  | .activations => titled "Activation" activationNames
  | .optimizers => titled "Optimizer" optimizerNames
  | .losses => titled "Loss" lossNames

end RecipeGraph
