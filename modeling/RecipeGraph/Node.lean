import RecipeGraph.Artifact
import RecipeGraph.Params.Merge

/-!
Nodes, and changes to single nodes.
-/

namespace RecipeGraph

/-- What compiling and training have left on a node. -/
structure NodeData where
  errors : List String := []
  output : Option Artifact := none
  compiled : Bool := false
deriving BEq, Repr

/-- `position` is the place in the editor, which nothing here looks into. -/
structure Node where
  id : String
  params : NodeParams
  position : Json := .null
  data : NodeData := {}
deriving Repr

/-- A partial update. Documents can give `config` and `position` only. -/
structure NodePatch where
  config : Option (List (String × Json)) := none
  position : Option Json := none
  errors : Option (List String) := none
  output : Option (Option Artifact) := none
  compiled : Option Bool := none

/-- Whether the update names fields of the kind. -/
def NodePatch.touchesParams (patch : NodePatch) : Bool :=
  match patch.config with
  | some config => !config.isEmpty
  | none => false

namespace Node

def kind (node : Node) : NodeKind :=
  node.params.kind

/-- The node with nothing left on it. -/
def fresh (node : Node) : Node :=
  { node with data := {} }

/-- The node without its compiled result. Errors stay. -/
def uncompiled (node : Node) : Node :=
  { node with data := { node.data with output := none, compiled := false } }

/-- The node with a literal remembered for one of its handles. -/
def bind (node : Node) (handle : String) (literal : Option Float) : Node :=
  { node with params := node.params.bind handle literal }

/-- The node with one more error, unless it has the same already. -/
def addError (node : Node) (message : String) (clear : Bool) : Node :=
  let errors := if clear then [] else node.data.errors
  let errors := if errors.contains message then errors else errors ++ [message]
  { node with data := { node.data with errors } }

/-- The node with the fields of a patch, if they fit its kind. -/
def patched (node : Node) (patch : NodePatch) : Except MergeFault Node := do
  let params ← match patch.config with
    | some config => node.params.merge config
    | none => .ok node.params
  return {
    id := node.id
    params := params
    position := patch.position.getD node.position
    data := {
      errors := patch.errors.getD node.data.errors
      output := patch.output.getD node.data.output
      compiled := patch.compiled.getD node.data.compiled } }

end Node

end RecipeGraph
