import RecipeGraph.Artifact
import RecipeGraph.Number.Written

/-!
The layer table of a compiled model.
-/

namespace RecipeGraph

namespace Summary

def nameWidth : Nat := 29

def shapeWidth : Nat := 26

def ruleWidth : Nat := 65

/-- Blanks behind a text up to a width, counted in characters. A longer text is
not cut. -/
def padded (width : Nat) (text : String) : String :=
  text ++ String.ofList (List.replicate (width - text.toList.length) ' ')

def row (name shape params : String) : String :=
  padded nameWidth name ++ padded shapeWidth shape ++ params

def rule (c : Char) : String :=
  String.ofList (List.replicate ruleWidth c)

def kindName : LayerKind → String
  | .input => "InputLayer"
  | .dense .. => "Dense"

def layerRow (layer : LayerSpec) : String :=
  row (layer.name ++ " (" ++ kindName layer.kind ++ ")") layer.outputShape.display
    (toString layer.params)

/-- Rows with a thin rule between any two. -/
def ruled : List String → List String
  | [] => []
  | [last] => [last]
  | first :: rest => first :: rule '_' :: ruled rest

end Summary

open Summary in
/-- Title, one row per layer with its output shape and parameter count, totals
and training settings, every line ended. -/
def ModelArtifact.summary (model : ModelArtifact) : String :=
  let lines :=
    ["Model: \"" ++ model.name ++ "\"", rule '_',
      row "Layer (type)" "Output Shape" "Param #", rule '='] ++
    ruled (model.layers.map layerRow) ++
    [rule '=', "Total params: " ++ toString model.paramCount,
      "Inputs: " ++ ", ".intercalate (model.inputs.map (·.name)),
      "Optimizer: " ++ model.optimizer.identifier ++ "  Loss: " ++ model.loss.identifier ++
        "  Learning rate: " ++ Number.plain model.learningRate]
  String.join (lines.map (· ++ "\n"))

end RecipeGraph
