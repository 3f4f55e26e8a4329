import RecipeGraph.Artifact
import RecipeGraph.Params.Wire

/-!
Artifacts as JSON: `type` names the case and `value` holds its content.
-/

namespace RecipeGraph

open Json (size float optional)

namespace Dim

def toJson : Dim → Json
  | .batch => .str "Batch"
  | .fixed length => .obj [("Fixed", size length)]

def decode : Decoder Dim :=
  Decoder.oneOf
    [("Batch", .plain .batch),
      ("Fixed", .carrying fun reading draft => (Decoder.size reading draft).map .fixed)]

end Dim

namespace Shape

def toJson (shape : Shape) : Json :=
  Json.list Dim.toJson shape

def decode : Decoder Shape :=
  Decoder.list Dim.decode

end Shape

namespace LayerKind

def toJson : LayerKind → Json
  | .input => .obj [("type", .str "Input")]
  | .dense units activation =>
    .obj [("activation", .str activation.name), ("type", .str "Dense"), ("units", size units)]

def denseForm : Form LayerKind :=
  ((Form.required "units" Decoder.size).both
    (Form.required "activation" Activation.decode)).map
    fun (units, activation) => .dense units activation

def decode : Decoder LayerKind :=
  Decoder.tagInside "type" [("Input", Decoder.noFields .input), ("Dense", denseForm.read)]

end LayerKind

namespace LayerSpec

def toJson (layer : LayerSpec) : Json :=
  .obj [("kind", layer.kind.toJson), ("name", .str layer.name),
    ("output_shape", layer.outputShape.toJson), ("params", size layer.params)]

def form : Form LayerSpec :=
  ((Form.required "name" Decoder.text).both
    ((Form.required "kind" LayerKind.decode).both
      ((Form.required "output_shape" Shape.decode).both
        (Form.required "params" Decoder.size)))).map
    fun (name, kind, outputShape, params) => ⟨name, kind, outputShape, params⟩

def decode : Decoder LayerSpec :=
  form.read

end LayerSpec

namespace SymbolicTensor

def toJson (tensor : SymbolicTensor) : Json :=
  .obj [("layers", Json.list LayerSpec.toJson tensor.layers), ("shape", tensor.shape.toJson)]

def form : Form SymbolicTensor :=
  ((Form.required "shape" Shape.decode).both
    (Form.required "layers" (Decoder.list LayerSpec.decode))).map
    fun (shape, layers) => ⟨shape, layers⟩

def decode : Decoder SymbolicTensor :=
  form.read

end SymbolicTensor

namespace TensorValue

def toJson (tensor : TensorValue) : Json :=
  .obj [("shape", Json.sizes tensor.shape), ("values", Json.list float tensor.values)]

def form : Form TensorValue :=
  ((Form.required "shape" (Decoder.list Decoder.size)).both
    (Form.required "values" (Decoder.list Decoder.float))).map
    fun (shape, values) => ⟨shape, values⟩

def decode : Decoder TensorValue :=
  form.read

end TensorValue

namespace ModelArtifact

def toJson (model : ModelArtifact) : Json :=
  .obj [("inputs", Json.list SymbolicTensor.toJson model.inputs),
    ("learning_rate", float model.learningRate), ("loss", .str model.loss.name),
    ("name", .str model.name), ("optimizer", .str model.optimizer.name),
    ("output", model.output.toJson)]

def form : Form ModelArtifact :=
  ((Form.required "name" Decoder.text).both
    ((Form.required "inputs" (Decoder.list SymbolicTensor.decode)).both
      ((Form.required "output" SymbolicTensor.decode).both
        ((Form.required "optimizer" Optimizer.decode).both
          ((Form.required "loss" Loss.decode).both
            (Form.required "learning_rate" Decoder.float)))))).map
    fun (name, inputs, output, optimizer, loss, learningRate) =>
      ⟨name, inputs, output, optimizer, loss, learningRate⟩

def decode : Decoder ModelArtifact :=
  form.read

end ModelArtifact

namespace TrainingSetup

def toJson (setup : TrainingSetup) : Json :=
  .obj [("batch_size", size setup.batchSize), ("epochs", size setup.epochs),
    ("model", optional ModelArtifact.toJson setup.model),
    ("x", optional TensorValue.toJson setup.x), ("y", optional TensorValue.toJson setup.y)]

/-- A slot may be missing from an object, but not from a list. -/
def slot (key : String) (decode : Decoder α) : Form (Option α) :=
  Form.field key [] (.inObject none) (Decoder.optional decode)

def form : Form TrainingSetup :=
  ((slot "model" ModelArtifact.decode).both
    ((slot "x" TensorValue.decode).both
      ((slot "y" TensorValue.decode).both
        ((Form.required "epochs" Decoder.size).both
          (Form.required "batch_size" Decoder.size))))).map
    fun (model, x, y, epochs, batchSize) => ⟨model, x, y, epochs, batchSize⟩

def decode : Decoder TrainingSetup :=
  form.read

end TrainingSetup

namespace Artifact

def toJson : Artifact → Json
  | .scalar x => .obj [("type", .str "Scalar"), ("value", float x)]
  | .tensor data => .obj [("type", .str "Tensor"), ("value", data.toJson)]
  | .layer symbolic => .obj [("type", .str "Layer"), ("value", symbolic.toJson)]
  | .model built => .obj [("type", .str "Model"), ("value", built.toJson)]
  | .training setup => .obj [("type", .str "Training"), ("value", setup.toJson)]

def decode : Decoder Artifact :=
  Decoder.tagBeside "type" "value"
    [("Scalar", fun reading draft => (Decoder.float reading draft).map .scalar),
      ("Tensor", fun reading draft => (TensorValue.decode reading draft).map .tensor),
      ("Layer", fun reading draft => (SymbolicTensor.decode reading draft).map .layer),
      ("Model", fun reading draft => (ModelArtifact.decode reading draft).map .model),
      ("Training", fun reading draft => (TrainingSetup.decode reading draft).map .training)]

end Artifact

end RecipeGraph
