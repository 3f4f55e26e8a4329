import RecipeGraph.Artifact
import RecipeGraph.Failure

/-!
Layers and models on the level of shapes.

No numbers flow: a layer only records the shape it gives out and how many
parameters it would have.
-/

namespace RecipeGraph

/-- What a dense layer is asked to be. A declared input shape has to agree with
the incoming one in its last axis. -/
structure DenseConfig where
  units : Nat
  activation : Activation
  inputShape : Option (List Nat)
deriving DecidableEq, Repr

structure ModelConfig where
  optimizer : Optimizer
  loss : Loss
  learningRate : Float
deriving Repr

namespace DenseConfig

/-- Length of the last axis that the layer expects, if it declares one. -/
def expected (config : DenseConfig) : Option Nat :=
  config.inputShape.bind (·.getLast?)

/-- Shape behind the layer: the incoming one with the last axis replaced. -/
def propagate (config : DenseConfig) (shape : Shape) : Except LayerFault Shape :=
  if config.units = 0 then .error .noUnits
  else
    match shape.last with
    | some (.fixed incoming) =>
      match config.expected with
      | some expected =>
        if expected = incoming then .ok (shape.dropLast ++ [.fixed config.units])
        else .error (.widthMismatch incoming expected)
      | none => .ok (shape.dropLast ++ [.fixed config.units])
    | _ => .error .noFeatures

end DenseConfig

namespace SymbolicTensor

/-- Length of the last axis, 0 if it is open. -/
def width (tensor : SymbolicTensor) : Nat :=
  match tensor.shape.last with
  | some (.fixed length) => length
  | _ => 0

def input (name : String) (features : List Nat) : Except LayerFault SymbolicTensor :=
  if features.isEmpty || features.contains 0 then .error .emptyInput
  else
    let shape := Shape.batched features
    .ok ⟨shape, [⟨name, .input, shape, 0⟩]⟩

/-- Appends a dense layer: one weight for each incoming feature and one bias per
unit. -/
def dense (name : String) (config : DenseConfig) (tensor : SymbolicTensor) :
    Except LayerFault SymbolicTensor := do
  let shape ← config.propagate tensor.shape
  let params := Number.wrap (Number.wrap (tensor.width * config.units) + config.units)
  return ⟨shape, tensor.layers ++ [⟨name, .dense config.units config.activation, shape, params⟩]⟩

end SymbolicTensor

namespace ModelArtifact

/-- Whether the output descends from one of the inputs. -/
def descends (inputs : List SymbolicTensor) (output : SymbolicTensor) : Bool :=
  match output.root with
  | some root => inputs.any fun input => input.name = root
  | none => false

def isRate (x : Float) : Bool :=
  x.isFinite && 0.0 < x

def assemble (name : String) (inputs : List SymbolicTensor) (output : SymbolicTensor)
    (config : ModelConfig) : Except LayerFault ModelArtifact :=
  if inputs.isEmpty then .error .noInputs
  else
    match inputs.find? fun input => !input.isInput with
    | some other => .error (.notAnInput other.name)
    | none =>
      if !descends inputs output then .error (.unrooted output.name)
      else if !isRate config.learningRate then .error .badLearningRate
      else .ok ⟨name, inputs, output, config.optimizer, config.loss, config.learningRate⟩

end ModelArtifact

end RecipeGraph
