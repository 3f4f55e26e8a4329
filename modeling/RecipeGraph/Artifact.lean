import RecipeGraph.Number.Literal
import RecipeGraph.Params
import RecipeGraph.Shape

/-!
What nodes compile to.
-/

namespace RecipeGraph

inductive LayerKind where
  | input
  | dense (units : Nat) (activation : Activation)
deriving DecidableEq, Repr

/-- A layer in the lineage of a symbolic tensor. -/
structure LayerSpec where
  name : String
  kind : LayerKind
  outputShape : Shape
  params : Nat
deriving DecidableEq, Repr

/-- The shape that flows out of a layer and the layers that led to it, from the
input layer on. -/
structure SymbolicTensor where
  shape : Shape
  layers : List LayerSpec
deriving DecidableEq, Repr

namespace SymbolicTensor

/-- Name of the last layer, empty without layers. -/
def name (tensor : SymbolicTensor) : String :=
  match tensor.layers.getLast? with
  | some layer => layer.name
  | none => ""

/-- Whether the tensor comes straight out of an input layer. -/
def isInput (tensor : SymbolicTensor) : Bool :=
  match tensor.layers with
  | [layer] => layer.kind = .input
  | _ => false

/-- Name of the layer that the tensor descends from. -/
def root (tensor : SymbolicTensor) : Option String :=
  tensor.layers.head?.map (·.name)

end SymbolicTensor

/-- Data for training. The first axis counts the samples. -/
structure TensorValue where
  shape : List Nat
  values : List Float
deriving BEq, Repr

namespace TensorValue

def samples (tensor : TensorValue) : Nat :=
  tensor.shape.headD 0

def featureShape (tensor : TensorValue) : List Nat :=
  tensor.shape.tail

end TensorValue

structure ModelArtifact where
  name : String
  inputs : List SymbolicTensor
  output : SymbolicTensor
  optimizer : Optimizer
  loss : Loss
  learningRate : Float
deriving BEq, Repr

namespace ModelArtifact

def layers (model : ModelArtifact) : List LayerSpec :=
  model.output.layers

def paramCount (model : ModelArtifact) : Nat :=
  model.layers.foldl (fun total layer => Number.wrap (total + layer.params)) 0

end ModelArtifact

/-- What is plugged into a training node, as far as it is there. -/
structure TrainingSetup where
  model : Option ModelArtifact
  x : Option TensorValue
  y : Option TensorValue
  epochs : Nat
  batchSize : Nat
deriving BEq, Repr

inductive Artifact where
  | scalar (value : Float)
  | tensor (value : TensorValue)
  | layer (value : SymbolicTensor)
  | model (value : ModelArtifact)
  | training (value : TrainingSetup)
deriving BEq, Repr

end RecipeGraph
