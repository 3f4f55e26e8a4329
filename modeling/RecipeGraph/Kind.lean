/-!
Kinds of nodes and the names of their handles.
-/

namespace RecipeGraph

inductive NodeKind where
  | value
  | multiply
  | tensor
  | inputLayer
  | denseLayer
  | model
  | trainModel
deriving DecidableEq, Repr

namespace Handle

def input : String := "in"
def output : String := "out"
def a : String := "a"
def b : String := "b"
def model : String := "model"
def x : String := "x"
def y : String := "y"

end Handle

namespace NodeKind

def name : NodeKind → String
  | .value => "Value"
  | .multiply => "Multiply"
  | .tensor => "Tensor"
  | .inputLayer => "InputLayer"
  | .denseLayer => "DenseLayer"
  | .model => "Model"
  | .trainModel => "TrainModel"

def all : List NodeKind :=
  [.value, .multiply, .tensor, .inputLayer, .denseLayer, .model, .trainModel]

def ofName? (name : String) : Option NodeKind :=
  all.find? fun kind => kind.name = name

/-- Handle that an edge ends in when it names none. -/
def defaultHandle : NodeKind → Option String
  | .denseLayer => some Handle.input
  | .model => some Handle.input
  | _ => none

def producesValue : NodeKind → Bool
  | .value => true
  | .multiply => true
  | _ => false

def producesLayer : NodeKind → Bool
  | .inputLayer => true
  | .denseLayer => true
  | _ => false

end NodeKind

end RecipeGraph
