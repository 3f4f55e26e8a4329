import RecipeGraph.Kind

/-!
The fields a node has by its kind.
-/

namespace RecipeGraph

inductive Activation where
  | linear
  | relu
  | sigmoid
  | softmax
  | tanh
deriving DecidableEq, Repr

inductive Optimizer where
  | adam
  | sgd
  | rmsProp
  | adadelta
  | adamax
deriving DecidableEq, Repr

inductive Loss where
  | mse
  | catCross
  | binCross
  | mae
  | mape
  | msle
deriving DecidableEq, Repr

namespace Activation

def standard : Activation := .linear

/-- Name under which a layer library knows the function. -/
def identifier : Activation → String
  | .linear => "linear"
  | .relu => "relu"
  | .sigmoid => "sigmoid"
  | .softmax => "softmax"
  | .tanh => "tanh"

end Activation

namespace Optimizer

def standard : Optimizer := .adam

def identifier : Optimizer → String
  | .adam => "adam"
  | .sgd => "sgd"
  | .rmsProp => "rmsprop"
  | .adadelta => "adadelta"
  | .adamax => "adamax"

end Optimizer

namespace Loss

def standard : Loss := .mse

def identifier : Loss → String
  | .mse => "meanSquaredError"
  | .catCross => "categoricalCrossentropy"
  | .binCross => "binaryCrossentropy"
  | .mae => "meanAbsoluteError"
  | .mape => "meanAbsolutePercentageError"
  | .msle => "meanSquaredLogarithmicError"

end Loss

inductive NodeParams where
  | value (x : Option Float)
  | multiply (a b : Option Float)
  | tensor (values : List Float) (shape : List Nat)
  | inputLayer (shape : List Nat)
  | denseLayer (units : Nat) (activation : Activation) (inputShape : Option (List Nat))
  | model (optimizer : Optimizer) (loss : Loss) (learningRate : Float)
  | trainModel (epochs batchSize : Nat)
deriving BEq, Repr

namespace NodeParams

def standardRate : Float := 0.001

def kind : NodeParams → NodeKind
  | .value .. => .value
  | .multiply .. => .multiply
  | .tensor .. => .tensor
  | .inputLayer .. => .inputLayer
  | .denseLayer .. => .denseLayer
  | .model .. => .model
  | .trainModel .. => .trainModel

/-- The number that a node hands on without being compiled. -/
def literal : NodeParams → Option Float
  | .value x => x
  | _ => none

/-- Content of the field that remembers the literal arriving on a handle; `none`
if the kind has no such field. -/
def bound? (params : NodeParams) (handle : String) : Option (Option Float) :=
  match params with
  | .multiply a b =>
    if handle = Handle.a then some a
    else if handle = Handle.b then some b
    else none
  | _ => none

/-- Writes the field that remembers the literal arriving on a handle. Without
such a field nothing changes. -/
def bind (params : NodeParams) (handle : String) (literal : Option Float) : NodeParams :=
  match params with
  | .multiply a b =>
    if handle = Handle.a then .multiply literal b
    else if handle = Handle.b then .multiply a literal
    else .multiply a b
  | other => other

end NodeParams

end RecipeGraph
