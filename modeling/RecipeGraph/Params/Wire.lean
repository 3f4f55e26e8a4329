import RecipeGraph.Json.Form
import RecipeGraph.Params

/-!
Node fields as JSON: `type` holds the kind and `config` the fields.
-/

namespace RecipeGraph

open Json (size float optional)

namespace Activation

def cases : List (String × Activation) :=
  [("Linear", .linear), ("ReLU", .relu), ("Sigmoid", .sigmoid), ("Softmax", .softmax),
    ("Tanh", .tanh)]

def name : Activation → String
  | .linear => "Linear"
  | .relu => "ReLU"
  | .sigmoid => "Sigmoid"
  | .softmax => "Softmax"
  | .tanh => "Tanh"

def decode : Decoder Activation :=
  Decoder.oneOf (Decoder.plainCases cases)

end Activation

namespace Optimizer

def cases : List (String × Optimizer) :=
  [("Adam", .adam), ("SGD", .sgd), ("RMSProp", .rmsProp), ("Adadelta", .adadelta),
    ("Adamax", .adamax)]

def name : Optimizer → String
  | .adam => "Adam"
  | .sgd => "SGD"
  | .rmsProp => "RMSProp"
  | .adadelta => "Adadelta"
  | .adamax => "Adamax"

def decode : Decoder Optimizer :=
  Decoder.oneOf (Decoder.plainCases cases)

end Optimizer

namespace Loss

def cases : List (String × Loss) :=
  [("MSE", .mse), ("CatCross", .catCross), ("BinCross", .binCross), ("MAE", .mae),
    ("MAPE", .mape), ("MSLE", .msle)]

def name : Loss → String
  | .mse => "MSE"
  | .catCross => "CatCross"
  | .binCross => "BinCross"
  | .mae => "MAE"
  | .mape => "MAPE"
  | .msle => "MSLE"

def decode : Decoder Loss :=
  Decoder.oneOf (Decoder.plainCases cases)

end Loss

namespace NodeKind

def cases : List (String × NodeKind) :=
  all.map fun kind => (kind.name, kind)

def decode : Decoder NodeKind :=
  Decoder.oneOf (Decoder.plainCases cases)

end NodeKind

namespace NodeParams

/-- The fields of the kind in ascending order of their keys. -/
def config : NodeParams → List (String × Json)
  | .value x => [("x", optional float x)]
  | .multiply a b => [("a", optional float a), ("b", optional float b)]
  | .tensor values shape => [("shape", Json.sizes shape), ("values", Json.list float values)]
  | .inputLayer shape => [("shape", Json.sizes shape)]
  | .denseLayer units activation inputShape =>
    [("activation", .str activation.name), ("inputShape", optional Json.sizes inputShape),
      ("units", size units)]
  | .model optimizer loss learningRate =>
    [("learningRate", float learningRate), ("loss", .str loss.name),
      ("optimizer", .str optimizer.name)]
  | .trainModel epochs batchSize => [("batchSize", size batchSize), ("epochs", size epochs)]

/-- The object of a kind with these fields. -/
def wire (kind : NodeKind) (config : List (String × Json)) : Json :=
  .obj [("config", .obj config), ("type", .str kind.name)]

def toJson (params : NodeParams) : Json :=
  wire params.kind params.config

open Decoder Form in
/-- The fields that a kind reads, whatever their order. -/
def form : NodeKind → Form NodeParams
  | .value => (withDefault "x" none (Decoder.optional Decoder.float)).map .value
  | .multiply =>
    ((withDefault "a" none (Decoder.optional Decoder.float)).both
      (withDefault "b" none (Decoder.optional Decoder.float))).map
      fun (a, b) => .multiply a b
  | .tensor =>
    ((required "values" (Decoder.list Decoder.float)).both
      (required "shape" (Decoder.list Decoder.size))).map
      fun (values, shape) => .tensor values shape
  | .inputLayer => (required "shape" (Decoder.list Decoder.size)).map .inputLayer
  | .denseLayer =>
    ((required "units" Decoder.size).both
      ((withDefault "activation" Activation.standard Activation.decode).both
        (withDefault "inputShape" none (Decoder.optional (Decoder.list Decoder.size))))).map
      fun (units, activation, inputShape) => .denseLayer units activation inputShape
  | .model =>
    ((withDefault "optimizer" Optimizer.standard Optimizer.decode).both
      ((withDefault "loss" Loss.standard Loss.decode).both
        (withDefault "learningRate" standardRate Decoder.float))).map
      fun (optimizer, loss, learningRate) => .model optimizer loss learningRate
  | .trainModel =>
    ((required "epochs" Decoder.size).both (required "batchSize" Decoder.size)).map
      fun (epochs, batchSize) => .trainModel epochs batchSize

def decode : Decoder NodeParams :=
  Decoder.tagBeside "type" "config"
    (NodeKind.cases.map fun (name, kind) => (name, (form kind).readObject))

end NodeParams

end RecipeGraph
