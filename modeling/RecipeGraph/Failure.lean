import RecipeGraph.Kind
import RecipeGraph.Params.Merge
import RecipeGraph.Shape

/-!
Why a layer cannot be built, a node not compiled, a model not trained, and a
request not carried out. The texts are what the editor shows.
-/

namespace RecipeGraph

/-- Faults of layers and models on the level of shapes. -/
inductive LayerFault where
  | emptyInput
  | noUnits
  | noFeatures
  | widthMismatch (incoming expected : Nat)
  | noInputs
  | notAnInput (name : String)
  | unrooted (name : String)
  | badLearningRate
deriving DecidableEq, Repr

def LayerFault.message : LayerFault → String
  | .emptyInput => "Input shape must be a non-empty list of positive integers"
  | .noUnits => "Dense layer needs at least one unit"
  | .noFeatures => "Input shape cannot be empty"
  | .widthMismatch incoming expected =>
    "Shape mismatch! Incoming connection has dimension " ++ toString incoming ++
      ", but Dense layer expects " ++ toString expected
  | .noInputs => "Model has no inputs"
  | .notAnInput name => "Model input '" ++ name ++ "' is not an input layer"
  | .unrooted name =>
    "Model output '" ++ name ++ "' does not descend from any model input"
  | .badLearningRate => "Learning rate must be a positive number"

def scheduleMessage : String :=
  "Epochs and batch size must be positive integers"

/-- Faults of fitting a model to data. -/
inductive FitFault where
  | emptySchedule
  | severalInputs
  | sampleCounts (x y : Nat)
  | featuresOfX (given expected : List Nat)
  | featuresOfY (given expected : List Nat)
deriving DecidableEq, Repr

def FitFault.message : FitFault → String
  | .emptySchedule => scheduleMessage
  | .severalInputs => "Training is only supported for single-input models"
  | .sampleCounts x y =>
    "X and Y must contain the same, non-zero number of samples (got " ++ toString x ++
      " and " ++ toString y ++ ")"
  | .featuresOfX given expected =>
    "X has feature shape " ++ showLengths given ++ ", but the model expects " ++
      showLengths expected
  | .featuresOfY given expected =>
    "Y has feature shape " ++ showLengths given ++ ", but the model outputs " ++
      showLengths expected

/-- Faults of compiling one node. -/
inductive CompileFault where
  | wrongKind (id : String) (kind expected : NodeKind)
  | undefinedValue
  | missingOperand (handle : String)
  | notANumber
  | wrongCount (count : Nat) (shape : List Nat) (needed : Nat)
  | noInput
  | noLayerOutput (id : String)
  | noLayers
  | danglingEdge (id : String)
  | emptySchedule
  | notTensorData (handle : String)
  | layer (fault : LayerFault)
  /-- What a compiler that is not built in has to say. -/
  | other (message : String)
deriving DecidableEq, Repr

/-- Faults of training that are not found before it is asked for. -/
inductive TrainingFault where
  | notTrainable (kind : NodeKind)
  | missingInputs
  | fit (fault : FitFault)
deriving DecidableEq, Repr

def TrainingFault.message : TrainingFault → String
  | .notTrainable kind => kind.name ++ " nodes cannot be trained"
  | .missingInputs => "Missing necessary inputs to train model."
  | .fit fault => fault.message

def nodeMissing (id : String) : String :=
  "node `" ++ id ++ "` not found"

def CompileFault.message : CompileFault → String
  | .wrongKind id kind expected =>
    "Node `" ++ id ++ "` is a " ++ kind.name ++ " node, expected " ++ expected.name
  | .undefinedValue => "Value is undefined"
  | .missingOperand handle => "Missing operand `" ++ handle ++ "`"
  | .notANumber => "Product is not a number"
  | .wrongCount count shape needed =>
    "Tensor has " ++ toString count ++ " values, but shape " ++ showLengths shape ++
      " needs " ++ toString needed
  | .noInput => "Dense layer has no input"
  | .noLayerOutput id => "`" ++ id ++ "` has no compiled layer output"
  | .noLayers => "Model has no layers connected"
  | .danglingEdge id => nodeMissing id
  | .emptySchedule => scheduleMessage
  | .notTensorData handle => "Input `" ++ handle ++ "` must carry tensor data"
  | .layer fault => fault.message
  | .other message => message

/-- Why a change or a request on a graph is refused. -/
inductive GraphError where
  | duplicateId (id : String)
  | nodeNotFound (id : String)
  | edgeNotFound (id : String)
  | invalidConnection (source target : String)
  | invalidNodeData (id : String) (fault : MergeFault)
  | cyclicGraph (ids : List String)
  | compileFailure (id : String) (fault : CompileFault)
  | trainingFailure (id : String) (fault : TrainingFault)
deriving Repr

def GraphError.message : GraphError → String
  | .duplicateId id => "a node with id `" ++ id ++ "` already exists"
  | .nodeNotFound id => nodeMissing id
  | .edgeNotFound id => "edge `" ++ id ++ "` not found"
  | .invalidConnection source target =>
    "invalid connection from `" ++ source ++ "` to `" ++ target ++ "`"
  | .invalidNodeData id fault => "invalid data for node `" ++ id ++ "`: " ++ fault.message
  | .cyclicGraph ids =>
    "graph contains a cycle through " ++ Text.bracketed (ids.map Text.quoted)
  | .compileFailure id fault => "compiling node `" ++ id ++ "` failed: " ++ fault.message
  | .trainingFailure id fault => "training node `" ++ id ++ "` failed: " ++ fault.message

end RecipeGraph
