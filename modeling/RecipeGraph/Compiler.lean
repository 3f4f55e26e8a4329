import RecipeGraph.Ancestry.Boundary
import RecipeGraph.Layers

/-!
Compiling single nodes.

A compiler reads the outputs of other nodes and writes nothing. Any function of
the graph and the node can be one. The compilers that are built in are made for
one kind each and refuse nodes of another; a registry says which of them serves
which kind.
-/

namespace RecipeGraph

abbrev Compiler := Graph → Node → Except CompileFault Artifact

/-- The compiler that serves a kind, if there is one. -/
structure Compilers where
  serving : NodeKind → Option Compiler

/-- The built-in compiler for every kind, named by the kind it is made for. -/
abbrev Registry := NodeKind → Option NodeKind

namespace Registry

def standard : Registry := some

/-- The registry that lists these kinds with their compilers; of two entries
for a kind the last counts. -/
def ofList (entries : List (NodeKind × NodeKind)) : Registry :=
  fun kind => entries.reverse.lookup kind

end Registry

/-- Output of the node plugged into a handle. -/
def Graph.inputOutput? (graph : Graph) (id handle : String) : Option Artifact :=
  match graph.inputNode? id handle with
  | some source => source.data.output
  | none => none

namespace Node

def layerOutput (source : Node) : Except CompileFault SymbolicTensor :=
  match source.data.output with
  | some (.layer tensor) => .ok tensor
  | _ => .error (.noLayerOutput source.id)

def layerOutputs : List Node → Except CompileFault (List SymbolicTensor)
  | [] => .ok []
  | source :: rest => do
    let tensor ← source.layerOutput
    let tensors ← layerOutputs rest
    return tensor :: tensors

def wrongKind (node : Node) (expected : NodeKind) : CompileFault :=
  .wrongKind node.id node.kind expected

def compileValue (node : Node) : Except CompileFault Artifact :=
  match node.params with
  | .value (some x) => if x.isNaN then .error .undefinedValue else .ok (.scalar x)
  | .value none => .error .undefinedValue
  | _ => .error (node.wrongKind .value)

/-- An operand is the number that arrives on the handle, or else the remembered
literal. -/
def operand (graph : Graph) (node : Node) (handle : String) (held : Option Float) :
    Except CompileFault Float :=
  match graph.inputOutput? node.id handle, held with
  | some (.scalar x), _ => .ok x
  | _, some x => .ok x
  | _, none => .error (.missingOperand handle)

def compileMultiply (graph : Graph) (node : Node) : Except CompileFault Artifact :=
  match node.params with
  | .multiply a b => do
    let left ← node.operand graph Handle.a a
    let right ← node.operand graph Handle.b b
    let product := left * right
    if product.isNaN then .error .notANumber else return .scalar product
  | _ => .error (node.wrongKind .multiply)

/-- Number of places of a shape. -/
def volume (shape : List Nat) : Nat :=
  shape.foldl (fun count length => Number.wrap (count * length)) 1

def compileTensor (node : Node) : Except CompileFault Artifact :=
  match node.params with
  | .tensor values shape =>
    if values.length = volume shape then .ok (.tensor ⟨shape, values⟩)
    else .error (.wrongCount values.length shape (volume shape))
  | _ => .error (node.wrongKind .tensor)

def ofLayer : Except LayerFault α → Except CompileFault α
  | .ok a => .ok a
  | .error fault => .error (.layer fault)

def compileInput (node : Node) : Except CompileFault Artifact :=
  match node.params with
  | .inputLayer shape => (ofLayer (SymbolicTensor.input node.id shape)).map .layer
  | _ => .error (node.wrongKind .inputLayer)

def compileDense (graph : Graph) (node : Node) : Except CompileFault Artifact :=
  match node.params with
  | .denseLayer units activation inputShape =>
    match graph.inputNode? node.id Handle.input with
    | none => .error .noInput
    | some source => do
      let tensor ← source.layerOutput
      let config := ⟨units, activation, inputShape⟩
      (ofLayer (tensor.dense node.id config)).map .layer
  | _ => .error (node.wrongKind .denseLayer)

def compileModel (graph : Graph) (node : Node) : Except CompileFault Artifact :=
  match node.params with
  | .model optimizer loss learningRate =>
    match graph.boundary node.id Handle.input with
    | .error (.nodeNotFound id) => .error (.danglingEdge id)
    | .error _ => .error .noLayers
    | .ok none => .error .noLayers
    | .ok (some boundary) => do
      let inputs ← layerOutputs boundary.inputs
      let output ← boundary.output.layerOutput
      let config := ⟨optimizer, loss, learningRate⟩
      (ofLayer (ModelArtifact.assemble node.id inputs output config)).map .model
  | _ => .error (node.wrongKind .model)

/-- Data on a handle of a training node. A number counts as one sample. -/
def trainingData (graph : Graph) (node : Node) (handle : String) :
    Except CompileFault (Option TensorValue) :=
  match graph.inputOutput? node.id handle with
  | none => .ok none
  | some (.tensor tensor) => .ok (some tensor)
  | some (.scalar x) => .ok (some ⟨[1], [x]⟩)
  | some _ => .error (.notTensorData handle)

def trainingModel (graph : Graph) (node : Node) : Option ModelArtifact :=
  match graph.inputOutput? node.id Handle.model with
  | some (.model model) => some model
  | _ => none

/-- Gathers what is there for training. What is missing is found when training
is asked for. -/
def compileTraining (graph : Graph) (node : Node) : Except CompileFault Artifact :=
  match node.params with
  | .trainModel epochs batchSize =>
    if epochs = 0 || batchSize = 0 then .error .emptySchedule
    else do
      let x ← node.trainingData graph Handle.x
      let y ← node.trainingData graph Handle.y
      return .training ⟨node.trainingModel graph, x, y, epochs, batchSize⟩
  | _ => .error (node.wrongKind .trainModel)

/-- Compiles a node with the compiler made for a kind. -/
def compileAs (compiler : NodeKind) (graph : Graph) (node : Node) : Except CompileFault Artifact :=
  match compiler with
  | .value => node.compileValue
  | .multiply => node.compileMultiply graph
  | .tensor => node.compileTensor
  | .inputLayer => node.compileInput
  | .denseLayer => node.compileDense graph
  | .model => node.compileModel graph
  | .trainModel => node.compileTraining graph

end Node

/-- The compilers that a registry names. -/
def Registry.compilers (registry : Registry) : Compilers where
  serving kind := (registry kind).map Node.compileAs

instance : Coe Registry Compilers :=
  ⟨Registry.compilers⟩

end RecipeGraph
