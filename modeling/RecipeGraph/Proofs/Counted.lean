import RecipeGraph.Proofs.Results
import RecipeGraph.Proofs.Storing

/-!
# Counts of results

Compilers keep counts modulo `2^64`, and the fields of nodes come from documents, so the
counts of all results have 64 bits. The numbers of a result can be beyond what a document
holds, since a product of finite numbers can be infinite.
-/

namespace RecipeGraph

open Session (Operation Reached)

def TensorValue.isFinite (tensor : TensorValue) : Bool :=
  tensor.values.all (·.isFinite)

/-- All numbers of the result are finite. -/
def Artifact.isFinite : Artifact → Bool
  | .scalar x => x.isFinite
  | .tensor data => data.isFinite
  | .layer _ => true
  | .model built => built.learningRate.isFinite
  | .training setup => setup.model.all (·.learningRate.isFinite) &&
      (setup.x.all TensorValue.isFinite && setup.y.all TensorValue.isFinite)

def TensorValue.isCounted (tensor : TensorValue) : Bool :=
  tensor.shape.all Number.isCount

def ModelArtifact.isCounted (model : ModelArtifact) : Bool :=
  model.inputs.all SymbolicTensor.isWritable && model.output.isWritable

/-- All counts of the result have 64 bits. -/
def Artifact.isCounted : Artifact → Bool
  | .scalar _ => true
  | .tensor data => data.isCounted
  | .layer symbolic => symbolic.isWritable
  | .model built => built.isCounted
  | .training setup => setup.model.all ModelArtifact.isCounted &&
      (setup.x.all TensorValue.isCounted && setup.y.all TensorValue.isCounted &&
        (Number.isCount setup.epochs && Number.isCount setup.batchSize))

@[simp]
theorem Number.isCount_wrap (n : Nat) : isCount (wrap n) = true :=
  decide_eq_true (Nat.mod_lt n limit_pos)

/-- A document can hold a result exactly if its numbers are finite and its counts have 64
bits. -/
@[simp] theorem Artifact.isWritable_iff {artifact : Artifact} : artifact.isWritable = true ↔
    artifact.isFinite = true ∧ artifact.isCounted = true := by
  cases artifact with
  | scalar x => simp [isWritable, isFinite, isCounted]
  | tensor data =>
    simp [isWritable, isFinite, isCounted, TensorValue.isWritable, TensorValue.isFinite,
      TensorValue.isCounted, and_comm]
  | layer symbolic => simp [isWritable, isFinite, isCounted]
  | model built =>
    simp [isWritable, isFinite, isCounted, ModelArtifact.isWritable, ModelArtifact.isCounted]
    tauto
  | training setup =>
    obtain ⟨model, x, y, epochs, batchSize⟩ := setup
    have tensor : ∀ data : Option TensorValue, data.all TensorValue.isWritable = true ↔
        data.all TensorValue.isFinite = true ∧ data.all TensorValue.isCounted = true := by
      intro data
      cases data with
      | none => simp
      | some data =>
        simp [TensorValue.isWritable, TensorValue.isFinite, TensorValue.isCounted, and_comm]
    have built : model.all ModelArtifact.isWritable = true ↔
        model.all (·.learningRate.isFinite) = true ∧ model.all ModelArtifact.isCounted = true := by
      cases model with
      | none => simp
      | some built =>
        simp [ModelArtifact.isWritable, ModelArtifact.isCounted]
        tauto
    simp only [isWritable, isFinite, isCounted, TrainingSetup.isWritable, Bool.and_eq_true, tensor,
      built]
    tauto

theorem DenseConfig.propagate_ok {config : DenseConfig} {shape behind : Shape}
    (propagated : config.propagate shape = .ok behind) :
    behind = shape.dropLast ++ [.fixed config.units] := by
  unfold propagate at propagated
  split at propagated
  · cases propagated
  · split at propagated
    · split at propagated
      · split at propagated
        · exact (Except.ok.inj propagated).symm
        · cases propagated
      · exact (Except.ok.inj propagated).symm
    · cases propagated

theorem ModelArtifact.assemble_ok {name : String} {inputs : List SymbolicTensor}
    {output : SymbolicTensor} {config : ModelConfig} {model : ModelArtifact}
    (assembled : assemble name inputs output config = .ok model) :
    model.inputs = inputs ∧ model.output = output := by
  unfold assemble at assembled
  split at assembled
  · cases assembled
  · split at assembled
    · cases assembled
    · split at assembled
      · cases assembled
      · split at assembled
        · cases assembled
        · cases assembled
          exact ⟨rfl, rfl⟩

/-- The nodes of a boundary are nodes of the graph. -/
theorem Graph.mem_of_boundary {graph : Graph} {id handle : String} {boundary : Boundary}
    (behind : graph.boundary id handle = .ok (some boundary)) :
    (∀ node ∈ boundary.inputs, node ∈ graph.nodes) ∧
      graph.inputNode? id handle = some boundary.output := by
  unfold Graph.boundary at behind
  obtain ⟨node, -, walked⟩ := Outcome.bind_eq_ok.mp behind
  split at walked
  · cases walked
  · next output plugged =>
    obtain ⟨inputs, collected, same⟩ := Outcome.bind_eq_ok.mp walked
    cases same
    exact ⟨fun node member => mem_of_node? (node?_of_mem_nodesOf collected member), plugged⟩

/-- Documents can hold the fields and the position, and the counts of the result. -/
structure Node.Counted (node : Node) : Prop where
  documented : node.Documented
  result : node.data.output.all Artifact.isCounted = true

namespace Node

/-- What has been left on a node is nothing that documents give. -/
theorem Documented.leaving {node : Node} (documented : node.Documented) (data : NodeData) :
    Documented { node with data } :=
  ⟨documented.params, documented.position, documented.numbers⟩

theorem counted_fresh {node : Node} (documented : node.Documented) : node.fresh.Counted :=
  ⟨Node.documented_fresh.mpr documented, rfl⟩

theorem counted_lasting : Node.Lasting Counted where
  uncompiled node had := ⟨Node.documented_lasting.uncompiled node had.documented, rfl⟩
  unbound node handle had := ⟨Node.documented_lasting.unbound node handle had.documented, had.result⟩
  bound node handle source had given :=
    ⟨Node.documented_lasting.bound node handle source had.documented given.documented, had.result⟩

theorem Counted.isCounted {node : Node} (counted : node.Counted) {artifact : Artifact}
    (output : node.data.output = some artifact) : artifact.isCounted = true := by
  have result := counted.result
  rw [output] at result
  exact result

/-- A document can hold the node as long as the numbers of its result are finite. -/
theorem Counted.isWritable {node : Node} (counted : node.Counted)
    (finite : node.data.output.all Artifact.isFinite = true) : node.isWritable = true := by
  have result : node.data.isWritable = true := by
    unfold NodeData.isWritable
    cases output : node.data.output with
    | none => rfl
    | some artifact =>
      rw [output] at finite
      exact Artifact.isWritable_iff.mpr ⟨finite, counted.isCounted output⟩
  exact Bool.and_eq_true_iff.mpr ⟨counted.documented.params,
    Bool.and_eq_true_iff.mpr ⟨counted.documented.position, result⟩⟩

section

variable {graph : Graph} {node : Node} {artifact : Artifact}

@[simp]
theorem ofLayer_eq_ok {made : Except LayerFault α} {result : α} :
    ofLayer made = .ok result ↔ made = .ok result := by
  cases made <;> simp [ofLayer]

theorem isCounted_layerOutput {source : Node} (counted : source.Counted) {tensor : SymbolicTensor}
    (given : source.layerOutput = .ok tensor) : tensor.isWritable = true :=
  counted.isCounted (output_of_layerOutput given)

theorem isCounted_layerOutputs {sources : List Node} (counted : ∀ node ∈ sources, node.Counted)
    {tensors : List SymbolicTensor} (given : layerOutputs sources = .ok tensors) :
    tensors.all SymbolicTensor.isWritable = true := by
  induction sources generalizing tensors with
  | nil =>
    cases given
    rfl
  | cons source rest ih =>
    obtain ⟨tensor, first, later⟩ := Outcome.bind_eq_ok.mp given
    obtain ⟨others, rest_given, made⟩ := Outcome.bind_eq_ok.mp later
    cases made
    refine Bool.and_eq_true_iff.mpr ⟨?_, ?_⟩
    · exact isCounted_layerOutput (counted source List.mem_cons_self) first
    · exact ih (fun node member => counted node (List.mem_cons_of_mem _ member)) rest_given

theorem counted_of_inputNode? (each : graph.Every Counted) {id handle : String} {source : Node}
    (plugged : graph.inputNode? id handle = some source) : source.Counted := by
  unfold Graph.inputNode? at plugged
  split at plugged
  · exact each source (Graph.mem_of_node? plugged)
  · cases plugged

theorem isCounted_inputOutput? (each : graph.Every Counted) {id handle : String}
    (given : graph.inputOutput? id handle = some artifact) : artifact.isCounted = true := by
  unfold Graph.inputOutput? at given
  split at given
  · next source plugged => exact (counted_of_inputNode? each plugged).isCounted given
  · cases given

theorem isCounted_compileValue (made : node.compileValue = .ok artifact) :
    artifact.isCounted = true := by
  unfold compileValue at made
  split at made
  · split at made
    · cases made
    · cases made
      rfl
  · cases made
  · cases made

theorem isCounted_compileMultiply (made : node.compileMultiply graph = .ok artifact) :
    artifact.isCounted = true := by
  unfold compileMultiply at made
  split at made
  · obtain ⟨left, _, later⟩ := Outcome.bind_eq_ok.mp made
    obtain ⟨right, _, product⟩ := Outcome.bind_eq_ok.mp later
    simp only at product
    split at product
    · cases product
    · cases product
      rfl
  · cases made

theorem isCounted_compileTensor (here : node.Counted) (made : node.compileTensor = .ok artifact) :
    artifact.isCounted = true := by
  have fields := here.documented.params
  unfold compileTensor at made
  split at made
  · next values shape params =>
    rw [params] at fields
    split at made
    · cases made
      exact (Bool.and_eq_true_iff.mp fields).2
    · cases made
  · cases made

theorem isCounted_compileInput (here : node.Counted) (made : node.compileInput = .ok artifact) :
    artifact.isCounted = true := by
  have fields := here.documented.params
  unfold compileInput SymbolicTensor.input at made
  split at made
  · next features params =>
    rw [params] at fields
    split at made
    · cases made
    · cases made
      have axes : (Shape.batched features).all Dim.isWritable = true := by
        simpa [Shape.batched, NodeParams.isWritable, Dim.isWritable] using fields
      simp [Artifact.isCounted, SymbolicTensor.isWritable, LayerSpec.isWritable,
        LayerKind.isWritable, Number.isCount, Number.limit_pos, axes]
  · cases made

theorem isCounted_dense {tensor built : SymbolicTensor} (earlier : tensor.isWritable = true)
    {name : String} {config : DenseConfig} (units : Number.isCount config.units = true)
    (made : tensor.dense name config = .ok built) : built.isWritable = true := by
  obtain ⟨shape, propagated, same⟩ := Outcome.bind_eq_ok.mp made
  obtain ⟨shapes, layers⟩ := Bool.and_eq_true_iff.mp earlier
  have dropped : tensor.shape.dropLast.all Dim.isWritable = true :=
    List.all_eq_true.mpr fun axis member =>
      List.all_eq_true.mp shapes axis (List.dropLast_subset _ member)
  have given : shape.all Dim.isWritable = true := by
    rw [DenseConfig.propagate_ok propagated, List.all_append, dropped]
    simpa [Dim.isWritable] using units
  cases same
  simp [SymbolicTensor.isWritable, LayerSpec.isWritable, LayerKind.isWritable, given, layers, units]

theorem isCounted_compileDense (each : graph.Every Counted) (here : node.Counted)
    (made : node.compileDense graph = .ok artifact) : artifact.isCounted = true := by
  have fields := here.documented.params
  unfold compileDense at made
  split at made
  · next units activation declared params =>
    rw [params] at fields
    split at made
    · cases made
    · next source plugged =>
      obtain ⟨tensor, given, built⟩ := Outcome.bind_eq_ok.mp made
      have earlier := isCounted_layerOutput (counted_of_inputNode? each plugged) given
      obtain ⟨layer, appended, rfl⟩ := Outcome.map_eq_ok.mp built
      exact isCounted_dense earlier (Bool.and_eq_true_iff.mp fields).1 (ofLayer_eq_ok.mp appended)
  · cases made

theorem isCounted_compileModel (each : graph.Every Counted)
    (made : node.compileModel graph = .ok artifact) : artifact.isCounted = true := by
  unfold compileModel at made
  split at made
  · split at made
    · cases made
    · cases made
    · cases made
    · next boundary behind =>
      obtain ⟨inputs, given, later⟩ := Outcome.bind_eq_ok.mp made
      obtain ⟨output, last, built⟩ := Outcome.bind_eq_ok.mp later
      obtain ⟨nodes, plugged⟩ := Graph.mem_of_boundary behind
      obtain ⟨model, assembled, rfl⟩ := Outcome.map_eq_ok.mp built
      obtain ⟨same, same'⟩ := ModelArtifact.assemble_ok (ofLayer_eq_ok.mp assembled)
      change (model.inputs.all SymbolicTensor.isWritable && model.output.isWritable) = true
      rw [same, same', isCounted_layerOutputs (fun node member => each node (nodes node member)) given,
        isCounted_layerOutput (counted_of_inputNode? each plugged) last]
      rfl
  · cases made

theorem isCounted_trainingData (each : graph.Every Counted) {handle : String}
    {data : Option TensorValue} (given : node.trainingData graph handle = .ok data) :
    data.all TensorValue.isCounted = true := by
  unfold trainingData at given
  split at given
  · cases given
    rfl
  · next tensor arrives =>
    cases given
    exact isCounted_inputOutput? each arrives
  · cases given
    rfl
  · cases given

theorem isCounted_trainingModel (each : graph.Every Counted) :
    (node.trainingModel graph).all ModelArtifact.isCounted = true := by
  unfold trainingModel
  split
  · next model arrives => exact isCounted_inputOutput? each arrives
  · rfl

theorem isCounted_compileTraining (each : graph.Every Counted) (here : node.Counted)
    (made : node.compileTraining graph = .ok artifact) : artifact.isCounted = true := by
  have fields := here.documented.params
  unfold compileTraining at made
  split at made
  · next epochs batchSize params =>
    rw [params] at fields
    split at made
    · cases made
    · obtain ⟨x, given, later⟩ := Outcome.bind_eq_ok.mp made
      obtain ⟨y, given', same⟩ := Outcome.bind_eq_ok.mp later
      cases same
      simp only [Artifact.isCounted, isCounted_trainingModel each, isCounted_trainingData each given,
        isCounted_trainingData each given', Bool.true_and]
      exact fields
  · cases made

/-- Every compiler that is built in gives results whose counts have 64 bits. -/
theorem isCounted_compileAs (builtin : NodeKind) (each : graph.Every Counted) (here : node.Counted)
    (made : node.compileAs builtin graph = .ok artifact) : artifact.isCounted = true := by
  cases builtin with
  | value => exact isCounted_compileValue made
  | multiply => exact isCounted_compileMultiply made
  | tensor => exact isCounted_compileTensor here made
  | inputLayer => exact isCounted_compileInput here made
  | denseLayer => exact isCounted_compileDense each here made
  | model => exact isCounted_compileModel each made
  | trainModel => exact isCounted_compileTraining each here made

end

theorem counted_uphold (registry : Registry) : registry.compilers.Uphold Counted where
  settled each member served made := by
    obtain ⟨builtin, -, rfl⟩ := Registry.serving_eq_some.mp served
    have here := each _ member
    exact ⟨here.documented.leaving _, isCounted_compileAs builtin each here made⟩
  failed _ _ had := ⟨had.documented.leaving _, had.result⟩

end Node

namespace Session

theorem Operation.ReadFrom.brings_counted {text : String} {operation : Operation}
    (read : operation.ReadFrom text) : operation.Brings Node.Counted := by
  have documented := read.brings_documented
  cases operation with
  | load graph => exact fun node member => ⟨documented node member, rfl⟩
  | addNode node => exact ⟨documented, rfl⟩
  | updateNode id patch =>
    intro node patched had fits
    refine ⟨documented node patched had.documented fits, ?_⟩
    rw [(Node.patched_ok fits).output, (read.ofDocument : patch.OfDocument).2.2.1]
    exact had.result
  | _ => trivial

theorem Reached.counted {registry : Registry} {session : Session}
    (reached : Reached registry (fun operation => operation.Brings Node.Counted) session) :
    session.store.Every Node.Counted := by
  have given : (Operation.load starterGraph).Brings Node.Counted :=
    fun node member => Node.counted_fresh (documented_starterGraph node member)
  refine reached.keeps (fun _ member => nomatch member) given fun earlier brings counted => ?_
  exact every_apply Node.counted_lasting (Node.counted_uphold registry)
    (fun _ _ _ had => ⟨had.documented.leaving _, had.result⟩) earlier.wellFormed counted brings

end Session

/-- The counts of all that a service stores have 64 bits. -/
theorem Service.counted_nodes (registry : Registry) (scaffold : Bool) (requests : List Request) :
    ((start registry scaffold).answerAll requests).2.graph.Every Node.Counted :=
  (answerAll_reached (fun _ _ read => read.brings_counted) scaffold requests).counted

end RecipeGraph
