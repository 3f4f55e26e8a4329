import RecipeGraph.Proofs.Freshness
import RecipeGraph.Proofs.Lineage

/-!
# What results hold

A result is of the sort that belongs to the kind of its node. Layers are the lineage that
the graph describes, and models and training setups are built from such layers. Compilers
guard against inputs that a run never gives them.
-/

namespace RecipeGraph

open Relation (TransGen)

/-- There is a value for every place of the shape, with the places counted in some way. -/
def TensorValue.Full (keep : Nat → Nat) (tensor : TensorValue) : Prop :=
  tensor.values.length = keep tensor.shape.prod

theorem Node.output_of_layerOutput {source : Node} {tensor : SymbolicTensor}
    (given : source.layerOutput = .ok tensor) : source.data.output = some (.layer tensor) := by
  unfold layerOutput at given
  split at given
  · next output =>
    cases given
    exact output
  · cases given

namespace Graph

/-- Nothing arrives on a free handle, and what is plugged into a handle gives something
that fits. -/
inductive Arrives {α : Type} (graph : Graph) (id handle : String) (fits : String → α → Prop) :
    Option α → Prop
  | nothing (free : graph.plugged id handle = none) : Arrives graph id handle fits none
  | something {source : String} {given : α} (plugged : graph.plugged id handle = some source)
      (fit : fits source given) : Arrives graph id handle fits (some given)

/-- The tensor has the shape of its node, with a value for every place and no others. -/
structure DescribesTensor (graph : Graph) (keep : Nat → Nat) (id : String) (tensor : TensorValue) :
    Prop where
  fields : ∃ held, graph.params? id = some (.tensor held tensor.shape) ∧
    held.length = tensor.values.length
  full : tensor.Full keep

/-- What a node gives as data is its tensor, or its number as a single sample. -/
inductive Supplies (graph : Graph) (keep : Nat → Nat) (id : String) : TensorValue → Prop
  | tensor {tensor : TensorValue} (described : graph.DescribesTensor keep id tensor) :
      Supplies graph keep id tensor
  | number {kind : NodeKind} (known : graph.kind? id = some kind)
      (produces : kind.producesValue = true) (x : Float) : Supplies graph keep id ⟨[1], [x]⟩

/-- The model is what its node builds on the layers of the graph: from the one input layer
of the chain to the node plugged in. -/
structure DescribesModel (graph : Graph) (keep : Nat → Nat) (id : String) (model : ModelArtifact) :
    Prop where
  name : model.name = id
  output : ∃ source, graph.plugged id Handle.input = some source ∧
    graph.Flows keep source model.output
  inputs : ∃ root input, model.output.root = some root ∧
    graph.kind? root = some .inputLayer ∧ graph.Flows keep root input ∧ model.inputs = [input]
  fields : ∃ rate, graph.params? id = some (.model model.optimizer model.loss rate) ∧
    (rate == model.learningRate) = true
  rate : ModelArtifact.isRate model.learningRate = true

/-- The setup is what is plugged into the handles of its node. -/
structure DescribesTraining (graph : Graph) (keep : Nat → Nat) (id : String)
    (setup : TrainingSetup) : Prop where
  fields : graph.params? id = some (.trainModel setup.epochs setup.batchSize)
  epochs : 0 < setup.epochs
  batchSize : 0 < setup.batchSize
  model : graph.Arrives id Handle.model (graph.DescribesModel keep) setup.model
  x : graph.Arrives id Handle.x (graph.Supplies keep) setup.x
  y : graph.Arrives id Handle.y (graph.Supplies keep) setup.y

/-- The result is one that a node of the kind can have in the graph, with counts kept in
some way. -/
inductive Fits (graph : Graph) (keep : Nat → Nat) (id : String) : NodeKind → Artifact → Prop
  | value (x : Float) : Fits graph keep id .value (.scalar x)
  | multiply (x : Float) : Fits graph keep id .multiply (.scalar x)
  | tensor {tensor : TensorValue} (described : graph.DescribesTensor keep id tensor) :
      Fits graph keep id .tensor (.tensor tensor)
  | inputLayer {tensor : SymbolicTensor} (flows : graph.Flows keep id tensor) :
      Fits graph keep id .inputLayer (.layer tensor)
  | denseLayer {tensor : SymbolicTensor} (flows : graph.Flows keep id tensor) :
      Fits graph keep id .denseLayer (.layer tensor)
  | model {model : ModelArtifact} (described : graph.DescribesModel keep id model) :
      Fits graph keep id .model (.model model)
  | trainModel {setup : TrainingSetup} (described : graph.DescribesTraining keep id setup) :
      Fits graph keep id .trainModel (.training setup)

variable {graph left right : Graph} {keep : Nat → Nat} {id source handle : String}

theorem Arrives.imp {α : Type} {fits fits' : String → α → Prop} {given : Option α}
    (same : left.plugged id handle = right.plugged id handle)
    (each : ∀ source a, left.Feeds source id → fits source a → fits' source a)
    (arrives : left.Arrives id handle fits given) : right.Arrives id handle fits' given := by
  cases arrives with
  | nothing free => exact .nothing (same ▸ free)
  | something plugged fit =>
    exact .something (same ▸ plugged) (each _ _ (feeds_of_plugged plugged) fit)

theorem DescribesTensor.congr (alike : left.AlikeAt right id) {tensor : TensorValue}
    (described : left.DescribesTensor keep id tensor) : right.DescribesTensor keep id tensor := by
  obtain ⟨held, fields, count⟩ := described.fields
  refine ⟨?_, described.full⟩
  obtain ⟨other, there, rfl | equal⟩ := alike.fields _ fields rfl
  · exact ⟨held, there, count⟩
  · cases NodeParams.beq_iff.mp equal with
    | tensor _ values => exact ⟨_, there, (List.length_eq_of_beq values).symm.trans count⟩

theorem Supplies.congr (alike : left.AlikeAt right id) {tensor : TensorValue}
    (supplies : left.Supplies keep id tensor) : right.Supplies keep id tensor := by
  cases supplies with
  | tensor described => exact .tensor (described.congr alike)
  | number known produces x => exact .number (alike.kind ▸ known) produces x

theorem DescribesModel.congr (alike : left.AlikeUpstream right id) {model : ModelArtifact}
    (described : left.DescribesModel keep id model) : right.DescribesModel keep id model := by
  obtain ⟨source, plugged, flows⟩ := described.output
  obtain ⟨root, input, head, kind, flows', inputs⟩ := described.inputs
  obtain ⟨rate, fields, equal⟩ := described.fields
  have here := alike id .refl
  have behind := alike.upstream (.single (feeds_of_plugged plugged))
  have above := behind.upstream (flows.reaches_root head)
  exact {
    name := described.name
    output := ⟨source, here.plugged _ ▸ plugged, flows.congr behind⟩
    inputs := ⟨root, input, head, (above root .refl).kind ▸ kind, flows'.congr above, inputs⟩
    fields := by
      obtain ⟨other, there, rfl | same⟩ := here.fields _ fields rfl
      · exact ⟨rate, there, equal⟩
      · cases NodeParams.beq_iff.mp same with
        | model _ _ rates => exact ⟨_, there, BEq.trans (BEq.symm rates) equal⟩
    rate := described.rate }

theorem DescribesTraining.congr (alike : left.AlikeUpstream right id) {setup : TrainingSetup}
    (described : left.DescribesTraining keep id setup) :
    right.DescribesTraining keep id setup := by
  have here := alike id .refl
  exact {
    fields := here.trainModel described.fields
    epochs := described.epochs
    batchSize := described.batchSize
    model := described.model.imp (here.plugged _) fun _ _ feeds fit =>
      fit.congr (alike.upstream (.single feeds))
    x := described.x.imp (here.plugged _) fun _ _ feeds fit => fit.congr (alike _ (.single feeds))
    y := described.y.imp (here.plugged _) fun _ _ feeds fit => fit.congr (alike _ (.single feeds)) }

/-- What fits a node fits it in all graphs that build the same. -/
theorem Fits.congr (alike : left.AlikeUpstream right id) {kind : NodeKind} {value : Artifact}
    (fits : left.Fits keep id kind value) : right.Fits keep id kind value := by
  cases fits with
  | value x => exact .value x
  | multiply x => exact .multiply x
  | tensor described => exact .tensor (described.congr (alike id .refl))
  | inputLayer flows => exact .inputLayer (flows.congr alike)
  | denseLayer flows => exact .denseLayer (flows.congr alike)
  | model described => exact .model (described.congr alike)
  | trainModel described => exact .trainModel (described.congr alike)

theorem Fits.of_blank (same : left.blank = right.blank) {kind : NodeKind} {value : Artifact}
    (fits : left.Fits keep id kind value) : right.Fits keep id kind value :=
  fits.congr fun member _ => alikeAt_of_blank same member

theorem DescribesTensor.exact (roomy : graph.Roomy) {tensor : TensorValue}
    (described : graph.DescribesTensor Number.wrap id tensor) :
    graph.DescribesTensor Number.exact id tensor := by
  obtain ⟨held, fields, count⟩ := described.fields
  refine ⟨⟨held, fields, count⟩, described.full.trans ?_⟩
  exact Number.wrap_of_lt (roomy.places _ _ _ fields)

theorem Supplies.exact (roomy : graph.Roomy) {tensor : TensorValue}
    (supplies : graph.Supplies Number.wrap id tensor) : graph.Supplies Number.exact id tensor := by
  cases supplies with
  | tensor described => exact .tensor (described.exact roomy)
  | number known produces x => exact .number known produces x

theorem DescribesModel.exact (roomy : graph.Roomy) {model : ModelArtifact}
    (described : graph.DescribesModel Number.wrap id model) :
    graph.DescribesModel Number.exact id model := by
  obtain ⟨source, plugged, flows⟩ := described.output
  obtain ⟨root, input, head, kind, flows', inputs⟩ := described.inputs
  exact {
    name := described.name
    output := ⟨source, plugged, flows.exact roomy⟩
    inputs := ⟨root, input, head, kind, flows'.exact roomy, inputs⟩
    fields := described.fields
    rate := described.rate }

/-- Where no count goes beyond 64 bits, what fits with counts modulo `2^64` fits exactly. -/
theorem Fits.exact (roomy : graph.Roomy) {kind : NodeKind} {value : Artifact}
    (fits : graph.Fits Number.wrap id kind value) : graph.Fits Number.exact id kind value := by
  cases fits with
  | value x => exact .value x
  | multiply x => exact .multiply x
  | tensor described => exact .tensor (described.exact roomy)
  | inputLayer flows => exact .inputLayer (flows.exact roomy)
  | denseLayer flows => exact .denseLayer (flows.exact roomy)
  | model described => exact .model (described.exact roomy)
  | trainModel described =>
    exact .trainModel {
      fields := described.fields
      epochs := described.epochs
      batchSize := described.batchSize
      model := described.model.imp rfl fun _ _ _ fit => fit.exact roomy
      x := described.x.imp rfl fun _ _ _ fit => fit.exact roomy
      y := described.y.imp rfl fun _ _ _ fit => fit.exact roomy }

/-- A node whose kind produces layers holds what flows out of it. -/
theorem Fits.flows {kind : NodeKind} {value : Artifact} (fits : graph.Fits keep id kind value)
    (produces : kind.producesLayer = true) :
    ∃ tensor, value = .layer tensor ∧ graph.Flows keep id tensor := by
  cases fits with
  | inputLayer flows => exact ⟨_, rfl, flows⟩
  | denseLayer flows => exact ⟨_, rfl, flows⟩
  | _ => cases produces

theorem Fits.layer {kind : NodeKind} {tensor : SymbolicTensor}
    (fits : graph.Fits keep id kind (.layer tensor)) : graph.Flows keep id tensor := by
  cases fits with
  | inputLayer flows => exact flows
  | denseLayer flows => exact flows

theorem Fits.described {kind : NodeKind} {setup : TrainingSetup}
    (fits : graph.Fits keep id kind (.training setup)) : graph.DescribesTraining keep id setup := by
  cases fits with
  | trainModel described => exact described

end Graph

end RecipeGraph
