import RecipeGraph.Proofs.Upstream

/-!
# Equal inputs give equal results

A node compiles in one graph as it does in another, to an equal result or to the same
fault, if the graphs look the same from the node and hold equal results at everything
that leads to it.
-/

namespace RecipeGraph

open Relation (ReflTransGen TransGen)
open Outcome (Agrees)

namespace Graph

/-- The node is in both graphs, with equal results. -/
def SameOutput (left right : Graph) (id : String) : Prop :=
  ∃ a b, left.node? id = some a ∧ right.node? id = some b ∧
    (a.data.output == b.data.output) = true

/-- The graphs show a compiler of the node the same. What is plugged into a
product has to be a number, or the product would look at its fields. -/
structure SameInputs (left right : Graph) (id : String) : Prop where
  upstream : left.SameUpstream right id
  outputs : ∀ member, TransGen left.Feeds member id → left.SameOutput right member
  scalars : left.kind? id = some .multiply → ∀ source, left.Feeds source id →
    ∃ node x, left.node? source = some node ∧ node.data.output = some (.scalar x)

end Graph

/-- Equal outputs show the same layer, or neither of them shows one. -/
theorem Node.layerOutput_agrees {source other : Node} (named : other.id = source.id)
    (same : (source.data.output == other.data.output) = true) :
    Agrees Eq source.layerOutput other.layerOutput := by
  unfold layerOutput
  rw [named]
  cases found : source.data.output with
  | none =>
    rw [found] at same
    rw [option_beq_none (BEq.symm same)]
    exact .error _
  | some artifact =>
    rw [found] at same
    obtain ⟨artifact', found', turned⟩ := option_beq_some (BEq.symm same)
    rw [found']
    cases Artifact.beq_iff.mp turned with
    | layer tensor => exact .ok rfl
    | _ => exact .error _

namespace Graph.SameInputs

variable {left right : Graph} {id : String} {a b : Node}

theorem here (inputs : left.SameInputs right id) (found : left.node? id = some a)
    (there : right.node? id = some b) :
    left.SameAt right id ∧ b.id = a.id ∧
      (a.params.unfed (left.fed id)).Matches (b.params.unfed (left.fed id)) := by
  have same := inputs.upstream id .refl
  obtain ⟨a', b', found', there', equal⟩ := same.params
  cases found.symm.trans found'
  cases there.symm.trans there'
  refine ⟨same, ?_, NodeParams.beq_iff.mp equal⟩
  rw [id_of_node? there, id_of_node? found]

/-- The same is plugged into a handle on both sides, or nothing. -/
theorem plugged_cases (inputs : left.SameInputs right id) (handle : String) :
    (left.fed id handle = false ∧ left.inputNode? id handle = none ∧
      right.inputNode? id handle = none) ∨
    ∃ source node other, left.Feeds source id ∧
      left.node? source = some node ∧ right.node? source = some other ∧
      left.inputNode? id handle = some node ∧ right.inputNode? id handle = some other ∧
      (node.data.output == other.data.output) = true := by
  have there := (inputs.upstream id .refl).plugged handle
  unfold fed
  rw [inputNode?_eq_bind, inputNode?_eq_bind, ← there]
  cases plugged : left.plugged id handle with
  | none => exact .inl ⟨rfl, rfl, rfl⟩
  | some source =>
    have feeds := feeds_of_plugged plugged
    obtain ⟨node, other, found, found', same⟩ := inputs.outputs source (.single feeds)
    exact .inr ⟨source, node, other, feeds, found, found', found, found', same⟩

theorem inputOutput?_beq (inputs : left.SameInputs right id) (handle : String) :
    (left.inputOutput? id handle == right.inputOutput? id handle) = true := by
  unfold inputOutput?
  rcases inputs.plugged_cases handle with ⟨_, nothing, nothing'⟩ |
    ⟨_, node, other, _, _, _, found, found', same⟩
  · rw [nothing, nothing']
    rfl
  · rw [found, found']
    exact same

end Graph.SameInputs

namespace Node

open RecipeGraph.Graph

variable {left right : Graph} {id : String} {a b : Node}

/-- Compiles that end with equal results or with the same fault. -/
abbrev SameResult : Except CompileFault Artifact → Except CompileFault Artifact → Prop :=
  Agrees fun x y => (x == y) = true

theorem compileValue_agrees {held held' : Option Float} (here : a.params = .value held)
    (there : b.params = .value held') (same : (held == held') = true) :
    SameResult a.compileValue b.compileValue := by
  unfold compileValue
  rw [here, there]
  cases held with
  | none =>
    rw [option_beq_none (BEq.symm same)]
    exact .error _
  | some number =>
    obtain ⟨number', rfl, turned⟩ := option_beq_some (BEq.symm same)
    have alike := (Number.beq_iff.mp turned).1.isNaN
    simp only
    rw [alike]
    split
    · exact .error _
    · exact .ok (BEq.symm turned)

theorem operand_agrees {handle : String} (inputs : left.SameInputs right id)
    (product : left.kind? id = some .multiply) (here : a.id = id) (there : b.id = id)
    {held held' : Option Float} (same : left.fed id handle = false → (held == held') = true) :
    Agrees (fun x y : Float => (x == y) = true) (a.operand left handle held)
      (b.operand right handle held') := by
  unfold operand inputOutput?
  rw [here, there]
  rcases inputs.plugged_cases handle with ⟨unfed, nothing, nothing'⟩ |
    ⟨source, node, other, feeds, known, _, plugged, plugged', equal⟩
  · have equal := same unfed
    rw [nothing, nothing']
    cases held with
    | none =>
      rw [option_beq_none (BEq.symm equal)]
      exact .error _
    | some x =>
      obtain ⟨x', rfl, turned⟩ := option_beq_some (BEq.symm equal)
      exact .ok (BEq.symm turned)
  · obtain ⟨node', x, known', output⟩ := inputs.scalars product source feeds
    cases known.symm.trans known'
    rw [output] at equal
    obtain ⟨artifact, output', turned⟩ := option_beq_some (BEq.symm equal)
    cases Artifact.beq_iff.mp turned with
    | scalar same =>
      simp only [plugged, plugged', output, output']
      exact .ok (BEq.symm same)

theorem compileMultiply_agrees (inputs : left.SameInputs right id)
    (product : left.kind? id = some .multiply) (here : a.id = id) (there : b.id = id)
    {p q p' q' : Option Float} (fields : a.params = .multiply p q)
    (fields' : b.params = .multiply p' q')
    (first : left.fed id Handle.a = false → (p == p') = true)
    (second : left.fed id Handle.b = false → (q == q') = true) :
    SameResult (a.compileMultiply left) (b.compileMultiply right) := by
  unfold compileMultiply
  rw [fields, fields']
  refine (operand_agrees inputs product here there first).bind fun m m' equal => ?_
  refine (operand_agrees inputs product here there second).bind fun n n' equal' => ?_
  have alike := Number.isNaN_mul equal equal'
  simp only
  by_cases strange : (m * n).isNaN = true
  · rw [if_pos strange, if_pos (alike ▸ strange)]
    exact .error _
  · rw [if_neg strange, if_neg (alike ▸ strange)]
    exact .ok (Number.mul_beq_mul equal equal' (Bool.eq_false_iff.mpr strange))

theorem compileTensor_agrees {values values' : List Float} {shape : List Nat}
    (here : a.params = .tensor values shape) (there : b.params = .tensor values' shape)
    (same : (values == values') = true) : SameResult a.compileTensor b.compileTensor := by
  unfold compileTensor
  rw [here, there]
  simp only
  rw [← List.length_eq_of_beq same]
  split
  · exact .ok (Artifact.beq_iff.mpr (.tensor (TensorValue.beq_iff.mpr ⟨rfl, same⟩)))
  · exact .error _

theorem layer_agrees (outcome : Except CompileFault SymbolicTensor) :
    SameResult (outcome.map .layer) (outcome.map .layer) := by
  refine .refl fun x result => ?_
  obtain ⟨tensor, _, rfl⟩ := Outcome.map_eq_ok.mp result
  exact Artifact.beq_iff.mpr (.layer tensor)

theorem compileInput_agrees {shape : List Nat} (named : b.id = a.id)
    (here : a.params = .inputLayer shape) (there : b.params = .inputLayer shape) :
    SameResult a.compileInput b.compileInput := by
  unfold compileInput
  rw [here, there, named]
  exact layer_agrees _

theorem compileDense_agrees (inputs : left.SameInputs right id) (here : a.id = id)
    (there : b.id = id) {units : Nat} {activation : Activation} {shape : Option (List Nat)}
    (fields : a.params = .denseLayer units activation shape)
    (fields' : b.params = .denseLayer units activation shape) :
    SameResult (a.compileDense left) (b.compileDense right) := by
  unfold compileDense
  rw [fields, fields', here, there]
  rcases inputs.plugged_cases Handle.input with ⟨_, nothing, nothing'⟩ |
    ⟨_, node, other, _, known, known', plugged, plugged', equal⟩
  · simp only [nothing, nothing']
    exact .error _
  · have named : other.id = node.id := (id_of_node? known').trans (id_of_node? known).symm
    simp only [plugged, plugged']
    refine (layerOutput_agrees named equal).bind fun tensor tensor' same => ?_
    cases same
    exact layer_agrees _

@[simp] theorem isEmpty_inbound (graph : Graph) (id : String) :
    (graph.inbound id).isEmpty = (graph.ends id).isEmpty := by
  rw [ends, List.isEmpty_map]

theorem origins_of_sameUpstream (same : left.SameUpstream right id) :
    left.origins [id] [id] = right.origins [id] [id] := by
  have walk : left.walk [id] [id] = right.walk [id] [id] := same.ancestry
  rw [origins_eq_filter, origins_eq_filter, ← walk]
  refine List.filter_congr fun member found => ?_
  rw [isEmpty_inbound, isEmpty_inbound, (same member (mem_ancestry.mp found)).ends]

theorem layerOutputs_agree {ids : List String} (same : ∀ id ∈ ids, left.SameOutput right id) :
    ∃ sources others, left.nodesOf ids = .ok sources ∧ right.nodesOf ids = .ok others ∧
      Agrees Eq (layerOutputs sources) (layerOutputs others) := by
  induction ids with
  | nil => exact ⟨[], [], rfl, rfl, .ok rfl⟩
  | cons id rest ih =>
    obtain ⟨node, other, here, there, equal⟩ := same id List.mem_cons_self
    obtain ⟨sources, others, found, found', agrees⟩ :=
      ih fun id member => same id (List.mem_cons_of_mem _ member)
    have named : other.id = node.id := (id_of_node? there).trans (id_of_node? here).symm
    refine ⟨node :: sources, other :: others, ?_, ?_, ?_⟩
    · rw [nodesOf, node_eq_ok.mpr here, found]
      rfl
    · rw [nodesOf, node_eq_ok.mpr there, found']
      rfl
    · refine (layerOutput_agrees named equal).bind fun tensor tensor' first => ?_
      refine agrees.bind fun tensors tensors' later => ?_
      rw [first, later]
      exact .ok rfl

/-- Behind a handle there is nothing on either side, or the same layers. -/
theorem boundary_cases (inputs : left.SameInputs right id) (handle : String) :
    (left.boundary id handle = .ok none ∧ right.boundary id handle = .ok none) ∨
    ∃ boundary other, left.boundary id handle = .ok (some boundary) ∧
      right.boundary id handle = .ok (some other) ∧
      Agrees Eq (layerOutputs boundary.inputs) (layerOutputs other.inputs) ∧
      Agrees Eq boundary.output.layerOutput other.output.layerOutput := by
  obtain ⟨_, _, here, there, _⟩ := (inputs.upstream id .refl).params
  rcases inputs.plugged_cases handle with ⟨_, nothing, nothing'⟩ |
    ⟨source, node, other, feeds, known, known', plugged, plugged', equal⟩
  · exact .inl ⟨boundary_of_unplugged here nothing, boundary_of_unplugged there nothing'⟩
  · right
    have named := id_of_node? known
    have named' := id_of_node? known'
    have upstream := inputs.upstream.upstream (.single feeds)
    have each : ∀ member ∈ left.origins [source] [source], left.SameOutput right member := by
      intro member origin
      rw [origins_eq_filter] at origin
      have reaches := mem_ancestry.mp (List.mem_filter.mp origin).1
      exact inputs.outputs member (Relation.TransGen.tail' reaches feeds)
    obtain ⟨sources, others, collected, collected', agrees⟩ := layerOutputs_agree each
    rw [origins_of_sameUpstream upstream, ← named'] at collected'
    rw [← named] at collected
    exact ⟨_, _, boundary_of_plugged here plugged collected,
      boundary_of_plugged there plugged' collected', agrees,
      layerOutput_agrees (named'.trans named.symm) equal⟩

theorem assemble_agrees (name : String) (sources : List SymbolicTensor) (output : SymbolicTensor)
    (optimizer : Optimizer) (loss : Loss) {rate rate' : Float} (same : (rate == rate') = true) :
    SameResult
      ((ofLayer (ModelArtifact.assemble name sources output ⟨optimizer, loss, rate⟩)).map .model)
      ((ofLayer (ModelArtifact.assemble name sources output ⟨optimizer, loss, rate'⟩)).map
        .model) := by
  unfold ModelArtifact.assemble
  rw [Number.isRate_of_beq same]
  cases sources.find? fun input => !input.isInput with
  | some other =>
    simp only
    split <;> exact .error _
  | none =>
    simp only
    split_ifs
    · exact .error _
    · exact .error _
    · exact .error _
    · exact .ok (Artifact.beq_iff.mpr (.model (ModelArtifact.beq_iff.mpr
        ⟨rfl, rfl, rfl, rfl, rfl, same⟩)))

theorem compileModel_agrees (inputs : left.SameInputs right id) (here : a.id = id)
    (there : b.id = id) {optimizer : Optimizer} {loss : Loss} {rate rate' : Float}
    (fields : a.params = .model optimizer loss rate)
    (fields' : b.params = .model optimizer loss rate') (same : (rate == rate') = true) :
    SameResult (a.compileModel left) (b.compileModel right) := by
  unfold compileModel
  rw [fields, fields', here, there]
  rcases boundary_cases inputs Handle.input with ⟨nothing, nothing'⟩ |
    ⟨boundary, other, found, found', agrees, last⟩
  · simp only [nothing, nothing']
    exact .error _
  · simp only [found, found']
    refine agrees.bind fun tensors tensors' first => last.bind fun tensor tensor' second => ?_
    rw [first, second]
    exact assemble_agrees _ _ _ _ _ same

theorem trainingData_agrees (inputs : left.SameInputs right id) (here : a.id = id)
    (there : b.id = id) (handle : String) :
    Agrees (fun x y : Option TensorValue => (x == y) = true) (a.trainingData left handle)
      (b.trainingData right handle) := by
  have arriving := inputs.inputOutput?_beq handle
  unfold trainingData
  rw [here, there]
  cases found : left.inputOutput? id handle with
  | none =>
    rw [found] at arriving
    rw [option_beq_none (BEq.symm arriving)]
    exact .ok rfl
  | some artifact =>
    rw [found] at arriving
    obtain ⟨artifact', found', turned⟩ := option_beq_some (BEq.symm arriving)
    rw [found']
    cases Artifact.beq_iff.mp turned with
    | @scalar y x same =>
      have values : ([x] == [y]) = true := Bool.and_eq_true_iff.mpr ⟨BEq.symm same, rfl⟩
      refine .ok ?_
      rw [option_some_beq]
      exact TensorValue.beq_iff.mpr ⟨rfl, values⟩
    | tensor same => exact .ok (BEq.symm same)
    | layer => exact .error _
    | model => exact .error _
    | training => exact .error _

theorem trainingModel_beq (inputs : left.SameInputs right id) (here : a.id = id)
    (there : b.id = id) : (a.trainingModel left == b.trainingModel right) = true := by
  have arriving := inputs.inputOutput?_beq Handle.model
  unfold trainingModel
  rw [here, there]
  cases found : left.inputOutput? id Handle.model with
  | none =>
    rw [found] at arriving
    rw [option_beq_none (BEq.symm arriving)]
    rfl
  | some artifact =>
    rw [found] at arriving
    obtain ⟨artifact', found', turned⟩ := option_beq_some (BEq.symm arriving)
    rw [found']
    cases Artifact.beq_iff.mp turned with
    | model same => exact BEq.symm same
    | _ => rfl

theorem compileTraining_agrees (inputs : left.SameInputs right id) (here : a.id = id)
    (there : b.id = id) {epochs batchSize : Nat} (fields : a.params = .trainModel epochs batchSize)
    (fields' : b.params = .trainModel epochs batchSize) :
    SameResult (a.compileTraining left) (b.compileTraining right) := by
  unfold compileTraining
  rw [fields, fields']
  simp only
  split
  · exact .error _
  · refine (trainingData_agrees inputs here there Handle.x).bind fun x x' first => ?_
    refine (trainingData_agrees inputs here there Handle.y).bind fun y y' second => ?_
    have model := trainingModel_beq inputs here there
    exact .ok (Artifact.beq_iff.mpr
      (.training (TrainingSetup.beq_iff.mpr ⟨model, first, second, rfl, rfl⟩)))

/-- With the compiler made for its kind a node compiles alike wherever its inputs look
the same. -/
theorem compileAs_agrees (inputs : left.SameInputs right id) (found : left.node? id = some a)
    (found' : right.node? id = some b) :
    SameResult (a.compileAs a.kind left) (b.compileAs b.kind right) := by
  obtain ⟨_, same, matched⟩ := inputs.here found found'
  have here := id_of_node? found
  have there := id_of_node? found'
  have kind : left.kind? id = some a.kind := congrArg (Option.map Node.kind) found
  unfold Node.kind at kind ⊢
  cases fields : a.params <;> cases fields' : b.params <;> rw [fields, fields'] at matched <;>
    simp only [NodeParams.unfed] at matched <;> try (cases matched)
  all_goals simp only [fields, NodeParams.kind] at kind ⊢
  case value.value same => exact compileValue_agrees fields fields' same
  case multiply.multiply first second =>
    refine compileMultiply_agrees inputs kind here there fields fields' ?_ ?_
    · intro unfed
      simpa [unfed] using first
    · intro unfed
      simpa [unfed] using second
  case tensor.tensor same => exact compileTensor_agrees fields fields' same
  case inputLayer.inputLayer => exact compileInput_agrees (there.trans here.symm) fields fields'
  case denseLayer.denseLayer => exact compileDense_agrees inputs here there fields fields'
  case model.model same => exact compileModel_agrees inputs here there fields fields' same
  case trainModel.trainModel => exact compileTraining_agrees inputs here there fields fields'

theorem compileAs_beq (inputs : left.SameInputs right id) (found : left.node? id = some a)
    (found' : right.node? id = some b) {x : Artifact} (result : a.compileAs a.kind left = .ok x) :
    ∃ y, b.compileAs b.kind right = .ok y ∧ (x == y) = true :=
  (compileAs_agrees inputs found found').of_ok result

end Node

end RecipeGraph
