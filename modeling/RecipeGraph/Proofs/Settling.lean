import RecipeGraph.Proofs.Results

/-!
# Compilers that are given what fits

If all that leads to a node holds results that fit, so does what the node compiles to.
A compile that fails behind such results does not fail at one of the guards against
results of another sort, and no result would fit the node. What nodes mean fits them for
that reason.
-/

namespace RecipeGraph

open Relation (TransGen)

/-- Faults of compilers that are served nodes of another kind, or nodes behind others
that hold no result or a result of another sort. -/
def CompileFault.isGuard : CompileFault → Bool
  | .wrongKind .. | .noLayerOutput _ | .danglingEdge _ => true
  | .layer .noFeatures | .layer .noInputs | .layer (.notAnInput _) | .layer (.unrooted _) => true
  | _ => false

namespace Graph

variable {graph : Graph} {id source handle : String}

/-- All that leads to the node holds results that fit. -/
def Ready (graph : Graph) (id : String) : Prop :=
  ∀ member, TransGen graph.Feeds member id → ∃ node value, graph.node? member = some node ∧
    node.data.output = some value ∧ graph.Fits Number.wrap member node.kind value

/-- No result fits the node. Numbers fit whatever produces numbers. -/
def Unfit (graph : Graph) (id : String) (kind : NodeKind) : Prop :=
  kind.producesValue = false → ∀ value, ¬ graph.Fits Number.wrap id kind value

/-- A compile ends with a result that fits, or with a fault that is no guard where no
result would fit. -/
inductive Settles (graph : Graph) (id : String) (kind : NodeKind) :
    Except CompileFault Artifact → Prop
  | ok {value : Artifact} (fits : graph.Fits Number.wrap id kind value) :
      Settles graph id kind (.ok value)
  | error {fault : CompileFault} (real : fault.isGuard = false) (unfit : graph.Unfit id kind) :
      Settles graph id kind (.error fault)

namespace Ready

theorem inputNode? (ready : graph.Ready id) (plugged : graph.plugged id handle = some source) :
    ∃ node value, graph.inputNode? id handle = some node ∧ graph.node? source = some node ∧
      node.data.output = some value ∧ graph.Fits Number.wrap source node.kind value := by
  obtain ⟨node, value, found, output, fits⟩ :=
    ready source (.single (feeds_of_plugged plugged))
  refine ⟨node, value, ?_, found, output, fits⟩
  rw [inputNode?_eq_bind, plugged]
  exact found

theorem layerOutput (ready : graph.Ready id) {member : String}
    (leads : TransGen graph.Feeds member id)
    (produces : ∀ kind, graph.kind? member = some kind → kind.producesLayer = true) :
    ∃ node tensor, graph.node? member = some node ∧ node.layerOutput = .ok tensor ∧
      graph.Flows Number.wrap member tensor := by
  obtain ⟨node, value, found, output, fits⟩ := ready member leads
  obtain ⟨tensor, rfl, flows⟩ := fits.flows (produces _ (kind?_of_node? found))
  exact ⟨node, tensor, found, by rw [Node.layerOutput, output], flows⟩

end Ready

/-- Only layers are plugged into layers and models. -/
theorem producesLayer_of_plugged (sound : graph.WellFormed)
    (layered : graph.kind? id = some .denseLayer ∨ graph.kind? id = some .model)
    (plugged : graph.plugged id handle = some source) (kind : NodeKind)
    (known : graph.kind? source = some kind) : kind.producesLayer = true := by
  obtain ⟨_, into, _, sourced, targeted, accepts⟩ := accepts_of_plugged sound plugged
  cases known.symm.trans sourced
  rcases layered with kind | kind <;> cases targeted.symm.trans kind
  · exact (Bool.and_eq_true_iff.mp accepts).2
  · exact (Bool.and_eq_true_iff.mp accepts).2

namespace Settles

variable {kind : NodeKind} {α : Type}

theorem bind {first : Except CompileFault α} {next : α → Except CompileFault Artifact}
    (faults : ∀ fault, first = .error fault → fault.isGuard = false ∧ graph.Unfit id kind)
    (later : ∀ a, first = .ok a → graph.Settles id kind (next a)) :
    graph.Settles id kind (first >>= next) := by
  cases first with
  | ok a => exact later a rfl
  | error fault => exact .error (faults fault rfl).1 (faults fault rfl).2

end Settles

variable {node : Node}

theorem unfit_of_producesValue {kind : NodeKind} (produces : kind.producesValue = true) :
    graph.Unfit id kind :=
  fun numberless => nomatch produces.symm.trans numberless

theorem settles_value {x : Option Float} (fields : node.params = .value x) :
    graph.Settles id .value node.compileValue := by
  unfold Node.compileValue
  rw [fields]
  cases x with
  | none => exact .error rfl (unfit_of_producesValue rfl)
  | some x =>
    simp only
    split
    · exact .error rfl (unfit_of_producesValue rfl)
    · exact .ok (.value x)

theorem operand_fault {held : Option Float} {fault : CompileFault}
    (faulty : node.operand graph handle held = .error fault) : fault.isGuard = false := by
  unfold Node.operand at faulty
  split at faulty
  · cases faulty
  · cases faulty
  · cases faulty
    rfl

theorem settles_multiply {a b : Option Float} (fields : node.params = .multiply a b) :
    graph.Settles id .multiply (node.compileMultiply graph) := by
  have unfit : graph.Unfit id .multiply := unfit_of_producesValue rfl
  unfold Node.compileMultiply
  rw [fields]
  refine .bind (fun _ faulty => ⟨operand_fault faulty, unfit⟩) fun left _ => ?_
  refine .bind (fun _ faulty => ⟨operand_fault faulty, unfit⟩) fun right _ => ?_
  simp only
  split
  · exact .error rfl unfit
  · exact .ok (.multiply _)

/-- Bounding the count behind every factor bounds the product. -/
theorem volume_eq_wrap (shape : List Nat) : Node.volume shape = Number.wrap shape.prod := by
  have counted : ∀ n, shape.foldl (fun count length => Number.wrap (count * length))
      (Number.wrap n) = Number.wrap (n * shape.prod) := by
    induction shape with
    | nil => simp
    | cons length rest ih =>
      intro n
      have step : Number.wrap (Number.wrap n * length) = Number.wrap (n * length) :=
        Nat.mod_mul_mod n length Number.limit
      rw [List.foldl_cons, step, ih, List.prod_cons, Nat.mul_assoc]
  have all := counted 1
  rwa [Nat.one_mul] at all

theorem settles_tensor {values : List Float} {shape : List Nat}
    (known : graph.params? id = some node.params) (fields : node.params = .tensor values shape) :
    graph.Settles id .tensor node.compileTensor := by
  unfold Node.compileTensor
  rw [fields] at known ⊢
  simp only [volume_eq_wrap]
  split
  · next full => exact .ok (.tensor ⟨⟨values, known, rfl⟩, full⟩)
  · next short =>
    refine .error rfl fun _ value fits => ?_
    cases fits with
    | tensor described =>
      obtain ⟨held, fields, count⟩ := described.fields
      cases known.symm.trans fields
      exact short (count.trans described.full)

theorem settles_inputLayer {features : List Nat} (named : node.id = id)
    (known : graph.params? id = some node.params) (fields : node.params = .inputLayer features) :
    graph.Settles id .inputLayer node.compileInput := by
  unfold Node.compileInput SymbolicTensor.input
  rw [fields] at known ⊢
  simp only [named]
  split
  · next unsized =>
    simp only [Bool.or_eq_true, List.isEmpty_iff, List.contains_iff_mem] at unsized
    refine .error rfl fun _ value fits => ?_
    cases fits with
    | inputLayer flows =>
      cases flows with
      | input fields nonempty positive =>
        cases known.symm.trans fields
        rcases unsized with empty | zero
        · exact nonempty empty
        · exact (positive 0 zero).false
      | dense fields => cases known.symm.trans fields
  · next sized =>
    simp only [Bool.or_eq_true, List.isEmpty_iff, List.contains_iff_mem, not_or] at sized
    refine .ok (.inputLayer (.input known sized.1 fun length member => ?_))
    exact Nat.pos_of_ne_zero fun zero => sized.2 (zero ▸ member)

/-- On features a dense layer ends with the last axis replaced, or with a fault that is no
guard where it has no units or expects another width. -/
theorem propagate_cases (config : DenseConfig) (front : Shape) (width : Nat) :
    config.propagate (front ++ [.fixed width]) = .ok (front ++ [.fixed config.units]) ∧
      0 < config.units ∧ (∀ expected, config.expected = some expected → expected = width) ∨
    ∃ fault, config.propagate (front ++ [.fixed width]) = .error fault ∧
      (CompileFault.layer fault).isGuard = false ∧
      (0 < config.units → ∃ expected, config.expected = some expected ∧ expected ≠ width) := by
  have last : Shape.last (front ++ [.fixed width]) = some (.fixed width) := List.getLast?_concat
  unfold DenseConfig.propagate
  rw [last, List.dropLast_concat]
  simp only
  split
  · next none => exact .inr ⟨_, rfl, rfl, fun sized => (sized.ne' none).elim⟩
  · next sized =>
    have positive := Nat.pos_of_ne_zero sized
    split
    · next expected declared =>
      split
      · next agreed => exact .inl ⟨rfl, positive, fun _ same => by grind⟩
      · next other => exact .inr ⟨_, rfl, rfl, fun _ => ⟨expected, declared, other⟩⟩
    · next undeclared => exact .inl ⟨rfl, positive, fun _ declared => by grind⟩

/-- What fits a dense layer stands on what flows out of the node plugged into it. -/
theorem Fits.exists_source {units : Nat} {activation : Activation} {declared : Option (List Nat)}
    (known : graph.params? id = some (.denseLayer units activation declared)) {value : Artifact}
    (fits : graph.Fits Number.wrap id .denseLayer value) :
    ∃ source tensor front width, graph.plugged id Handle.input = some source ∧
      graph.Flows Number.wrap source tensor ∧ tensor.shape = front ++ [.fixed width] ∧
      0 < units ∧
      ∀ expected, declared.bind (·.getLast?) = some expected → expected = width := by
  cases fits with
  | denseLayer flows =>
    cases flows with
    | input fields => cases known.symm.trans fields
    | dense fields plugged earlier shape sized agreed =>
      cases known.symm.trans fields
      exact ⟨_, _, _, _, plugged, earlier, shape, sized, agreed⟩

theorem settles_denseLayer (sound : graph.WellFormed) (ready : graph.Ready id)
    (named : node.id = id) (known : graph.params? id = some node.params) {units : Nat}
    {activation : Activation} {declared : Option (List Nat)}
    (fields : node.params = .denseLayer units activation declared) :
    graph.Settles id .denseLayer (node.compileDense graph) := by
  unfold Node.compileDense
  rw [fields] at known ⊢
  rw [named, inputNode?_eq_bind]
  simp only
  cases plugged : graph.plugged id Handle.input with
  | none =>
    refine .error rfl fun _ value fits => ?_
    obtain ⟨_, _, _, _, plugged', _⟩ := fits.exists_source known
    cases plugged.symm.trans plugged'
  | some source =>
    have kind := kind?_of_params? known
    obtain ⟨origin, tensor, found, output, flows⟩ := ready.layerOutput
      (.single (feeds_of_plugged plugged)) (producesLayer_of_plugged sound (.inl kind) plugged)
    obtain ⟨front, width, shape⟩ := flows.exists_width
    have wide : tensor.width = width := by
      simp [SymbolicTensor.width, Shape.last, shape]
    rw [Option.bind_some, found]
    simp only [output]
    change graph.Settles id .denseLayer
      ((Node.ofLayer (tensor.dense id ⟨units, activation, declared⟩)).map .layer)
    rw [SymbolicTensor.dense, wide, shape]
    rcases propagate_cases ⟨units, activation, declared⟩ front width with
      ⟨through, sized, agreed⟩ | ⟨_, refused, real, other⟩
    · rw [through]
      exact .ok (.denseLayer (.dense known plugged flows shape sized agreed))
    · rw [refused]
      refine .error real fun _ value fits => ?_
      obtain ⟨source', tensor', _, _, plugged', flows', shape', sized, agreed⟩ :=
        fits.exists_source known
      cases plugged.symm.trans plugged'
      cases flows.unique flows'
      obtain ⟨_, last⟩ := List.append_inj' (shape.symm.trans shape') rfl
      cases last
      obtain ⟨expected, declared, differs⟩ := other sized
      exact differs (agreed expected declared)

/-- Behind the handle of a model there is nothing, or a layer and the one input layer of
its chain. -/
theorem boundary_of_ready (sound : graph.WellFormed) (ready : graph.Ready id)
    (found : graph.node? id = some node) (kind : graph.kind? id = some .model) :
    graph.boundary id Handle.input = .ok none ∧ graph.plugged id Handle.input = none ∨
    ∃ source output root input first last, graph.plugged id Handle.input = some source ∧
      graph.Flows Number.wrap source output ∧ output.root = some root ∧
      graph.kind? root = some .inputLayer ∧ graph.Flows Number.wrap root input ∧
      first.layerOutput = .ok input ∧ last.layerOutput = .ok output ∧
      graph.boundary id Handle.input = .ok (some ⟨[first], last⟩) := by
  cases plugged : graph.plugged id Handle.input with
  | none =>
    refine .inl ⟨boundary_of_unplugged found ?_, rfl⟩
    rw [inputNode?_eq_bind, plugged]
    rfl
  | some source =>
    right
    have feeds := feeds_of_plugged plugged
    have produces := producesLayer_of_plugged sound (.inr kind) plugged
    obtain ⟨last, output, there, given, flows⟩ := ready.layerOutput (.single feeds) produces
    obtain ⟨root, _, head, start, _, only⟩ := flows.exists_root sound
    have reaches := ((only root).mpr rfl).1
    obtain ⟨first, input, there', given', flows'⟩ :=
      ready.layerOutput (TransGen.tail' reaches feeds) fun _ known => by
        cases start.symm.trans known
        rfl
    have into : graph.inputNode? id Handle.input = some last := by
      rw [inputNode?_eq_bind, plugged]
      exact there
    have walked : graph.nodesOf (graph.origins [last.id] [last.id]) = .ok [first] := by
      rw [id_of_node? there, origins_eq_singleton only]
      exact nodesOf_eq_ok.mpr (by simp [there'])
    exact ⟨source, output, root, input, first, last, rfl, flows, head, start, flows', given', given,
      boundary_of_plugged found into walked⟩

/-- On an input layer and an output that descends from it, only the learning rate is left
to check. -/
theorem assemble_of_root {name root : String} {input output : SymbolicTensor}
    {config : ModelConfig} (start : input.isInput = true ∧ input.name = root)
    (head : output.root = some root) :
    ModelArtifact.assemble name [input] output config =
      if ModelArtifact.isRate config.learningRate then
        .ok ⟨name, [input], output, config.optimizer, config.loss, config.learningRate⟩
      else .error .badLearningRate := by
  have descends : ModelArtifact.descends [input] output = true := by
    simp [ModelArtifact.descends, head, start.2]
  simp only [ModelArtifact.assemble, List.isEmpty_cons, List.find?_cons, List.find?_nil, start.1,
    descends, Bool.not_true, Bool.false_eq_true, if_false]
  cases ModelArtifact.isRate config.learningRate <;> rfl

theorem settles_model (sound : graph.WellFormed) (ready : graph.Ready id)
    (found : graph.node? id = some node) {optimizer : Optimizer} {loss : Loss} {rate : Float}
    (fields : node.params = .model optimizer loss rate) :
    graph.Settles id .model (node.compileModel graph) := by
  have known := params?_of_node? found
  have named := id_of_node? found
  unfold Node.compileModel
  rw [fields] at known ⊢
  simp only [named]
  rcases boundary_of_ready sound ready found (kind?_of_params? known) with ⟨bare, free⟩ |
    ⟨source, output, root, input, first, last, plugged, flows, head, start, flows', given', given,
      behind⟩
  · rw [bare]
    refine .error rfl fun _ value fits => ?_
    cases fits with
    | model described =>
      obtain ⟨_, plugged, _⟩ := described.output
      cases free.symm.trans plugged
  · simp only [behind, Node.layerOutputs, given, given']
    change graph.Settles id .model ((Node.ofLayer
      (ModelArtifact.assemble id [input] output ⟨optimizer, loss, rate⟩)).map .model)
    rw [assemble_of_root (flows'.isInput start) head]
    split
    · next proper =>
      have number := Number.isNaN_of_isFinite (Bool.and_eq_true_iff.mp proper).1
      exact .ok (.model {
        name := rfl
        output := ⟨source, plugged, flows⟩
        inputs := ⟨root, input, head, start, flows', rfl⟩
        fields := ⟨rate, known, Number.beq_self number⟩
        rate := proper })
    · next improper =>
      refine .error rfl fun _ value fits => ?_
      cases fits with
      | model described =>
        obtain ⟨_, fields, equal⟩ := described.fields
        cases known.symm.trans fields
        exact improper ((Number.isRate_of_beq equal).trans described.rate)

theorem arrives_trainingModel (sound : graph.WellFormed) (ready : graph.Ready id)
    (named : node.id = id) (kind : graph.kind? id = some .trainModel) :
    graph.Arrives id Handle.model (graph.DescribesModel Number.wrap) (node.trainingModel graph) := by
  unfold Node.trainingModel inputOutput?
  rw [named]
  cases plugged : graph.plugged id Handle.model with
  | none =>
    rw [inputNode?_eq_bind, plugged]
    exact .nothing plugged
  | some source =>
    obtain ⟨origin, value, given, found, output, fits⟩ := ready.inputNode? plugged
    have model : origin.kind = .model := by
      obtain ⟨_, _, _, sourced, targeted, accepts⟩ := accepts_of_plugged sound plugged
      cases targeted.symm.trans kind
      cases (kind?_of_node? found).symm.trans sourced
      exact of_decide_eq_true (Bool.and_eq_true_iff.mp accepts).1
    rw [model] at fits
    cases fits with
    | model described =>
      simp only [given, output]
      exact .something plugged described

theorem trainingData_fault {fault : CompileFault}
    (faulty : node.trainingData graph handle = .error fault) : fault.isGuard = false := by
  unfold Node.trainingData at faulty
  split at faulty <;> cases faulty
  rfl

/-- A node that supplies data holds a tensor or a number. -/
theorem Supplies.output {tensor : TensorValue} (supplies : graph.Supplies Number.wrap source tensor)
    {origin : Node} (found : graph.node? source = some origin) {value : Artifact}
    (fits : graph.Fits Number.wrap source origin.kind value) :
    (∃ held, value = .tensor held) ∨ ∃ x, value = .scalar x := by
  cases supplies with
  | tensor described =>
    obtain ⟨held, fields, _⟩ := described.fields
    have kind := (kind?_of_node? found).symm.trans (kind?_of_params? fields)
    rw [Option.some.inj kind] at fits
    cases fits with
    | tensor => exact .inl ⟨_, rfl⟩
  | number known produces =>
    rw [kind?_of_node? found, Option.some.injEq] at known
    subst known
    generalize origin.kind = kind at fits produces
    cases fits with
    | value x => exact .inr ⟨x, rfl⟩
    | multiply x => exact .inr ⟨x, rfl⟩
    | _ => cases produces

/-- Data that a setup can hold is gathered. -/
theorem trainingData_ok (ready : graph.Ready id) (named : node.id = id)
    {held : Option TensorValue}
    (arrives : graph.Arrives id handle (graph.Supplies Number.wrap) held) :
    ∃ data, node.trainingData graph handle = .ok data := by
  unfold Node.trainingData inputOutput?
  rw [named]
  cases arrives with
  | nothing free =>
    rw [inputNode?_eq_bind, free]
    exact ⟨none, rfl⟩
  | something plugged supplies =>
    obtain ⟨origin, value, given, found, output, fits⟩ := ready.inputNode? plugged
    simp only [given, output]
    rcases supplies.output found fits with ⟨_, rfl⟩ | ⟨_, rfl⟩ <;> exact ⟨_, rfl⟩

theorem arrives_trainingData (ready : graph.Ready id) (named : node.id = id)
    {data : Option TensorValue} (gathered : node.trainingData graph handle = .ok data) :
    graph.Arrives id handle (graph.Supplies Number.wrap) data := by
  unfold Node.trainingData inputOutput? at gathered
  rw [named] at gathered
  cases plugged : graph.plugged id handle with
  | none =>
    rw [inputNode?_eq_bind, plugged] at gathered
    cases gathered
    exact .nothing plugged
  | some source =>
    obtain ⟨origin, value, given, found, output, fits⟩ := ready.inputNode? plugged
    have known := kind?_of_node? found
    simp only [given, output] at gathered
    generalize origin.kind = kind at fits known
    cases fits with
    | tensor described =>
      cases gathered
      exact .something plugged (.tensor described)
    | value x =>
      cases gathered
      exact .something plugged (.number known rfl x)
    | multiply x =>
      cases gathered
      exact .something plugged (.number known rfl x)
    | _ => cases gathered

theorem settles_trainModel (sound : graph.WellFormed) (ready : graph.Ready id)
    (found : graph.node? id = some node) {epochs batchSize : Nat}
    (fields : node.params = .trainModel epochs batchSize) :
    graph.Settles id .trainModel (node.compileTraining graph) := by
  have known := params?_of_node? found
  have named := id_of_node? found
  unfold Node.compileTraining
  rw [fields] at known ⊢
  simp only [Bool.or_eq_true, decide_eq_true_eq]
  split
  · next unscheduled =>
    refine .error rfl fun _ value fits => ?_
    cases fits with
    | trainModel described =>
      cases known.symm.trans described.fields
      rcases unscheduled with none | none
      · exact described.epochs.ne' none
      · exact described.batchSize.ne' none
  · next scheduled =>
    have unfit : ∀ handle fault, handle = Handle.x ∨ handle = Handle.y →
        node.trainingData graph handle = .error fault → graph.Unfit id .trainModel := by
      intro handle fault data faulty _ value fits
      cases fits with
      | @trainModel setup described =>
        have arrives : ∃ held, graph.Arrives id handle (graph.Supplies Number.wrap) held := by
          rcases data with rfl | rfl
          · exact ⟨_, described.x⟩
          · exact ⟨_, described.y⟩
        obtain ⟨_, arrives⟩ := arrives
        have gathered : ∃ data, node.trainingData graph handle = .ok data :=
          trainingData_ok ready named arrives
        obtain ⟨_, gathered⟩ := gathered
        cases faulty.symm.trans gathered
    refine .bind (fun fault faulty => ⟨trainingData_fault faulty, unfit _ fault (.inl rfl) faulty⟩)
      fun x gathered => ?_
    refine .bind (fun fault faulty => ⟨trainingData_fault faulty, unfit _ fault (.inr rfl) faulty⟩)
      fun y gathered' => ?_
    rw [not_or] at scheduled
    exact .ok (.trainModel {
      fields := known
      epochs := Nat.pos_of_ne_zero scheduled.1
      batchSize := Nat.pos_of_ne_zero scheduled.2
      model := arrives_trainingModel sound ready named (kind?_of_params? known)
      x := arrives_trainingData ready named gathered
      y := arrives_trainingData ready named gathered' })

/-- A node behind results that fit compiles to a result that fits, or fails at no guard
where nothing would fit. -/
theorem settles_compileAs (sound : graph.WellFormed) (ready : graph.Ready id)
    (found : graph.node? id = some node) :
    graph.Settles id node.kind (node.compileAs node.kind graph) := by
  have known := params?_of_node? found
  have named := id_of_node? found
  unfold Node.kind
  cases fields : node.params with
  | value x => exact settles_value fields
  | multiply a b => exact settles_multiply fields
  | tensor values shape => exact settles_tensor known fields
  | inputLayer features => exact settles_inputLayer named known fields
  | denseLayer units activation declared =>
    exact settles_denseLayer sound ready named known fields
  | model optimizer loss rate => exact settles_model sound ready found fields
  | trainModel epochs batchSize => exact settles_trainModel sound ready found fields

/-- Behind results that fit in the graph a copy that holds them is ready. -/
theorem ready_of_stored {filled : Graph} (blank : filled.blank = graph.blank)
    (stored : ∀ member, TransGen graph.Feeds member id → ∃ node value,
      filled.node? member = some node ∧ node.data.output = some value ∧
      ∀ kind, graph.kind? member = some kind → graph.Fits Number.wrap member kind value) :
    filled.Ready id := by
  intro member leads
  rw [feeds_of_blank blank] at leads
  obtain ⟨node, value, found, output, fits⟩ := stored member leads
  refine ⟨node, value, found, output, (fits node.kind ?_).of_blank blank.symm⟩
  rw [← (thins_of_blank blank).kind?]
  exact kind?_of_node? found

/-- What a node means fits it. -/
theorem Means.fits (sound : graph.WellFormed) {value : Artifact} (means : graph.Means id value) :
    ∀ kind, graph.kind? id = some kind → graph.Fits Number.wrap id kind value := by
  induction means with
  | @compiled id filled node values result blank found _ stored made ih =>
    intro kind known
    have ready : filled.Ready id := by
      refine ready_of_stored blank fun member leads => ?_
      obtain ⟨source, there, output⟩ := stored member leads
      exact ⟨source, values member, there, output, ih member leads⟩
    have settled := settles_compileAs ((thins_of_blank blank).wellFormed sound) ready found
    rw [made] at settled
    have same : node.kind = kind := by
      rw [← (thins_of_blank blank).kind?, kind?, found] at known
      exact Option.some.inj known
    cases settled with
    | ok fits => exact same ▸ fits.of_blank blank

end Graph

end RecipeGraph
