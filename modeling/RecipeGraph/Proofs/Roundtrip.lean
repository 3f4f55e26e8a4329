import RecipeGraph.Proofs.Restoring
import RecipeGraph.Proofs.Writable

/-!
# Graphs survive being written

A graph of finite numbers and of counts of 64 bits is read back from its written form,
whatever the order of the entries. Whatever is read as a graph is such a graph, so it is
the same after being written and read once more.
-/

namespace RecipeGraph

open Decoder (Restores)
open Form.Restores (required withDefault)

namespace Decoder.Restores

theorem count {n : Nat} (fits : Number.isCount n = true) :
    Decoder.size.Restores (Json.size n) n :=
  .size (of_decide_eq_true fits)

theorem counts {shape : List Nat} (fits : shape.all Number.isCount = true) :
    (Decoder.list Decoder.size).Restores (Json.sizes shape) shape :=
  .list fun n listed => .count (List.all_eq_true.mp fits n listed)

theorem floats {values : List Float} (finite : values.all (·.isFinite) = true) :
    (Decoder.list Decoder.float).Restores (Json.list Json.float values) values :=
  .list fun x listed => .float (List.all_eq_true.mp finite x listed)

theorem literal {x : Option Float} (finite : x.all (·.isFinite) = true) :
    (Decoder.optional Decoder.float).Restores (Json.optional Json.float x) x := by
  refine .optional fun y given => ?_
  have number : y.isFinite = true := by
    rw [Option.mem_def] at given
    rwa [given] at finite
  refine ⟨.float number, ?_⟩
  rw [Json.float, if_pos number]
  exact Json.noConfusion

end Decoder.Restores

theorem Activation.restores (activation : Activation) :
    Activation.decode.Restores (.str activation.name) activation :=
  .plainCases (by cases activation <;> rfl)

theorem Optimizer.restores (optimizer : Optimizer) :
    Optimizer.decode.Restores (.str optimizer.name) optimizer :=
  .plainCases (by cases optimizer <;> rfl)

theorem Loss.restores (loss : Loss) : Loss.decode.Restores (.str loss.name) loss :=
  .plainCases (by cases loss <;> rfl)

/-- The fields of a kind are read by its form. -/
theorem NodeParams.restores_config {params : NodeParams} (fits : params.isWritable = true) :
    ∃ known, (form params.kind).Restores known params.config params := by
  cases params with
  | value x =>
    exact ⟨_, (withDefault List.mem_cons_self (.literal fits)).map _⟩
  | multiply a b =>
    have parts := Bool.and_eq_true_iff.mp fits
    exact ⟨_, ((withDefault (by simp [config]) (.literal parts.1)).both
      (withDefault (by simp [config]) (.literal parts.2)) (by decide)).map _⟩
  | tensor values shape =>
    have parts := Bool.and_eq_true_iff.mp fits
    exact ⟨_, ((required (by simp [config]) (.floats parts.1)).both
      (required (by simp [config]) (.counts parts.2)) (by decide)).map _⟩
  | inputLayer shape =>
    exact ⟨_, (required List.mem_cons_self (.counts fits)).map _⟩
  | denseLayer units activation inputShape =>
    have parts := Bool.and_eq_true_iff.mp fits
    have declared : (Decoder.optional (Decoder.list Decoder.size)).Restores
        (Json.optional Json.sizes inputShape) inputShape := by
      refine .optional fun shape given => ⟨.counts ?_, Json.noConfusion⟩
      rw [Option.mem_def] at given
      rw [given] at parts
      exact parts.2
    exact ⟨_, ((required (by simp [config]) (.count parts.1)).both
      ((withDefault (by simp [config]) (Activation.restores activation)).both
        (withDefault (by simp [config]) declared) (by decide)) (by decide)).map _⟩
  | model optimizer loss learningRate =>
    exact ⟨_, ((withDefault (by simp [config]) (Optimizer.restores optimizer)).both
      ((withDefault (by simp [config]) (Loss.restores loss)).both
        (withDefault (by simp [config]) (.float fits)) (by decide)) (by decide)).map _⟩
  | trainModel epochs batchSize =>
    have parts := Bool.and_eq_true_iff.mp fits
    exact ⟨_, ((required (by simp [config]) (.count parts.1)).both
      (required (by simp [config]) (.count parts.2)) (by decide)).map _⟩

theorem NodeParams.restores {params : NodeParams} (fits : params.isWritable = true) :
    decode.Restores params.toJson params := by
  obtain ⟨known, fields⟩ := restores_config fits
  have once : (params.config.map (·.1)).Nodup := by cases params <;> simp [config]
  have named : readers.lookup params.kind.name = some (form params.kind).readObject := by
    cases params <;> rfl
  exact .tagBeside (by decide) named (fields.readObject once) (.swap _ _ _)

theorem Dim.restores {dim : Dim} (fits : dim.isWritable = true) :
    decode.Restores dim.toJson dim := by
  cases dim with
  | batch =>
    intro reading sent reorders
    cases reorders
    cases reading <;> rfl
  | fixed length =>
    refine .carrying rfl fun reading sent reorders => ?_
    simp only [Restores.count fits reading sent reorders]
    rfl

theorem Shape.restores {shape : Shape} (fits : shape.all Dim.isWritable = true) :
    decode.Restores shape.toJson shape :=
  .list fun _ listed => Dim.restores (List.all_eq_true.mp fits _ listed)

theorem LayerKind.restores {kind : LayerKind} (fits : kind.isWritable = true) :
    decode.Restores kind.toJson kind := by
  cases kind with
  | input => exact .tagInside (by simp) rfl (.noFields _ []) (.refl _)
  | dense units activation =>
    have fields : denseForm.read.Restores
        (.obj [("activation", .str activation.name), ("units", Json.size units)])
        (.dense units activation) := by
      exact Form.Restores.read (Form.Restores.map ((required (by simp) (.count fits)).both
        (required (by simp) (Activation.restores activation)) (by decide)) _) (by simp)
    exact .tagInside (by simp) rfl fields (.swap _ _ _)

theorem LayerSpec.restores {layer : LayerSpec} (fits : layer.isWritable = true) :
    decode.Restores layer.toJson layer := by
  obtain ⟨kind, rest⟩ := Bool.and_eq_true_iff.mp fits
  obtain ⟨shape, params⟩ := Bool.and_eq_true_iff.mp rest
  exact Form.Restores.read (Form.Restores.map ((required (by simp) (.text layer.name)).both
    ((required (by simp) (LayerKind.restores kind)).both
      ((required (by simp) (Shape.restores shape)).both
        (required (by simp) (.count params)) (by decide)) (by decide)) (by decide)) _) (by simp)

theorem SymbolicTensor.restores {tensor : SymbolicTensor} (fits : tensor.isWritable = true) :
    decode.Restores tensor.toJson tensor := by
  obtain ⟨shape, layers⟩ := Bool.and_eq_true_iff.mp fits
  have each : (Decoder.list LayerSpec.decode).Restores
      (Json.list LayerSpec.toJson tensor.layers) tensor.layers :=
    .list fun _ listed => LayerSpec.restores (List.all_eq_true.mp layers _ listed)
  exact Form.Restores.read (Form.Restores.map ((required (by simp)
    (Shape.restores shape)).both (required (by simp) each) (by decide)) _) (by simp)

theorem TensorValue.restores {tensor : TensorValue} (fits : tensor.isWritable = true) :
    decode.Restores tensor.toJson tensor := by
  obtain ⟨shape, values⟩ := Bool.and_eq_true_iff.mp fits
  exact Form.Restores.read (Form.Restores.map ((required (by simp)
    (.counts shape)).both (required (by simp) (.floats values)) (by decide)) _) (by simp)

theorem ModelArtifact.restores {model : ModelArtifact} (fits : model.isWritable = true) :
    decode.Restores model.toJson model := by
  obtain ⟨inputs, rest⟩ := Bool.and_eq_true_iff.mp fits
  obtain ⟨output, rate⟩ := Bool.and_eq_true_iff.mp rest
  have each : (Decoder.list SymbolicTensor.decode).Restores
      (Json.list SymbolicTensor.toJson model.inputs) model.inputs :=
    .list fun _ listed => SymbolicTensor.restores (List.all_eq_true.mp inputs _ listed)
  exact Form.Restores.read (Form.Restores.map ((required (by simp) (.text model.name)).both
    ((required (by simp) each).both
      ((required (by simp) (SymbolicTensor.restores output)).both
        ((required (by simp) (Optimizer.restores model.optimizer)).both
          ((required (by simp) (Loss.restores model.loss)).both
            (required (by simp) (.float rate)) (by decide)) (by decide)) (by decide)) (by decide))
    (by decide)) _) (by simp)

/-- A slot of a training setup is read back, filled or not. -/
theorem TrainingSetup.restores_slot {key : String} {decode : Decoder α} {encode : α → Json}
    {content : Option α} {written : List (String × Json)}
    (listed : (key, Json.optional encode content) ∈ written)
    (inner : ∀ a ∈ content, decode.Restores (encode a) a ∧ encode a ≠ .null) :
    (slot key decode).Restores [key] written content :=
  .field listed (fun _ member => nomatch member) (.optional inner)

theorem TrainingSetup.restores {setup : TrainingSetup} (fits : setup.isWritable = true) :
    decode.Restores setup.toJson setup := by
  obtain ⟨model, rest⟩ := Bool.and_eq_true_iff.mp fits
  obtain ⟨x, rest⟩ := Bool.and_eq_true_iff.mp rest
  obtain ⟨y, rest⟩ := Bool.and_eq_true_iff.mp rest
  obtain ⟨epochs, batchSize⟩ := Bool.and_eq_true_iff.mp rest
  rw [Option.all_eq_true] at model x y
  exact Form.Restores.read (Form.Restores.map ((restores_slot (by simp) fun _ given =>
      ⟨ModelArtifact.restores (model _ given), Json.noConfusion⟩).both
    ((restores_slot (by simp) fun _ given =>
        ⟨TensorValue.restores (x _ given), Json.noConfusion⟩).both
      ((restores_slot (by simp) fun _ given =>
          ⟨TensorValue.restores (y _ given), Json.noConfusion⟩).both
        ((required (by simp) (.count epochs)).both
          (required (by simp) (.count batchSize)) (by decide)) (by decide)) (by decide))
    (by decide)) _) (by simp)

/-- A case of a choice is read where its content is. -/
theorem Decoder.Restores.case {decode : Decoder α} {written : Json} {content : α}
    (inner : decode.Restores written content) (wrap : α → β) :
    Decoder.Restores (fun reading draft => (decode reading draft).map wrap) written
      (wrap content) := by
  intro reading sent reorders
  simp only [inner reading sent reorders]
  rfl

theorem Artifact.restores {artifact : Artifact} (fits : artifact.isWritable = true) :
    decode.Restores artifact.toJson artifact := by
  cases artifact with
  | scalar x => exact .tagBeside (by decide) rfl ((Restores.float fits).case _) (.refl _)
  | tensor data =>
    exact .tagBeside (by decide) rfl ((TensorValue.restores fits).case _) (.refl _)
  | layer symbolic =>
    exact .tagBeside (by decide) rfl ((SymbolicTensor.restores fits).case _) (.refl _)
  | model built =>
    exact .tagBeside (by decide) rfl ((ModelArtifact.restores fits).case _) (.refl _)
  | training setup =>
    exact .tagBeside (by decide) rfl ((TrainingSetup.restores fits).case _) (.refl _)

@[simp] theorem Artifact.toJson_ne_null (artifact : Artifact) : artifact.toJson ≠ .null := by
  cases artifact <;> exact Json.noConfusion

theorem NodeData.restores {data : NodeData} (fits : data.isWritable = true) :
    decode.Restores data.toJson data := by
  have output : (Decoder.optional Artifact.decode).Restores
      (Json.optional Artifact.toJson data.output) data.output :=
    .optional fun _ given =>
      ⟨Artifact.restores ((Option.all_eq_true _ _).mp fits _ given), Artifact.toJson_ne_null _⟩
  have errors : (Decoder.list Decoder.text).Restores (Json.texts data.errors) data.errors :=
    .list fun message _ => .text message
  exact Form.Restores.read (Form.Restores.map ((withDefault (by simp) errors).both
    ((withDefault (by simp) output).both (withDefault (by simp) (.bool data.compiled))
      (by decide)) (by decide)) _) (by simp)

theorem Node.restores {node : Node} (fits : node.isWritable = true) :
    decode.Restores node.toJson node := by
  obtain ⟨params, rest⟩ := Bool.and_eq_true_iff.mp fits
  obtain ⟨position, data⟩ := Bool.and_eq_true_iff.mp rest
  exact Form.Restores.read (Form.Restores.map ((required (by simp) (.text node.id)).both
    ((required (by simp) (NodeParams.restores params)).both
      ((withDefault (by simp) (.json node.position position)).both
        (withDefault (by simp) (NodeData.restores data)) (by decide)) (by decide))
    (by decide)) _) (by simp)

/-- A handle is written under its first spelling only. -/
theorem Form.Restores.handle {key other : String} {name : Option String}
    {written : List (String × Json)} (listed : (key, Json.optional .str name) ∈ written)
    (alone : other ∉ written.map (·.1)) :
    (handleForm key other).Restores [key, other] written name :=
  .field listed (fun _ member => List.mem_singleton.mp member ▸ alone)
    (.optional fun text _ => ⟨.text text, Json.noConfusion⟩)

theorem Form.Restores.handles {source target : Option String} {written : List (String × Json)}
    (sourceListed : ("source_handle", Json.optional .str source) ∈ written)
    (targetListed : ("target_handle", Json.optional .str target) ∈ written)
    (alone : "sourceHandle" ∉ written.map (·.1) ∧ "targetHandle" ∉ written.map (·.1)) :
    handlesForm.Restores ["source_handle", "sourceHandle", "target_handle", "targetHandle"]
      written (source, target) :=
  (handle sourceListed alone.1).both (handle targetListed alone.2) (by decide)

theorem Edge.restores (edge : Edge) : decode.Restores edge.toJson edge :=
  Form.Restores.read (Form.Restores.map ((required (by simp) (.text edge.id)).both
    ((required (by simp) (.text edge.source)).both
      ((required (by simp) (.text edge.target)).both
        (.handles (by simp) (by simp) (by simp)) (by decide)) (by decide)) (by decide)) _)
    (by simp)

theorem Connection.restores (connection : Connection) :
    decode.Restores connection.toJson connection :=
  Form.Restores.read (Form.Restores.map ((required (by simp) (.text connection.source)).both
    ((required (by simp) (.text connection.target)).both
      (.handles (by simp) (by simp) (by simp)) (by decide)) (by decide)) _) (by simp)

theorem Graph.restores {graph : Graph} (fits : graph.isWritable = true) :
    decode.Restores graph.toJson graph := by
  have nodes : (Decoder.list Node.decode).Restores (Json.list Node.toJson graph.nodes)
      graph.nodes :=
    .list fun _ listed => Node.restores (List.all_eq_true.mp fits _ listed)
  have edges : (Decoder.list Edge.decode).Restores (Json.list Edge.toJson graph.edges)
      graph.edges :=
    .list fun edge _ => edge.restores
  exact Form.Restores.read (Form.Restores.map ((required (by simp) nodes).both
    (required (by simp) edges) (by decide)) _) (by simp)

/-- Graphs of finite numbers and connections are read back from their written forms, with
the entries of objects in any order. So a graph read from a value, in whatever spelling,
is read back from its own written form. -/
theorem Graph.read_of_written :
    (∀ (graph : Graph) sent, graph.isWritable = true → graph.toJson.Reorders sent →
      Graph.decode.ofJson sent = .ok graph) ∧
    (∀ (connection : Connection) sent, connection.toJson.Reorders sent →
      Connection.decode.ofJson sent = .ok connection) ∧
    (∀ value graph sent, value.isFinite = true → Graph.decode.ofJson value = .ok graph →
      graph.toJson.Reorders sent → Graph.decode.ofJson sent = .ok graph) := by
  have graphs : ∀ (graph : Graph) sent, graph.isWritable = true → graph.toJson.Reorders sent →
      Graph.decode.ofJson sent = .ok graph :=
    fun _ sent fits reorders => Graph.restores fits .live sent reorders
  refine ⟨graphs, fun connection sent reorders => connection.restores .live sent reorders, ?_⟩
  intro value graph sent finite read reorders
  have allowed : value.draft.all Number.Numeral.isFinite = true := by
    rw [Json.all_draft, Json.all_isFinite, finite]
  exact graphs graph sent (Graph.yields_decode .live _ graph allowed read) reorders

/-- A trained model in its setup, an edge under the second spelling, and a node written as
a list. -/
theorem Graph.read_of_written_nested :
    (let input : LayerSpec := ⟨"input", .input, [.batch, .fixed 2], 0⟩
     let dense : LayerSpec := ⟨"dense", .dense 3 .relu, [.batch, .fixed 3], 9⟩
     let model : ModelArtifact :=
       ⟨"model", [⟨[.batch, .fixed 2], [input]⟩], ⟨[.batch, .fixed 3], [input, dense]⟩,
         .adam, .mse, 0.001⟩
     let setup : TrainingSetup := ⟨some model, some ⟨[2], [1.5, -0.25]⟩, none, 4, 32⟩
     let graph : Graph := ⟨[⟨"t", .trainModel 4 32, .obj [("x", .num (.int 1))],
       { output := some (.training setup), compiled := true }⟩], []⟩
     Graph.decode.ofJson graph.toJson = .ok graph) ∧
    (let connection : Connection := ⟨"m", "t", none, some "model"⟩
     Connection.decode.ofJson connection.toJson = .ok connection) ∧
    (let value : Json := .obj [
       ("edges", .arr [.obj [("id", .str "e"), ("source", .str "v"),
         ("sourceHandle", .str "output"), ("target", .str "m"), ("targetHandle", .null)]]),
       ("nodes", .arr [.arr [.str "v", .obj [("config", .obj []), ("type", .str "Value")]]])]
     let graph : Graph :=
       ⟨[⟨"v", .value none, .null, {}⟩], [⟨"e", "v", "m", some "output", none⟩]⟩
     Graph.decode.ofJson value = .ok graph ∧ Graph.decode.ofJson graph.toJson = .ok graph) := by
  refine ⟨read_of_written.1 _ _ (by decide +kernel) (.refl _),
    read_of_written.2.1 _ _ (.refl _), ?_⟩
  intro value graph
  have read : Graph.decode.ofJson value = .ok graph := rfl
  exact ⟨read, read_of_written.2.2 value graph _ rfl read (.refl _)⟩

end RecipeGraph
