import RecipeGraph.Proofs.Rescanning
import RecipeGraph.Proofs.Roundtrip

/-!
# Graphs survive being sent

The text of a written graph is read as the graph again, but for the last places of its
numbers. The only limit is how deep brackets are nested, and of all that is in a graph only
positions can reach it.
-/

namespace RecipeGraph

open Number (Numeral)

namespace Json

variable {allows : Numeral → Bool}

theorem entries_of_perm {entries middle : List (String × Json)} (shuffled : entries.Perm middle) :
    allEntries allows middle = allEntries allows entries ∧
      depthEntries middle = depthEntries entries ∧
      (rereadEntries entries).Perm (rereadEntries middle) := by
  induction shuffled with
  | nil => exact ⟨rfl, rfl, .nil⟩
  | cons entry _ ih =>
    simp only [allEntries, depthEntries, rereadEntries, ih.1, ih.2.1]
    exact ⟨trivial, trivial, ih.2.2.cons _⟩
  | swap first second rest =>
    simp only [allEntries, depthEntries, rereadEntries]
    refine ⟨?_, by omega, .swap _ _ _⟩
    rw [← Bool.and_assoc, ← Bool.and_assoc, Bool.and_comm (first.2.all allows)]
  | trans _ _ left right =>
    exact ⟨right.1.trans left.1, right.2.1.trans left.2.1, left.2.2.trans right.2.2⟩

mutual

/-- Another order of the entries holds the same numbers as deep, and is read alike. -/
theorem Reorders.kept {value other : Json} (reorders : value.Reorders other) :
    other.all allows = value.all allows ∧ other.depth = value.depth ∧
      value.reread.Reorders other.reread := by
  cases reorders with
  | null => exact ⟨rfl, rfl, .null⟩
  | bool b => exact ⟨rfl, rfl, .bool b⟩
  | num n => exact ⟨rfl, rfl, .num n.reread⟩
  | str s => exact ⟨rfl, rfl, .str s⟩
  | arr each =>
    obtain ⟨numbers, deep, read⟩ := ReordersItems.kept each
    exact ⟨numbers, congrArg (· + 1) deep, .arr read⟩
  | obj shuffled each =>
    obtain ⟨numbers, deep, read⟩ := ReordersEntries.kept each
    obtain ⟨numbers', deep', read'⟩ := @entries_of_perm allows _ _ shuffled
    exact ⟨numbers.trans numbers', congrArg (· + 1) (deep.trans deep'), .obj read' read⟩

theorem ReordersItems.kept {items others : List Json} (each : ReordersItems items others) :
    allItems allows others = allItems allows items ∧ depthItems others = depthItems items ∧
      ReordersItems (rereadItems items) (rereadItems others) := by
  cases each with
  | nil => exact ⟨rfl, rfl, .nil⟩
  | cons first later =>
    obtain ⟨numbers, deep, read⟩ := Reorders.kept first
    obtain ⟨numbers', deep', read'⟩ := ReordersItems.kept later
    simp only [allItems, depthItems, numbers, numbers', deep, deep']
    exact ⟨trivial, trivial, .cons read read'⟩

theorem ReordersEntries.kept {entries others : List (String × Json)}
    (each : ReordersEntries entries others) :
    allEntries allows others = allEntries allows entries ∧
      depthEntries others = depthEntries entries ∧
      ReordersEntries (rereadEntries entries) (rereadEntries others) := by
  cases each with
  | nil => exact ⟨rfl, rfl, .nil⟩
  | cons first later =>
    obtain ⟨numbers, deep, read⟩ := Reorders.kept first
    obtain ⟨numbers', deep', read'⟩ := ReordersEntries.kept later
    simp only [allEntries, depthEntries, numbers, numbers', deep, deep']
    exact ⟨trivial, trivial, .cons read read'⟩

end

@[simp] theorem keys_rereadEntries (entries : List (String × Json)) :
    (rereadEntries entries).map (·.1) = entries.map (·.1) := by
  induction entries with
  | nil => rfl
  | cons entry rest ih => simp [rereadEntries, ih]

@[simp] theorem ascending_rereadEntries {entries : List (String × Json)} :
    Ascending (rereadEntries entries) ↔ Ascending entries := by
  rw [Ascending, keys_rereadEntries]
  rfl

mutual

/-- Entries stay in ascending order. -/
@[simp]
theorem isCanonical_reread (value : Json) : value.reread.isCanonical = value.isCanonical := by
  cases value with
  | arr items => exact canonicalItems_reread items
  | obj entries =>
    simp only [reread, isCanonical, ascending_rereadEntries, canonicalEntries_reread entries]
  | _ => rfl

@[simp] theorem canonicalItems_reread (items : List Json) :
    canonicalItems (rereadItems items) = canonicalItems items := by
  cases items with
  | nil => rfl
  | cons item rest =>
    simp only [rereadItems, canonicalItems, isCanonical_reread item, canonicalItems_reread rest]

@[simp] theorem canonicalEntries_reread (entries : List (String × Json)) :
    canonicalEntries (rereadEntries entries) = canonicalEntries entries := by
  cases entries with
  | nil => rfl
  | cons entry rest =>
    simp only [rereadEntries, canonicalEntries, isCanonical_reread entry.2,
      canonicalEntries_reread rest]

end

/-- Of a value that is nested no deeper than this, documents can hold all numbers, and
another value is read where it is written. -/
structure Rereads (limit : Nat) (value back : Json) : Prop where
  proper : value.all Numeral.isProper = true
  shallow : value.depth ≤ limit
  same : value.reread = back

structure RereadsEntries (limit : Nat) (entries back : List (String × Json)) : Prop where
  proper : allEntries Numeral.isProper entries = true
  shallow : depthEntries entries ≤ limit
  same : rereadEntries entries = back

theorem RereadsEntries.nil {limit : Nat} : RereadsEntries limit [] [] :=
  ⟨rfl, Nat.zero_le _, rfl⟩

theorem RereadsEntries.cons {limit inner : Nat} {key : String} {value back : Json}
    {rest others : List (String × Json)} (first : value.Rereads inner back) (le : inner ≤ limit)
    (later : RereadsEntries limit rest others) :
    RereadsEntries limit ((key, value) :: rest) ((key, back) :: others) := by
  refine ⟨Bool.and_eq_true_iff.mpr ⟨first.proper, later.proper⟩, ?_, ?_⟩
  · exact Nat.max_le.mpr ⟨Nat.le_trans first.shallow le, later.shallow⟩
  · rw [rereadEntries, first.same, later.same]

namespace Rereads

variable {limit : Nat}

theorem str (s : String) : (Json.str s).Rereads 0 (.str s) :=
  ⟨rfl, Nat.le_refl 0, rfl⟩

theorem bool (b : Bool) : (Json.bool b).Rereads 0 (.bool b) :=
  ⟨rfl, Nat.le_refl 0, rfl⟩

theorem size {n : Nat} (fits : Number.isCount n = true) : (Json.size n).Rereads 0 (Json.size n) := by
  have small : n < 2 ^ 64 := of_decide_eq_true fits
  have proper : (Numeral.int n).isProper = true := by
    simp only [Numeral.isProper, Bool.and_eq_true, decide_eq_true_eq]
    omega
  exact ⟨proper, Nat.le_refl 0, rfl⟩

theorem float {x : Float} (finite : x.isFinite = true) :
    (Json.float x).Rereads 0 (Json.float (Number.reread x)) := by
  rw [Json.float, Json.float, if_pos finite, if_pos (Number.isFinite_reread finite)]
  exact ⟨finite, Nat.le_refl 0, rfl⟩

theorem obj {entries back : List (String × Json)} (each : RereadsEntries limit entries back) :
    (Json.obj entries).Rereads (limit + 1) (.obj back) :=
  ⟨each.proper, Nat.succ_le_succ each.shallow, congrArg Json.obj each.same⟩

theorem map {encode : α → Json} {f : α → α} {items : List α}
    (each : ∀ a ∈ items, (encode a).Rereads limit (encode (f a))) :
    (Json.list encode items).Rereads (limit + 1) (Json.list encode (items.map f)) := by
  suffices inner : allItems Numeral.isProper (items.map encode) = true ∧
      depthItems (items.map encode) ≤ limit ∧
      rereadItems (items.map encode) = (items.map f).map encode by
    exact ⟨inner.1, Nat.succ_le_succ inner.2.1, congrArg Json.arr inner.2.2⟩
  induction items with
  | nil => exact ⟨rfl, Nat.zero_le _, rfl⟩
  | cons a rest ih =>
    have first := each a List.mem_cons_self
    obtain ⟨proper, shallow, same⟩ := ih fun b member => each b (List.mem_cons_of_mem _ member)
    refine ⟨Bool.and_eq_true_iff.mpr ⟨first.proper, proper⟩, ?_, ?_⟩
    · exact Nat.max_le.mpr ⟨first.shallow, shallow⟩
    · rw [List.map_cons, rereadItems, first.same, same]
      rfl

theorem list {encode : α → Json} {items : List α}
    (each : ∀ a ∈ items, (encode a).Rereads limit (encode a)) :
    (Json.list encode items).Rereads (limit + 1) (Json.list encode items) := by
  have mapped := @map limit _ encode id items each
  rwa [List.map_id] at mapped

theorem optional {encode : α → Json} {f : α → α} {a : Option α}
    (inner : ∀ b ∈ a, (encode b).Rereads limit (encode (f b))) :
    (Json.optional encode a).Rereads limit (Json.optional encode (a.map f)) := by
  cases a with
  | none => exact ⟨rfl, Nat.zero_le _, rfl⟩
  | some b => exact inner b rfl

theorem sizes {shape : List Nat} (fits : shape.all Number.isCount = true) :
    (Json.sizes shape).Rereads 1 (Json.sizes shape) :=
  list fun n listed => size (List.all_eq_true.mp fits n listed)

theorem floats {values : List Float} (finite : values.all (·.isFinite) = true) :
    (Json.list Json.float values).Rereads 1
      (Json.list Json.float (values.map Number.reread)) :=
  map fun x listed => float (List.all_eq_true.mp finite x listed)

theorem literal {x : Option Float} (finite : x.all (·.isFinite) = true) :
    (Json.optional Json.float x).Rereads 0 (Json.optional Json.float (x.map Number.reread)) :=
  optional fun y given => float ((Option.all_eq_true _ _).mp finite y given)

end Rereads

end Json

/-- What is restored from the value that is read back is read from the text. -/
theorem Decoder.Restores.ofText {decode : Decoder α} {written back sent : Json} {content : α}
    (restores : decode.Restores back content) (rereads : written.Rereads Draft.maxDepth back)
    (reorders : written.Reorders sent) : decode.ofText sent.print = .ok content := by
  obtain ⟨numbers, deep, read⟩ := @Json.Reorders.kept Numeral.isProper _ _ reorders
  have shallow : 0 + sent.depth ≤ Draft.maxDepth := by
    have := rereads.shallow
    omega
  rw [rereads.same] at read
  rw [Decoder.ofText, Draft.scan_print (numbers.trans rereads.proper),
    Json.scanned_of_shallow shallow]
  exact Outcome.bind_eq_ok.mpr ⟨content, restores .live _ read, rfl⟩

open Json (Rereads RereadsEntries)

@[simp]
theorem all_isFinite_reread {values : List Float} (finite : values.all (·.isFinite) = true) :
    (values.map Number.reread).all (·.isFinite) = true := by
  rw [List.all_map]
  exact List.all_eq_true.mpr fun x listed =>
    Number.isFinite_reread (List.all_eq_true.mp finite x listed)

@[simp] theorem literal_isFinite_reread {x : Option Float} (finite : x.all (·.isFinite) = true) :
    (x.map Number.reread).all (·.isFinite) = true := by
  cases x with
  | none => rfl
  | some x => exact Number.isFinite_reread finite

namespace NodeParams

/-- The fields with their numbers as they are read where they are written. -/
def reread : NodeParams → NodeParams
  | .value x => .value (x.map Number.reread)
  | .multiply a b => .multiply (a.map Number.reread) (b.map Number.reread)
  | .tensor values shape => .tensor (values.map Number.reread) shape
  | .model optimizer loss learningRate => .model optimizer loss (Number.reread learningRate)
  | other => other

@[simp] theorem isWritable_reread {params : NodeParams} (fits : params.isWritable = true) :
    params.reread.isWritable = true := by
  cases params with
  | value x => exact literal_isFinite_reread fits
  | multiply a b =>
    have parts := Bool.and_eq_true_iff.mp fits
    exact Bool.and_eq_true_iff.mpr
      ⟨literal_isFinite_reread parts.1, literal_isFinite_reread parts.2⟩
  | tensor values shape =>
    have parts := Bool.and_eq_true_iff.mp fits
    exact Bool.and_eq_true_iff.mpr ⟨all_isFinite_reread parts.1, parts.2⟩
  | model optimizer loss learningRate => exact Number.isFinite_reread fits
  | _ => exact fits

theorem rereads_config {params : NodeParams} (fits : params.isWritable = true) :
    RereadsEntries 1 params.config params.reread.config := by
  cases params with
  | value x => exact .cons (.literal fits) (by decide) .nil
  | multiply a b =>
    have parts := Bool.and_eq_true_iff.mp fits
    exact .cons (.literal parts.1) (by decide) (.cons (.literal parts.2) (by decide) .nil)
  | tensor values shape =>
    have parts := Bool.and_eq_true_iff.mp fits
    exact .cons (.sizes parts.2) (by decide) (.cons (.floats parts.1) (by decide) .nil)
  | inputLayer shape => exact .cons (.sizes fits) (by decide) .nil
  | denseLayer units activation inputShape =>
    have parts := Bool.and_eq_true_iff.mp fits
    have declared : (Json.optional Json.sizes inputShape).Rereads 1
        (Json.optional Json.sizes (inputShape.map id)) :=
      .optional fun shape given => .sizes ((Option.all_eq_true _ _).mp parts.2 shape given)
    rw [Option.map_id] at declared
    exact .cons (.str _) (by decide) (.cons declared (by decide)
      (.cons (.size parts.1) (by decide) .nil))
  | model optimizer loss learningRate =>
    exact .cons (.float fits) (by decide) (.cons (.str _) (by decide)
      (.cons (.str _) (by decide) .nil))
  | trainModel epochs batchSize =>
    have parts := Bool.and_eq_true_iff.mp fits
    exact .cons (.size parts.2) (by decide) (.cons (.size parts.1) (by decide) .nil)

@[simp] theorem kind_reread (params : NodeParams) : params.reread.kind = params.kind := by
  cases params <;> rfl

theorem rereads {params : NodeParams} (fits : params.isWritable = true) :
    params.toJson.Rereads 3 params.reread.toJson := by
  rw [toJson, toJson, kind_reread]
  exact .obj (.cons (.obj (rereads_config fits)) (by decide) (.cons (.str _) (by decide) .nil))

end NodeParams

/-- No number is in what is known of shapes and layers. -/
theorem Dim.rereads {dim : Dim} (fits : dim.isWritable = true) :
    dim.toJson.Rereads 1 dim.toJson := by
  cases dim with
  | batch => exact ⟨rfl, Nat.zero_le 1, rfl⟩
  | fixed length => exact .obj (.cons (.size fits) (by decide) .nil)

theorem Shape.rereads {shape : Shape} (fits : shape.all Dim.isWritable = true) :
    shape.toJson.Rereads 2 shape.toJson :=
  .list fun _ listed => Dim.rereads (List.all_eq_true.mp fits _ listed)

theorem LayerKind.rereads {kind : LayerKind} (fits : kind.isWritable = true) :
    kind.toJson.Rereads 1 kind.toJson := by
  cases kind with
  | input => exact .obj (.cons (.str _) (by decide) .nil)
  | dense units activation =>
    exact .obj (.cons (.str _) (by decide) (.cons (.str _) (by decide)
      (.cons (.size fits) (by decide) .nil)))

theorem LayerSpec.rereads {layer : LayerSpec} (fits : layer.isWritable = true) :
    layer.toJson.Rereads 3 layer.toJson := by
  obtain ⟨kind, rest⟩ := Bool.and_eq_true_iff.mp fits
  obtain ⟨shape, params⟩ := Bool.and_eq_true_iff.mp rest
  exact .obj (.cons (LayerKind.rereads kind) (by decide) (.cons (.str _) (by decide)
    (.cons (Shape.rereads shape) (by decide) (.cons (.size params) (by decide) .nil))))

theorem SymbolicTensor.rereads {tensor : SymbolicTensor} (fits : tensor.isWritable = true) :
    tensor.toJson.Rereads 5 tensor.toJson := by
  obtain ⟨shape, layers⟩ := Bool.and_eq_true_iff.mp fits
  have each : (Json.list LayerSpec.toJson tensor.layers).Rereads 4
      (Json.list LayerSpec.toJson tensor.layers) :=
    .list fun _ listed => LayerSpec.rereads (List.all_eq_true.mp layers _ listed)
  exact .obj (.cons each (by decide) (.cons (Shape.rereads shape) (by decide) .nil))

namespace TensorValue

def reread (tensor : TensorValue) : TensorValue :=
  { tensor with values := tensor.values.map Number.reread }

@[simp] theorem isWritable_reread {tensor : TensorValue} (fits : tensor.isWritable = true) :
    tensor.reread.isWritable = true := by
  have parts := Bool.and_eq_true_iff.mp fits
  exact Bool.and_eq_true_iff.mpr ⟨parts.1, all_isFinite_reread parts.2⟩

theorem rereads {tensor : TensorValue} (fits : tensor.isWritable = true) :
    tensor.toJson.Rereads 2 tensor.reread.toJson := by
  obtain ⟨shape, values⟩ := Bool.and_eq_true_iff.mp fits
  exact .obj (.cons (.sizes shape) (by decide) (.cons (.floats values) (by decide) .nil))

end TensorValue

namespace ModelArtifact

def reread (model : ModelArtifact) : ModelArtifact :=
  { model with learningRate := Number.reread model.learningRate }

@[simp] theorem isWritable_reread {model : ModelArtifact} (fits : model.isWritable = true) :
    model.reread.isWritable = true := by
  obtain ⟨inputs, rest⟩ := Bool.and_eq_true_iff.mp fits
  obtain ⟨output, rate⟩ := Bool.and_eq_true_iff.mp rest
  exact Bool.and_eq_true_iff.mpr
    ⟨inputs, Bool.and_eq_true_iff.mpr ⟨output, Number.isFinite_reread rate⟩⟩

theorem rereads {model : ModelArtifact} (fits : model.isWritable = true) :
    model.toJson.Rereads 7 model.reread.toJson := by
  obtain ⟨inputs, rest⟩ := Bool.and_eq_true_iff.mp fits
  obtain ⟨output, rate⟩ := Bool.and_eq_true_iff.mp rest
  have each : (Json.list SymbolicTensor.toJson model.inputs).Rereads 6
      (Json.list SymbolicTensor.toJson model.inputs) :=
    .list fun _ listed => SymbolicTensor.rereads (List.all_eq_true.mp inputs _ listed)
  exact .obj (.cons each (by decide) (.cons (.float rate) (by decide) (.cons (.str _) (by decide)
    (.cons (.str _) (by decide) (.cons (.str _) (by decide)
      (.cons (SymbolicTensor.rereads output) (by decide) .nil))))))

end ModelArtifact

theorem option_all_map {test : α → Bool} {f : α → α} {a : Option α}
    (keeps : ∀ b, test b = true → test (f b) = true) (fits : a.all test = true) :
    (a.map f).all test = true := by
  cases a with
  | none => rfl
  | some b => exact keeps b fits

namespace TrainingSetup

def reread (setup : TrainingSetup) : TrainingSetup :=
  { setup with
    model := setup.model.map ModelArtifact.reread
    x := setup.x.map TensorValue.reread
    y := setup.y.map TensorValue.reread }

@[simp] theorem isWritable_reread {setup : TrainingSetup} (fits : setup.isWritable = true) :
    setup.reread.isWritable = true := by
  simp only [isWritable, Bool.and_eq_true] at fits ⊢
  obtain ⟨model, x, y, counts⟩ := fits
  exact ⟨option_all_map (fun _ => ModelArtifact.isWritable_reread) model,
    option_all_map (fun _ => TensorValue.isWritable_reread) x,
    option_all_map (fun _ => TensorValue.isWritable_reread) y, counts⟩

theorem rereads {setup : TrainingSetup} (fits : setup.isWritable = true) :
    setup.toJson.Rereads 8 setup.reread.toJson := by
  simp only [isWritable, Bool.and_eq_true] at fits
  obtain ⟨model, x, y, epochs, batchSize⟩ := fits
  have model : (Json.optional ModelArtifact.toJson setup.model).Rereads 7
      (Json.optional ModelArtifact.toJson setup.reread.model) :=
    .optional fun b given => ModelArtifact.rereads ((Option.all_eq_true _ _).mp model b given)
  have tensor : ∀ {slot : Option TensorValue}, slot.all TensorValue.isWritable = true →
      (Json.optional TensorValue.toJson slot).Rereads 2
        (Json.optional TensorValue.toJson (slot.map TensorValue.reread)) := fun fits =>
    .optional fun b given => TensorValue.rereads ((Option.all_eq_true _ _).mp fits b given)
  exact .obj (.cons (.size batchSize) (by decide) (.cons (.size epochs) (by decide)
    (.cons model (by decide) (.cons (tensor x) (by decide) (.cons (tensor y) (by decide) .nil)))))

end TrainingSetup

namespace Artifact

def reread : Artifact → Artifact
  | .scalar x => .scalar (Number.reread x)
  | .tensor data => .tensor data.reread
  | .layer symbolic => .layer symbolic
  | .model built => .model built.reread
  | .training setup => .training setup.reread

@[simp] theorem isWritable_reread {artifact : Artifact} (fits : artifact.isWritable = true) :
    artifact.reread.isWritable = true := by
  cases artifact with
  | scalar x => exact Number.isFinite_reread fits
  | tensor data => exact TensorValue.isWritable_reread fits
  | layer symbolic => exact fits
  | model built => exact ModelArtifact.isWritable_reread fits
  | training setup => exact TrainingSetup.isWritable_reread fits

/-- The name of the case stands beside its content. -/
theorem rereads_tagged {name : String} {value back : Json} {limit : Nat}
    (content : value.Rereads limit back) (le : limit ≤ 8) :
    (Json.obj [("type", .str name), ("value", value)]).Rereads 9
      (.obj [("type", .str name), ("value", back)]) :=
  .obj (.cons (.str _) (by decide) (.cons content le .nil))

theorem rereads {artifact : Artifact} (fits : artifact.isWritable = true) :
    artifact.toJson.Rereads 9 artifact.reread.toJson := by
  cases artifact with
  | scalar x => exact rereads_tagged (.float fits) (by decide)
  | tensor data => exact rereads_tagged (TensorValue.rereads fits) (by decide)
  | layer symbolic => exact rereads_tagged (SymbolicTensor.rereads fits) (by decide)
  | model built => exact rereads_tagged (ModelArtifact.rereads fits) (by decide)
  | training setup => exact rereads_tagged (TrainingSetup.rereads fits) (by decide)

end Artifact

namespace NodeData

def reread (data : NodeData) : NodeData :=
  { data with output := data.output.map Artifact.reread }

@[simp] theorem isWritable_reread {data : NodeData} (fits : data.isWritable = true) :
    data.reread.isWritable = true :=
  option_all_map (fun _ => Artifact.isWritable_reread) fits

theorem rereads {data : NodeData} (fits : data.isWritable = true) :
    data.toJson.Rereads 10 data.reread.toJson := by
  have output : (Json.optional Artifact.toJson data.output).Rereads 9
      (Json.optional Artifact.toJson data.reread.output) :=
    .optional fun b given => Artifact.rereads ((Option.all_eq_true _ _).mp fits b given)
  have errors : (Json.texts data.errors).Rereads 1 (Json.texts data.errors) :=
    .list fun message _ => .str message
  exact .obj (.cons (.bool _) (by decide) (.cons errors (by decide)
    (.cons output (by decide) .nil)))

end NodeData

namespace Node

def reread (node : Node) : Node :=
  { node with
    params := node.params.reread
    position := node.position.reread
    data := node.data.reread }

@[simp] theorem isWritable_reread {node : Node} (fits : node.isWritable = true) :
    node.reread.isWritable = true := by
  obtain ⟨params, rest⟩ := Bool.and_eq_true_iff.mp fits
  obtain ⟨position, data⟩ := Bool.and_eq_true_iff.mp rest
  refine Bool.and_eq_true_iff.mpr
    ⟨NodeParams.isWritable_reread params, Bool.and_eq_true_iff.mpr
      ⟨?_, NodeData.isWritable_reread data⟩⟩
  exact (Json.isCanonical_reread node.position).trans position

/-- A node is nested as deep as its position or its result. -/
theorem rereads {node : Node} {limit : Nat} (fits : node.isWritable = true)
    (proper : node.position.all Numeral.isProper = true) (shallow : node.position.depth ≤ limit)
    (room : 10 ≤ limit) : node.toJson.Rereads (limit + 1) node.reread.toJson := by
  obtain ⟨params, rest⟩ := Bool.and_eq_true_iff.mp fits
  obtain ⟨-, data⟩ := Bool.and_eq_true_iff.mp rest
  have position : node.position.Rereads limit node.position.reread := ⟨proper, shallow, rfl⟩
  exact .obj (.cons (NodeData.rereads data) room (.cons (.str _) (Nat.zero_le _)
    (.cons (NodeParams.rereads params) (by omega) (.cons position (Nat.le_refl _) .nil))))

end Node

theorem Edge.rereads (edge : Edge) : edge.toJson.Rereads 1 edge.toJson := by
  have handle : ∀ name : Option String, (Json.optional .str name).Rereads 0
      (Json.optional .str name) := by
    intro name
    cases name with
    | none => exact ⟨rfl, Nat.zero_le _, rfl⟩
    | some text => exact .str text
  exact .obj (.cons (.str _) (by decide) (.cons (.str _) (by decide) (.cons (handle _) (by decide)
    (.cons (.str _) (by decide) (.cons (handle _) (by decide) .nil)))))

namespace Graph

/-- The graph with its numbers as they are read where they are written. -/
def reread (graph : Graph) : Graph :=
  { graph with nodes := graph.nodes.map Node.reread }

@[simp] theorem isWritable_reread {graph : Graph} (fits : graph.isWritable = true) :
    graph.reread.isWritable = true := by
  change (graph.nodes.map Node.reread).all Node.isWritable = true
  rw [List.all_map]
  exact List.all_eq_true.mpr fun node listed =>
    Node.isWritable_reread (List.all_eq_true.mp fits node listed)

theorem rereads {graph : Graph} {limit : Nat} (fits : graph.isWritable = true)
    (proper : ∀ node ∈ graph.nodes, node.position.all Numeral.isProper = true)
    (shallow : ∀ node ∈ graph.nodes, node.position.depth ≤ limit) (room : 10 ≤ limit) :
    graph.toJson.Rereads (limit + 3) graph.reread.toJson := by
  have nodes : (Json.list Node.toJson graph.nodes).Rereads (limit + 2)
      (Json.list Node.toJson graph.reread.nodes) :=
    .map fun node listed =>
      Node.rereads (List.all_eq_true.mp fits node listed) (proper node listed)
        (shallow node listed) room
  have edges : (Json.list Edge.toJson graph.edges).Rereads 2
      (Json.list Edge.toJson graph.edges) :=
    .list fun edge _ => edge.rereads
  exact .obj (.cons edges (by omega) (.cons nodes (Nat.le_refl _) .nil))

/-- How deep brackets may be nested in a position: three of them are around it. -/
def maxPositionDepth : Nat :=
  124

/-- A written graph is read from its text, whatever the order of the entries. -/
theorem ofText_print {graph : Graph} {sent : Json} (fits : graph.isWritable = true)
    (proper : ∀ node ∈ graph.nodes, node.position.all Numeral.isProper = true)
    (shallow : ∀ node ∈ graph.nodes, node.position.depth ≤ maxPositionDepth)
    (reorders : graph.toJson.Reorders sent) : decode.ofText sent.print = .ok graph.reread :=
  (Graph.restores (isWritable_reread fits)).ofText (rereads fits proper shallow (by decide))
    reorders

end Graph

/-- So is a written node, whose position has fewer brackets around it. -/
theorem Node.ofText_print {node : Node} {sent : Json} (fits : node.isWritable = true)
    (proper : node.position.all Numeral.isProper = true)
    (shallow : node.position.depth ≤ Graph.maxPositionDepth + 2)
    (reorders : node.toJson.Reorders sent) : decode.ofText sent.print = .ok node.reread :=
  (Node.restores (isWritable_reread fits)).ofText (rereads fits proper shallow (by decide))
    reorders

end RecipeGraph
