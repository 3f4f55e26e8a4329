import RecipeGraph.Graph.Wire
import RecipeGraph.Proofs.Ascending
import RecipeGraph.Proofs.FiniteDrafts

/-!
# What documents can hold

The numbers of a document are finite, its counts have 64 bits, and the entries of the
objects that are kept as they are stand in ascending order. Whatever is read from a draft
of finite numbers is of this sort.
-/

namespace RecipeGraph

def Number.isCount (n : Nat) : Bool :=
  decide (n < limit)

namespace NodeParams

/-- Whether a document can hold the fields: their numbers are finite, and their counts
are of 64 bits. -/
def isWritable : NodeParams → Bool
  | .value x => x.all (·.isFinite)
  | .multiply a b => a.all (·.isFinite) && b.all (·.isFinite)
  | .tensor values shape => values.all (·.isFinite) && shape.all Number.isCount
  | .inputLayer shape => shape.all Number.isCount
  | .denseLayer units _ inputShape =>
    Number.isCount units && inputShape.all (·.all Number.isCount)
  | .model _ _ learningRate => learningRate.isFinite
  | .trainModel epochs batchSize => Number.isCount epochs && Number.isCount batchSize

end NodeParams

def Dim.isWritable : Dim → Bool
  | .batch => true
  | .fixed length => Number.isCount length

def LayerKind.isWritable : LayerKind → Bool
  | .input => true
  | .dense units _ => Number.isCount units

def LayerSpec.isWritable (layer : LayerSpec) : Bool :=
  layer.kind.isWritable && (layer.outputShape.all Dim.isWritable && Number.isCount layer.params)

def SymbolicTensor.isWritable (tensor : SymbolicTensor) : Bool :=
  tensor.shape.all Dim.isWritable && tensor.layers.all LayerSpec.isWritable

def TensorValue.isWritable (tensor : TensorValue) : Bool :=
  tensor.shape.all Number.isCount && tensor.values.all (·.isFinite)

def ModelArtifact.isWritable (model : ModelArtifact) : Bool :=
  model.inputs.all SymbolicTensor.isWritable &&
    (model.output.isWritable && model.learningRate.isFinite)

def TrainingSetup.isWritable (setup : TrainingSetup) : Bool :=
  setup.model.all ModelArtifact.isWritable &&
    (setup.x.all TensorValue.isWritable && (setup.y.all TensorValue.isWritable &&
      (Number.isCount setup.epochs && Number.isCount setup.batchSize)))

def Artifact.isWritable : Artifact → Bool
  | .scalar x => x.isFinite
  | .tensor data => data.isWritable
  | .layer symbolic => symbolic.isWritable
  | .model built => built.isWritable
  | .training setup => setup.isWritable

def NodeData.isWritable (data : NodeData) : Bool :=
  data.output.all Artifact.isWritable

/-- A position holds any value, with its entries in ascending order. -/
def Node.isWritable (node : Node) : Bool :=
  node.params.isWritable && (node.position.isCanonical && node.data.isWritable)

def Graph.isWritable (graph : Graph) : Bool :=
  graph.nodes.all Node.isWritable

open Number (Numeral)

theorem Decoder.Yields.count :
    Decoder.size.Yields Numeral.isFinite fun n => Number.isCount n = true :=
  Yields.size.mono fun _ small => decide_eq_true small

theorem Decoder.Yields.all {decode : Decoder α} {test : α → Bool}
    (yields : decode.Yields Numeral.isFinite fun a => test a = true) :
    (Decoder.list decode).Yields Numeral.isFinite fun as => as.all test = true :=
  yields.list.mono fun _ each => List.all_eq_true.mpr each

theorem Decoder.Yields.given {decode : Decoder α} {test : α → Bool}
    (yields : decode.Yields Numeral.isFinite fun a => test a = true) :
    (Decoder.optional decode).Yields Numeral.isFinite fun a => a.all test = true :=
  yields.optional.mono fun a each => by
    cases a with
    | none => rfl
    | some b => exact each b rfl

open Decoder.Yields (count)
open Form.Yields (required withDefault)

/-- The form of a kind reads fields that can be written. -/
theorem NodeParams.yields_form (kind : NodeKind) :
    (form kind).Yields Numeral.isFinite fun params => params.isWritable = true := by
  have number := Decoder.yields_float
  have literal := Decoder.yields_float.given
  cases kind with
  | value => exact (withDefault literal rfl).map fun _ finite => finite
  | multiply =>
    exact ((withDefault literal rfl).both (withDefault literal rfl)).map fun _ finite =>
      Bool.and_eq_true_iff.mpr finite
  | tensor =>
    exact ((required number.all).both (required count.all)).map fun _ fits =>
      Bool.and_eq_true_iff.mpr fits
  | model =>
    refine ((withDefault (.trivial _) trivial).both ((withDefault (.trivial _) trivial).both
      (withDefault number ?_))).map fun _ finite => finite.2.2
    decide +kernel
  | inputLayer => exact (required count.all).map fun _ fits => fits
  | denseLayer =>
    exact ((required count).both ((withDefault (.trivial _) trivial).both
      (withDefault count.all.given rfl))).map fun _ fits =>
        Bool.and_eq_true_iff.mpr ⟨fits.1, fits.2.2⟩
  | trainModel =>
    exact ((required count).both (required count)).map fun _ fits =>
      Bool.and_eq_true_iff.mpr fits

theorem NodeParams.yields_decode :
    decode.Yields Numeral.isFinite fun params => params.isWritable = true := by
  apply Decoder.Yields.tagBeside
  intro name decode member
  obtain ⟨⟨name', kind⟩, _, same⟩ := List.mem_map.mp member
  cases same
  exact (yields_form kind).readObject

theorem Dim.yields_decode :
    decode.Yields Numeral.isFinite fun dim => dim.isWritable = true := by
  refine .oneOf fun name choice member => ?_
  rcases List.mem_pair.mp member with same | same
  · cases same
    exact (rfl : Dim.batch.isWritable = true)
  · cases same
    exact count.case fun _ fits => fits

theorem LayerKind.yields_decode :
    decode.Yields Numeral.isFinite fun kind => kind.isWritable = true := by
  refine .tagInside fun name decode member => ?_
  rcases List.mem_pair.mp member with same | same
  · cases same
    exact .noFields rfl
  · cases same
    exact (((required count).both (required (.trivial _))).map fun _ fits => fits.1).read

theorem LayerSpec.yields_decode :
    decode.Yields Numeral.isFinite fun layer => layer.isWritable = true := by
  refine (((required (.trivial _)).both ((required LayerKind.yields_decode).both
    ((required Dim.yields_decode.all).both (required count)))).map fun _ fits => ?_).read
  exact Bool.and_eq_true_iff.mpr ⟨fits.2.1, Bool.and_eq_true_iff.mpr fits.2.2⟩

theorem SymbolicTensor.yields_decode :
    decode.Yields Numeral.isFinite fun tensor => tensor.isWritable = true := by
  refine (((required Dim.yields_decode.all).both (required LayerSpec.yields_decode.all)).map
    fun _ fits => ?_).read
  exact Bool.and_eq_true_iff.mpr fits

theorem TensorValue.yields_decode :
    decode.Yields Numeral.isFinite fun tensor => tensor.isWritable = true := by
  refine (((required count.all).both (required Decoder.yields_float.all)).map
    fun _ fits => ?_).read
  exact Bool.and_eq_true_iff.mpr fits

theorem ModelArtifact.yields_decode :
    decode.Yields Numeral.isFinite fun model => model.isWritable = true := by
  refine (((required (.trivial _)).both ((required SymbolicTensor.yields_decode.all).both
    ((required SymbolicTensor.yields_decode).both ((required (.trivial _)).both
      ((required (.trivial _)).both (required Decoder.yields_float)))))).map fun _ fits => ?_).read
  exact Bool.and_eq_true_iff.mpr
    ⟨fits.2.1, Bool.and_eq_true_iff.mpr ⟨fits.2.2.1, fits.2.2.2.2.2⟩⟩

theorem TrainingSetup.yields_slot {key : String} {decode : Decoder α} {test : α → Bool}
    (yields : decode.Yields Numeral.isFinite fun a => test a = true) :
    (slot key decode).Yields Numeral.isFinite fun a => a.all test = true :=
  .field yields.given fun a stands => by
    rcases stands with stands | stands
    · cases stands
      rfl
    · cases stands

theorem TrainingSetup.yields_decode :
    decode.Yields Numeral.isFinite fun setup => setup.isWritable = true := by
  refine (((yields_slot ModelArtifact.yields_decode).both
    ((yields_slot TensorValue.yields_decode).both
      ((yields_slot TensorValue.yields_decode).both
        ((required count).both (required count))))).map fun _ fits => ?_).read
  obtain ⟨model, x, y, epochs, batchSize⟩ := fits
  simp only [isWritable, model, x, y, epochs, batchSize, Bool.and_self]

theorem Artifact.yields_decode :
    decode.Yields Numeral.isFinite fun artifact => artifact.isWritable = true := by
  refine .tagBeside fun name decode member => ?_
  simp only [List.mem_cons, Prod.mk.injEq, List.not_mem_nil, or_false] at member
  rcases member with ⟨-, rfl⟩ | ⟨-, rfl⟩ | ⟨-, rfl⟩ | ⟨-, rfl⟩ | ⟨-, rfl⟩
  · exact Decoder.yields_float.case fun _ finite => finite
  · exact TensorValue.yields_decode.case fun _ fits => fits
  · exact SymbolicTensor.yields_decode.case fun _ fits => fits
  · exact ModelArtifact.yields_decode.case fun _ fits => fits
  · exact TrainingSetup.yields_decode.case fun _ fits => fits

theorem NodeData.yields_decode :
    decode.Yields Numeral.isFinite fun data => data.isWritable = true := by
  refine (((withDefault (.trivial _) trivial).both
    ((withDefault Artifact.yields_decode.given rfl).both
      (withDefault (.trivial _) trivial))).map fun _ fits => ?_).read
  exact fits.2.1

/-- Objects that are kept as they are have been sorted. -/
theorem Decoder.yields_canonical :
    Decoder.json.Yields Numeral.isFinite fun value => value.isCanonical = true := by
  intro reading draft value _ read
  unfold Decoder.json at read
  split at read
  · next whole =>
    cases read
    exact Draft.isCanonical_of_value? whole
  · cases read

theorem Node.yields_decode :
    decode.Yields Numeral.isFinite fun node => node.isWritable = true := by
  refine (((required (.trivial _)).both ((required NodeParams.yields_decode).both
    ((withDefault Decoder.yields_canonical rfl).both
      (withDefault NodeData.yields_decode rfl)))).map fun _ fits => ?_).read
  exact Bool.and_eq_true_iff.mpr ⟨fits.2.1, Bool.and_eq_true_iff.mpr fits.2.2⟩

theorem Graph.yields_decode :
    decode.Yields Numeral.isFinite fun graph => graph.isWritable = true := by
  refine (((required Node.yields_decode.all).both (required (.trivial _))).map
    fun _ fits => ?_).read
  exact fits.1

end RecipeGraph
