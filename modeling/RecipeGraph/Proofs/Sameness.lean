import RecipeGraph.Ancestry.Fingerprint
import RecipeGraph.Proofs.FiniteFields

/-!
# Equality of fields, results and fingerprints

Equality of numbers carries over to everything built from them. It is symmetric
and transitive, and reflexive where all numbers are finite.
-/

namespace RecipeGraph

section Containers

variable {α : Type} {β : Type} [BEq α] [BEq β]

theorem option_some_beq {x y : α} : (some x == some y) = (x == y) :=
  rfl

@[simp]
theorem list_beq_self {xs : List α} (each : ∀ x ∈ xs, (x == x) = true) : (xs == xs) = true := by
  induction xs with
  | nil => rfl
  | cons x xs ih =>
    refine Bool.and_eq_true_iff.mpr ⟨each x List.mem_cons_self, ih fun y member => ?_⟩
    exact each y (List.mem_cons_of_mem _ member)

theorem option_beq_some {x : Option α} {b : α} (same : (x == some b) = true) :
    ∃ a, x = some a ∧ (a == b) = true := by
  cases x with
  | none => cases same
  | some a => exact ⟨a, rfl, same⟩

theorem option_beq_none {x : Option α} (same : (x == none) = true) : x = none := by
  cases x with
  | none => rfl
  | some a => cases same

instance optionPartialEquiv [PartialEquivBEq α] : PartialEquivBEq (Option α) where
  symm {x y} same := by
    cases y with
    | none => rw [option_beq_none same]; rfl
    | some b =>
      obtain ⟨a, rfl, inner⟩ := option_beq_some same
      have turned : (b == a) = true := BEq.symm inner
      exact turned
  trans {x y z} first second := by
    cases z with
    | none =>
      rw [option_beq_none second] at first
      rw [option_beq_none first]
      rfl
    | some c =>
      obtain ⟨b, rfl, right⟩ := option_beq_some second
      obtain ⟨a, rfl, left⟩ := option_beq_some first
      have joined : (a == c) = true := BEq.trans left right
      exact joined

instance listPartialEquiv [PartialEquivBEq α] : PartialEquivBEq (List α) where
  symm {xs ys} same := by
    induction xs generalizing ys with
    | nil =>
      cases ys with
      | nil => rfl
      | cons y ys => cases same
    | cons x xs ih =>
      cases ys with
      | nil => cases same
      | cons y ys =>
        have parts := Bool.and_eq_true_iff.mp same
        exact Bool.and_eq_true_iff.mpr ⟨BEq.symm parts.1, ih parts.2⟩
  trans {xs ys zs} first second := by
    induction xs generalizing ys zs with
    | nil =>
      cases ys with
      | nil => exact second
      | cons y ys => cases first
    | cons x xs ih =>
      cases ys with
      | nil => cases first
      | cons y ys =>
        cases zs with
        | nil => cases second
        | cons z zs =>
          have left := Bool.and_eq_true_iff.mp first
          have right := Bool.and_eq_true_iff.mp second
          exact Bool.and_eq_true_iff.mpr
            ⟨BEq.trans left.1 right.1, ih left.2 right.2⟩

instance prodPartialEquiv [PartialEquivBEq α] [PartialEquivBEq β] : PartialEquivBEq (α × β) where
  symm same := by
    have parts := Bool.and_eq_true_iff.mp same
    exact Bool.and_eq_true_iff.mpr ⟨BEq.symm parts.1, BEq.symm parts.2⟩
  trans first second := by
    have left := Bool.and_eq_true_iff.mp first
    have right := Bool.and_eq_true_iff.mp second
    exact Bool.and_eq_true_iff.mpr
      ⟨BEq.trans left.1 right.1, BEq.trans left.2 right.2⟩

end Containers

theorem TensorValue.beq_iff {left right : TensorValue} :
    (left == right) = true ↔ left.shape = right.shape ∧ (left.values == right.values) = true := by
  change (left.shape == right.shape && left.values == right.values) = true ↔ _
  rw [Bool.and_eq_true, beq_iff_eq]

theorem ModelArtifact.beq_iff {left right : ModelArtifact} :
    (left == right) = true ↔ left.name = right.name ∧ left.inputs = right.inputs ∧
      left.output = right.output ∧ left.optimizer = right.optimizer ∧ left.loss = right.loss ∧
      (left.learningRate == right.learningRate) = true := by
  change (left.name == right.name && (left.inputs == right.inputs &&
    (left.output == right.output && (left.optimizer == right.optimizer &&
      (left.loss == right.loss && left.learningRate == right.learningRate))))) = true ↔ _
  simp only [Bool.and_eq_true, beq_iff_eq]

theorem TrainingSetup.beq_iff {left right : TrainingSetup} :
    (left == right) = true ↔ (left.model == right.model) = true ∧ (left.x == right.x) = true ∧
      (left.y == right.y) = true ∧ left.epochs = right.epochs ∧
      left.batchSize = right.batchSize := by
  change (left.model == right.model && (left.x == right.x && (left.y == right.y &&
    (left.epochs == right.epochs && left.batchSize == right.batchSize)))) = true ↔ _
  simp only [Bool.and_eq_true, beq_iff_eq]

instance : PartialEquivBEq TensorValue where
  symm same := by
    have parts := TensorValue.beq_iff.mp same
    exact TensorValue.beq_iff.mpr ⟨parts.1.symm, BEq.symm parts.2⟩
  trans first second := by
    have left := TensorValue.beq_iff.mp first
    have right := TensorValue.beq_iff.mp second
    exact TensorValue.beq_iff.mpr
      ⟨left.1.trans right.1, BEq.trans left.2 right.2⟩

instance : PartialEquivBEq ModelArtifact where
  symm same := by
    obtain ⟨name, inputs, output, optimizer, loss, rate⟩ := ModelArtifact.beq_iff.mp same
    exact ModelArtifact.beq_iff.mpr ⟨name.symm, inputs.symm, output.symm, optimizer.symm,
      loss.symm, BEq.symm rate⟩
  trans first second := by
    obtain ⟨name, inputs, output, optimizer, loss, rate⟩ := ModelArtifact.beq_iff.mp first
    obtain ⟨name', inputs', output', optimizer', loss', rate'⟩ := ModelArtifact.beq_iff.mp second
    exact ModelArtifact.beq_iff.mpr ⟨name.trans name', inputs.trans inputs', output.trans output',
      optimizer.trans optimizer', loss.trans loss', BEq.trans rate rate'⟩

instance : PartialEquivBEq TrainingSetup where
  symm same := by
    obtain ⟨model, x, y, epochs, batchSize⟩ := TrainingSetup.beq_iff.mp same
    exact TrainingSetup.beq_iff.mpr ⟨BEq.symm model, BEq.symm x,
      BEq.symm y, epochs.symm, batchSize.symm⟩
  trans first second := by
    obtain ⟨model, x, y, epochs, batchSize⟩ := TrainingSetup.beq_iff.mp first
    obtain ⟨model', x', y', epochs', batchSize'⟩ := TrainingSetup.beq_iff.mp second
    exact TrainingSetup.beq_iff.mpr ⟨BEq.trans model model',
      BEq.trans x x', BEq.trans y y', epochs.trans epochs',
      batchSize.trans batchSize'⟩

/-- Equal results are of the same sort. -/
inductive Artifact.Matches : Artifact → Artifact → Prop
  | scalar {x y : Float} (same : (x == y) = true) : Matches (.scalar x) (.scalar y)
  | tensor {x y : TensorValue} (same : (x == y) = true) : Matches (.tensor x) (.tensor y)
  | layer (tensor : SymbolicTensor) : Matches (.layer tensor) (.layer tensor)
  | model {x y : ModelArtifact} (same : (x == y) = true) : Matches (.model x) (.model y)
  | training {x y : TrainingSetup} (same : (x == y) = true) :
      Matches (.training x) (.training y)

theorem Artifact.beq_iff {left right : Artifact} :
    (left == right) = true ↔ left.Matches right := by
  constructor
  · intro same
    cases left <;> cases right <;> try cases same
    case scalar => exact .scalar same
    case tensor => exact .tensor same
    case layer x y =>
      have equal : x = y := by
        change (x == y) = true at same
        exact eq_of_beq same
      rw [equal]
      exact .layer y
    case model => exact .model same
    case training => exact .training same
  · intro matched
    cases matched with
    | scalar same => exact same
    | tensor same => exact same
    | layer tensor => exact (beq_self_eq_true tensor)
    | model same => exact same
    | training same => exact same

instance : PartialEquivBEq Artifact where
  symm {left right} equal := by
    apply Artifact.beq_iff.mpr
    cases Artifact.beq_iff.mp equal with
    | scalar same => exact .scalar (BEq.symm same)
    | tensor same => exact .tensor (BEq.symm same)
    | layer tensor => exact .layer tensor
    | model same => exact .model (BEq.symm same)
    | training same => exact .training (BEq.symm same)
  trans {left middle right} first second := by
    apply Artifact.beq_iff.mpr
    have further := Artifact.beq_iff.mp second
    cases Artifact.beq_iff.mp first with
    | scalar same => cases further with | scalar next => exact .scalar (BEq.trans same next)
    | tensor same => cases further with | tensor next => exact .tensor (BEq.trans same next)
    | layer tensor => exact further
    | model same => cases further with | model next => exact .model (BEq.trans same next)
    | training same =>
      cases further with | training next => exact .training (BEq.trans same next)

/-- Equal fields are of the same kind, and equal but for signs of zeros. -/
inductive NodeParams.Matches : NodeParams → NodeParams → Prop
  | value {x y : Option Float} (same : (x == y) = true) : Matches (.value x) (.value y)
  | multiply {a b a' b' : Option Float} (left : (a == a') = true) (right : (b == b') = true) :
      Matches (.multiply a b) (.multiply a' b')
  | tensor {values values' : List Float} (shape : List Nat)
      (same : (values == values') = true) : Matches (.tensor values shape) (.tensor values' shape)
  | inputLayer (shape : List Nat) : Matches (.inputLayer shape) (.inputLayer shape)
  | denseLayer (units : Nat) (activation : Activation) (inputShape : Option (List Nat)) :
      Matches (.denseLayer units activation inputShape) (.denseLayer units activation inputShape)
  | model (optimizer : Optimizer) (loss : Loss) {rate rate' : Float}
      (same : (rate == rate') = true) :
      Matches (.model optimizer loss rate) (.model optimizer loss rate')
  | trainModel (epochs batchSize : Nat) :
      Matches (.trainModel epochs batchSize) (.trainModel epochs batchSize)

namespace NodeParams

theorem beq_iff {left right : NodeParams} : (left == right) = true ↔ left.Matches right := by
  constructor
  · intro same
    cases left <;> cases right <;> try cases same
    case value => exact .value same
    case multiply =>
      have parts := Bool.and_eq_true_iff.mp same
      exact .multiply parts.1 parts.2
    case tensor =>
      have parts := Bool.and_eq_true_iff.mp same
      rw [eq_of_beq parts.2]
      exact .tensor _ parts.1
    case inputLayer x y =>
      change (x == y) = true at same
      rw [eq_of_beq same]
      exact .inputLayer _
    case denseLayer u a s u' a' s' =>
      change (u == u' && (a == a' && s == s')) = true at same
      simp only [Bool.and_eq_true, beq_iff_eq] at same
      rw [same.1, same.2.1, same.2.2]
      exact .denseLayer _ _ _
    case model o l r o' l' r' =>
      change (o == o' && (l == l' && r == r')) = true at same
      simp only [Bool.and_eq_true, beq_iff_eq] at same
      rw [same.1, same.2.1]
      exact .model _ _ same.2.2
    case trainModel e b e' b' =>
      change (e == e' && b == b') = true at same
      simp only [Bool.and_eq_true, beq_iff_eq] at same
      rw [same.1, same.2]
      exact .trainModel _ _
  · intro matched
    cases matched with
    | value same => exact same
    | multiply left right => exact Bool.and_eq_true_iff.mpr ⟨left, right⟩
    | tensor shape same => exact Bool.and_eq_true_iff.mpr ⟨same, beq_self_eq_true shape⟩
    | inputLayer shape => exact beq_self_eq_true shape
    | denseLayer u a s =>
      change (u == u && (a == a && s == s)) = true
      simp
    | model o l same =>
      change (o == o && (l == l && _ == _)) = true
      simp [same]
    | trainModel e b =>
      change (e == e && b == b) = true
      simp

instance : PartialEquivBEq NodeParams where
  symm {left right} equal := by
    apply beq_iff.mpr
    cases beq_iff.mp equal with
    | value same => exact .value (BEq.symm same)
    | multiply left right => exact .multiply (BEq.symm left) (BEq.symm right)
    | tensor shape same => exact .tensor shape (BEq.symm same)
    | inputLayer shape => exact .inputLayer shape
    | denseLayer u a s => exact .denseLayer u a s
    | model o l same => exact .model o l (BEq.symm same)
    | trainModel e b => exact .trainModel e b
  trans {left middle right} first second := by
    apply beq_iff.mpr
    have further := beq_iff.mp second
    cases beq_iff.mp first with
    | value same => cases further with | value next => exact .value (BEq.trans same next)
    | multiply a b =>
      cases further with
      | multiply a' b' => exact .multiply (BEq.trans a a') (BEq.trans b b')
    | tensor shape same =>
      cases further with | tensor _ next => exact .tensor shape (BEq.trans same next)
    | inputLayer shape => exact further
    | denseLayer u a s => exact further
    | model o l same =>
      cases further with
      | model _ _ next => exact .model o l (BEq.trans same next)
    | trainModel e b => exact further

@[simp] theorem literal_beq_self {x : Option Float} (finite : x.all (·.isFinite) = true) :
    (x == x) = true := by
  cases x with
  | none => rfl
  | some x => exact Number.beq_self (Number.isNaN_of_isFinite finite)

/-- Finite fields are equal to themselves. -/
@[simp] theorem beq_self {params : NodeParams} (finite : params.isFinite = true) :
    (params == params) = true := by
  apply beq_iff.mpr
  cases params with
  | value x => exact .value (literal_beq_self finite)
  | multiply a b =>
    have parts := Bool.and_eq_true_iff.mp finite
    exact .multiply (literal_beq_self parts.1) (literal_beq_self parts.2)
  | tensor values shape =>
    refine .tensor shape (list_beq_self fun x member => ?_)
    exact Number.beq_self (Number.isNaN_of_isFinite (List.all_eq_true.mp finite x member))
  | inputLayer shape => exact .inputLayer shape
  | denseLayer u a s => exact .denseLayer u a s
  | model o l rate => exact .model o l (Number.beq_self (Number.isNaN_of_isFinite finite))
  | trainModel e b => exact .trainModel e b

end NodeParams

theorem Fingerprint.beq_iff {left right : Fingerprint} :
    (left == right) = true ↔ (left.nodes == right.nodes) = true ∧ left.edges = right.edges := by
  change (left.nodes == right.nodes && left.edges == right.edges) = true ↔ _
  rw [Bool.and_eq_true]
  exact and_congr_right fun _ => beq_iff_eq

instance : PartialEquivBEq Fingerprint where
  symm same := by
    have parts := Fingerprint.beq_iff.mp same
    exact Fingerprint.beq_iff.mpr ⟨BEq.symm parts.1, parts.2.symm⟩
  trans first second := by
    have left := Fingerprint.beq_iff.mp first
    have right := Fingerprint.beq_iff.mp second
    exact Fingerprint.beq_iff.mpr ⟨BEq.trans left.1 right.1, left.2.trans right.2⟩

end RecipeGraph
