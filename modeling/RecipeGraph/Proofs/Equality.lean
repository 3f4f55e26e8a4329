import RecipeGraph.Layers

/-!
# Equality of numbers

Two binary64 numbers are equal if they are the same number or both zero, and a
NaN equals nothing. Everything a compiler asks of a number respects this
equality, which is what comparing fields and results by it relies on.
-/

namespace RecipeGraph

namespace Number

open Float.Model (UnpackedFloat Format)
open Float.Model.UnpackedFloat (Sign)

def IsZero (u : UnpackedFloat) : Prop :=
  ∃ s, u = .zero s

/-- The same number, or zeros of either sign. -/
def Twin (u v : UnpackedFloat) : Prop :=
  u = v ∨ (IsZero u ∧ IsZero v)

theorem Twin.symm {u v : UnpackedFloat} (twin : Twin u v) : Twin v u := by
  rcases twin with rfl | ⟨left, right⟩
  · exact .inl rfl
  · exact .inr ⟨right, left⟩

theorem Twin.trans {u v w : UnpackedFloat} (first : Twin u v) (second : Twin v w) : Twin u w := by
  rcases first with rfl | ⟨left, middle⟩
  · exact second
  · rcases second with rfl | ⟨_, right⟩
    · exact .inr ⟨left, middle⟩
    · exact .inr ⟨left, right⟩

@[simp]
theorem unpacked_beq_self {u : UnpackedFloat} (number : u ≠ .notANumber) : u.beq u = true := by
  cases u with
  | notANumber => exact absurd rfl number
  | zero s => rfl
  | infinity s => cases s <;> rfl
  | finite s m e positive =>
    have exponents : compare e e = .eq := Int.compare_eq_eq.mpr rfl
    have mantissas : compare m m = .eq := Nat.compare_eq_eq.mpr rfl
    cases s with
    | positive =>
      change (some ((compare e e).then (compare m m)) == some .eq) = true
      rw [exponents, mantissas]
      rfl
    | negative =>
      change (some ((compare e e).then (compare m m)).swap == some .eq) = true
      rw [exponents, mantissas]
      rfl

theorem eq_of_compare_then {m n : Nat} {e f : Int}
    (same : (compare e f).then (compare m n) = .eq) : m = n ∧ e = f := by
  obtain ⟨exponents, mantissas⟩ := Ordering.then_eq_eq.mp same
  exact ⟨Nat.compare_eq_eq.mp mantissas, Int.compare_eq_eq.mp exponents⟩

theorem twin_of_beq {u v : UnpackedFloat} (equal : u.beq v = true) : Twin u v := by
  cases u with
  | notANumber => exact absurd equal Bool.false_ne_true
  | zero s =>
    cases v with
    | zero t => exact .inr ⟨⟨s, rfl⟩, t, rfl⟩
    | notANumber => exact absurd equal Bool.false_ne_true
    | infinity t => cases t <;> exact absurd equal Bool.false_ne_true
    | finite t => cases t <;> exact absurd equal Bool.false_ne_true
  | infinity s =>
    cases v with
    | infinity t => cases s <;> cases t <;> first | exact .inl rfl | exact absurd equal (by decide)
    | _ => cases s <;> exact absurd equal Bool.false_ne_true
  | finite s m e positive =>
    cases v with
    | finite t n f positive' =>
      cases s <;> cases t
      case positive.positive =>
        obtain ⟨rfl, rfl⟩ := eq_of_compare_then (Option.some.inj (eq_of_beq equal))
        exact .inl rfl
      case negative.negative =>
        have swapped := Option.some.inj (eq_of_beq equal)
        obtain ⟨rfl, rfl⟩ := eq_of_compare_then (Ordering.swap_eq_eq.mp swapped)
        exact .inl rfl
      all_goals exact absurd equal Bool.false_ne_true
    | zero t => cases s <;> exact absurd equal Bool.false_ne_true
    | notANumber => exact absurd equal Bool.false_ne_true
    | infinity t => cases t <;> exact absurd equal Bool.false_ne_true

@[simp] theorem unpacked_beq_iff {u v : UnpackedFloat} :
    u.beq v = true ↔ Twin u v ∧ u ≠ .notANumber := by
  constructor
  · intro equal
    refine ⟨twin_of_beq equal, ?_⟩
    rintro rfl
    exact absurd equal Bool.false_ne_true
  · rintro ⟨rfl | ⟨⟨s, rfl⟩, t, rfl⟩, number⟩
    · exact unpacked_beq_self number
    · rfl

theorem Twin.isNaN {u v : UnpackedFloat} (twin : Twin u v) : u.isNaN = v.isNaN := by
  rcases twin with rfl | ⟨⟨s, rfl⟩, t, rfl⟩ <;> rfl

theorem Twin.isFinite {u v : UnpackedFloat} (twin : Twin u v) : u.isFinite = v.isFinite := by
  rcases twin with rfl | ⟨⟨s, rfl⟩, t, rfl⟩ <;> rfl

@[simp] theorem isNaN_iff {u : UnpackedFloat} : u.isNaN = true ↔ u = .notANumber := by
  cases u with
  | notANumber => exact iff_of_true rfl rfl
  | _ => exact iff_of_false nofun nofun

/-- No number is less than only one of two that are equal. -/
theorem Twin.lt {u v : UnpackedFloat} (twin : Twin u v) (w : UnpackedFloat) :
    w.lt u = w.lt v := by
  rcases twin with rfl | ⟨⟨s, rfl⟩, t, rfl⟩
  · rfl
  · rcases w with r | _ | r | ⟨r, m, e, positive⟩ <;> try cases r
    all_goals rfl

theorem mul_zero_twin (s t : Sign) (v : UnpackedFloat) :
    Twin (UnpackedFloat.mul Format.binary64 (.zero s) v)
      (UnpackedFloat.mul Format.binary64 (.zero t) v) := by
  cases v with
  | zero r => exact .inr ⟨⟨_, rfl⟩, _, rfl⟩
  | notANumber => exact .inl rfl
  | infinity r => exact .inl rfl
  | finite r m e positive => exact .inr ⟨⟨_, rfl⟩, _, rfl⟩

theorem zero_mul_twin (s t : Sign) (u : UnpackedFloat) :
    Twin (UnpackedFloat.mul Format.binary64 u (.zero s))
      (UnpackedFloat.mul Format.binary64 u (.zero t)) := by
  cases u with
  | zero r => exact .inr ⟨⟨_, rfl⟩, _, rfl⟩
  | notANumber => exact .inl rfl
  | infinity r => exact .inl rfl
  | finite r m e positive => exact .inr ⟨⟨_, rfl⟩, _, rfl⟩

theorem Twin.mul {u u' v v' : UnpackedFloat} (left : Twin u u') (right : Twin v v') :
    Twin (UnpackedFloat.mul Format.binary64 u v) (UnpackedFloat.mul Format.binary64 u' v') := by
  have first : Twin (UnpackedFloat.mul Format.binary64 u v)
      (UnpackedFloat.mul Format.binary64 u' v) := by
    rcases left with rfl | ⟨⟨s, rfl⟩, t, rfl⟩
    · exact .inl rfl
    · exact mul_zero_twin s t v
  have second : Twin (UnpackedFloat.mul Format.binary64 u' v)
      (UnpackedFloat.mul Format.binary64 u' v') := by
    rcases right with rfl | ⟨⟨s, rfl⟩, t, rfl⟩
    · exact .inl rfl
    · exact zero_mul_twin s t u'
  exact first.trans second

@[simp] theorem unpack_pack_zero (s : Sign) :
    (Float.Model.pack (.zero s)).unpack = .zero s := by
  cases s <;> rfl

theorem Twin.pack {u v : UnpackedFloat} (twin : Twin u v) :
    Twin (Float.Model.pack u).unpack (Float.Model.pack v).unpack := by
  rcases twin with rfl | ⟨⟨s, rfl⟩, t, rfl⟩
  · exact .inl rfl
  · rw [unpack_pack_zero, unpack_pack_zero]
    exact .inr ⟨⟨_, rfl⟩, _, rfl⟩

/-- Floats that differ in the sign of zero at most. -/
def Alike (x y : Float) : Prop :=
  Twin x.toModel.unpack y.toModel.unpack

theorem beq_iff {x y : Float} : (x == y) = true ↔ Alike x y ∧ x.isNaN = false := by
  change x.toModel.unpack.beq y.toModel.unpack = true ↔ _
  rw [unpacked_beq_iff]
  refine and_congr_right fun _ => ?_
  change _ ↔ x.toModel.unpack.isNaN = false
  rw [← Bool.not_eq_true, isNaN_iff]

theorem Alike.isNaN {x y : Float} (alike : Alike x y) : x.isNaN = y.isNaN :=
  Twin.isNaN alike

@[simp] theorem beq_self {x : Float} (number : x.isNaN = false) : (x == x) = true :=
  beq_iff.mpr ⟨.inl rfl, number⟩

theorem isNaN_of_isFinite {x : Float} (finite : x.isFinite = true) : x.isNaN = false := by
  change x.toModel.unpack.isFinite = true at finite
  change x.toModel.unpack.isNaN = false
  revert finite
  cases x.toModel.unpack with
  | notANumber => exact nofun
  | infinity s => exact nofun
  | _ => exact fun _ => rfl

instance floatPartialEquiv : PartialEquivBEq Float where
  symm same := by
    have parts := beq_iff.mp same
    exact beq_iff.mpr ⟨Twin.symm parts.1, parts.1.isNaN ▸ parts.2⟩
  trans first second := by
    have left := beq_iff.mp first
    have right := beq_iff.mp second
    exact beq_iff.mpr ⟨Twin.trans left.1 right.1, left.2⟩

theorem Alike.mul {x x' y y' : Float} (left : Alike x x') (right : Alike y y') :
    Alike (x * y) (x' * y') :=
  Twin.pack (Twin.mul left right)

/-- Products of equal numbers are both a number or both none. -/
theorem isNaN_mul {x x' y y' : Float} (left : (x == x') = true) (right : (y == y') = true) :
    (x * y).isNaN = (x' * y').isNaN :=
  ((beq_iff.mp left).1.mul (beq_iff.mp right).1).isNaN

theorem mul_beq_mul {x x' y y' : Float} (left : (x == x') = true) (right : (y == y') = true)
    (number : (x * y).isNaN = false) : (x * y == x' * y') = true :=
  beq_iff.mpr ⟨(beq_iff.mp left).1.mul (beq_iff.mp right).1, number⟩

theorem lt_iff {x y : Float} : x < y ↔ x.toModel.unpack.lt y.toModel.unpack = true := by
  change decide (x.toModel < y.toModel) = true ↔ _
  rw [decide_eq_true_iff]
  rfl

theorem isRate_of_beq {x y : Float} (same : (x == y) = true) :
    ModelArtifact.isRate x = ModelArtifact.isRate y := by
  have twin := (beq_iff.mp same).1
  unfold ModelArtifact.isRate
  have finite : x.isFinite = y.isFinite := Twin.isFinite twin
  rw [finite, decide_eq_decide.mpr]
  rw [lt_iff, lt_iff, Twin.lt twin]

end Number

end RecipeGraph
