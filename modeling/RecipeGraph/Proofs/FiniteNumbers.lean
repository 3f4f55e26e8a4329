import RecipeGraph.Number.Literal
import RecipeGraph.Proofs.Equality
import Mathlib.Algebra.Group.Nat.Defs

/-!
# Integers of documents are finite numbers

An integer of 64 bits is far from the largest float, so reading it as a float
rounds it to a finite one. How far a number is from the largest one is measured by
its exponent.
-/

namespace RecipeGraph.Number

open Float.Model (UnpackedFloat Format)
open Float.Model.UnpackedFloat

@[simp] theorem isFinite_unpack_iff (b : BitVec Format.binary64.numBits) :
    (UnpackedFloat.unpack Format.binary64 b).isFinite = true ↔ unpackExponent b ≠ (-1#_) := by
  unfold UnpackedFloat.unpack
  by_cases top : unpackExponent b = (-1#_)
  · rw [if_pos top]
    refine iff_of_false ?_ (not_not_intro top)
    split <;> exact Bool.false_ne_true
  · rw [if_neg top]
    refine iff_of_true ?_ top
    by_cases bottom : unpackExponent b = 0#_
    · rw [if_pos bottom]
      by_cases whole : unpackMantissa b = 0#_
      · rw [dif_pos whole]
        rfl
      · rw [dif_neg whole]
        rfl
    · rw [if_neg bottom]
      rfl

/-- A zero, or a finite number with an exponent of at most `k`. -/
def Low (k : Int) : UnpackedFloat → Prop
  | .zero _ => True
  | .finite _ _ e _ => e ≤ k
  | _ => False

/-- The exponent field holds the exponent, unless the number is too small for that. -/
theorem unpackExponent_pack {s : Sign} {m : Nat} {e : Int} {positive : 0 < m} (low : e ≤ 971) :
    unpackExponent (UnpackedFloat.pack Format.binary64 (.finite s m e positive)) =
      if m.log2 + 1 = 53 then BitVec.ofNat 11 (e + 1075).toNat else 0#_ := by
  have bound : ¬ 2 ^ 11 ≤ (e + (1023 : Nat) + (52 : Nat)).toNat + 1 := by omega
  have shifted : e + (1023 : Nat) + (52 : Nat) = e + 1075 := by omega
  change unpackExponent (if 2 ^ 11 ≤ (e + (1023 : Nat) + (52 : Nat)).toNat + 1 then _
    else if m.log2 + 1 = 53 then packComponents Format.binary64 s
      (BitVec.ofNat 11 (e + (1023 : Nat) + (52 : Nat)).toNat) _
    else packComponents Format.binary64 s 0#_ _) = _
  rw [if_neg bound, shifted]
  split <;> exact unpackExponent_packComponents

theorem toNat_exponent {e : Int} (low : e ≤ 971) :
    (BitVec.ofNat 11 (e + 1075).toNat).toNat = (e + 1075).toNat := by
  rw [BitVec.toNat_ofNat]
  omega

theorem isFinite_of_low {k : Int} {u : UnpackedFloat} (low : Low k u) : u.isFinite = true := by
  cases u with
  | infinity s => exact low.elim
  | notANumber => exact low.elim
  | _ => rfl

theorem low_unpack {k : Int} {b : BitVec Format.binary64.numBits} (least : -1074 ≤ k)
    (top : unpackExponent b ≠ (-1#_)) (bound : (unpackExponent b).toNat ≤ k + 1075) :
    Low k (UnpackedFloat.unpack Format.binary64 b) := by
  have bias : Format.binary64.exponentBias = 1023 := rfl
  have width : Format.binary64.mantissaBitsWithoutImplicit = 52 := rfl
  unfold UnpackedFloat.unpack
  rw [if_neg top]
  by_cases bottom : unpackExponent b = 0#_
  · rw [if_pos bottom]
    by_cases whole : unpackMantissa b = 0#_
    · rw [dif_pos whole]
      trivial
    · have nothing : (unpackExponent b).toNat = 0 := by
        rw [bottom]
        rfl
      rw [dif_neg whole]
      change (_ : Int) ≤ k
      omega
  · rw [if_neg bottom]
    change (_ : Int) ≤ k
    omega

theorem toNat_unpackExponent_lt {b : BitVec Format.binary64.numBits}
    (top : unpackExponent b ≠ (-1#_)) : (unpackExponent b).toNat < 2047 := by
  have bound : (unpackExponent b).toNat < 2 ^ 11 := (unpackExponent b).isLt
  have apart : (unpackExponent b).toNat ≠ 2047 := fun same => top (BitVec.eq_of_toNat_eq same)
  omega

theorem low_of_isFinite {b : BitVec Format.binary64.numBits}
    (finite : (UnpackedFloat.unpack Format.binary64 b).isFinite = true) :
    Low 971 (UnpackedFloat.unpack Format.binary64 b) := by
  have top := (isFinite_unpack_iff b).mp finite
  have bound := toNat_unpackExponent_lt top
  exact low_unpack (by omega) top (by omega)

/-- Packing a number does not raise its exponent. -/
theorem low_pack {k : Int} (least : -1074 ≤ k) (most : k ≤ 971) {u : UnpackedFloat}
    (low : Low k u) : Low k (Float.Model.pack u).unpack := by
  cases u with
  | infinity s => exact low.elim
  | notANumber => exact low.elim
  | zero s => cases s <;> trivial
  | finite s m e positive =>
    have small : e ≤ k := low
    have field := @unpackExponent_pack s m e positive (Int.le_trans small most)
    have held := toNat_exponent (Int.le_trans small most)
    change Low k (UnpackedFloat.unpack Format.binary64
      (UnpackedFloat.pack Format.binary64 (.finite s m e positive)))
    by_cases wide : m.log2 + 1 = 53
    · rw [if_pos wide] at field
      refine low_unpack least (fun top => ?_) (by rw [field]; omega)
      have full := congrArg BitVec.toNat (field.symm.trans top)
      change (BitVec.ofNat 11 (e + 1075).toNat).toNat = 2047 at full
      omega
    · rw [if_neg wide] at field
      refine low_unpack least (fun top => ?_) ?_
      · exact absurd (field.symm.trans top) (by decide)
      · rw [field]
        change ((0 : Nat) : Int) ≤ _
        omega

@[simp] theorem mantissa_shiftRight (k : Nat) (em : ExtendedMantissa) :
    (em >>> k).mantissa = em.mantissa / 2 ^ k := by
  induction k with
  | zero => exact (Nat.div_one _).symm
  | succ k ih =>
    change (em >>> k).mantissa / 2 = _
    rw [ih, Nat.div_div_eq_div_mul, Nat.pow_succ]

/-- Rounding adds one or nothing. -/
theorem roundedMantissa_bounds (em : ExtendedMantissa) :
    em.mantissa ≤ em.roundedMantissa ∧ em.roundedMantissa ≤ em.mantissa + 1 := by
  unfold ExtendedMantissa.roundedMantissa
  generalize em.accuracy = accuracy
  cases accuracy with
  | exact => exact ⟨Nat.le_refl _, Nat.le_succ _⟩
  | inexact order => cases order <;> simp only [Accuracy.roundToNearestEven] <;> omega

@[simp] theorem mantissa_ofMantissaAndAccuracy (m : Nat) (accuracy : Accuracy) :
    (ExtendedMantissa.ofMantissaAndAccuracy m accuracy).mantissa = m := by
  rcases accuracy with _ | order
  · rfl
  · cases order <;> rfl

theorem targetExponent_eq (t : Int) : Format.binary64.targetExponent t = max (t - 53) (-1074) :=
  rfl

theorem shiftToTargetExponent_eq (m : Nat) (e : Int) (accuracy : Accuracy) :
    (shiftToTargetExponent Format.binary64 m e accuracy).1.mantissa =
        m / 2 ^ (max (m.log2 + 1 + e - 53) (-1074) - e).toNat ∧
      (shiftToTargetExponent Format.binary64 m e accuracy).2 =
        max e (max (m.log2 + 1 + e - 53) (-1074)) := by
  simp only [shiftToTargetExponent, shiftToExponent, targetExponent_eq, Float.Model.totalExponent]
  constructor
  · rw [mantissa_shiftRight, mantissa_ofMantissaAndAccuracy]
  · omega

theorem log2_le_of_lt_pow {m k : Nat} (small : m < 2 ^ k) : m.log2 ≤ k := by
  by_cases zero : m = 0
  · subst zero
    exact Nat.zero_le _
  · exact Nat.le_of_lt ((Nat.log2_lt zero).mpr small)

theorem log2_le_succ {m r : Nat} (le : r ≤ m + 1) : r.log2 ≤ m.log2 + 1 := by
  by_cases nothing : r = 0
  · subst nothing
    exact Nat.zero_le _
  · have below : m < 2 ^ (m.log2 + 1) := Nat.lt_log2_self
    have double : 2 ^ (m.log2 + 2) = 2 ^ (m.log2 + 1) * 2 := Nat.pow_succ ..
    have bound : r.log2 < m.log2 + 2 := (Nat.log2_lt nothing).mpr (by omega)
    omega

/-- The second shift, which follows the rounding, decides how large a number gets. -/
theorem low_of_shifted {s : Sign} {m : Nat} {e k : Int} {accuracy : Accuracy}
    {shifted : ExtendedMantissa × Int}
    (first : shiftToTargetExponent Format.binary64 m e accuracy = shifted)
    (again : (shiftToTargetExponent Format.binary64 shifted.1.roundedMantissa shifted.2 .exact).2 ≤
      k) : Low k (roundWithAccuracy Format.binary64 s m e accuracy) := by
  subst first
  unfold roundWithAccuracy
  dsimp only
  generalize shiftToTargetExponent Format.binary64 m e accuracy = shifted at again ⊢
  by_cases nothing : (shiftToTargetExponent Format.binary64 shifted.1.roundedMantissa shifted.2
      .exact).1.mantissa = 0
  · rw [dif_pos nothing]
    trivial
  · rw [dif_neg nothing]
    exact again

/-- The first shift brings a number to an exponent of `l`, and rounding up adds a
digit at most. -/
theorem low_roundWithAccuracy {s : Sign} {m : Nat} {e l k : Int} {accuracy : Accuracy}
    (low : e ≤ l) (least : -1074 ≤ l) (short : m.log2 + e ≤ l + 52) (le : l ≤ k)
    (room : m.log2 + l ≤ k + 51) : Low k (roundWithAccuracy Format.binary64 s m e accuracy) := by
  have ⟨mantissa, exponent⟩ := shiftToTargetExponent_eq m e accuracy
  generalize first : shiftToTargetExponent Format.binary64 m e accuracy = shifted
    at mantissa exponent
  have kept : shifted.1.mantissa ≤ m := mantissa ▸ Nat.div_le_self _ _
  have grown := (roundedMantissa_bounds shifted.1).2
  have digits : shifted.1.roundedMantissa.log2 ≤ m.log2 + 1 := log2_le_succ (by omega)
  have again := (shiftToTargetExponent_eq shifted.1.roundedMantissa shifted.2 .exact).2
  exact low_of_shifted first (by omega)

theorem low_ofUInt64 (n : UInt64) : Low 400 (UnpackedFloat.ofUInt64 Format.binary64 n) := by
  have small : n.toNat < 2 ^ 64 := n.toNat_lt
  change Low 400 (UnpackedFloat.normalize Format.binary64 (n.toNat : Int) 0 .positive)
  unfold UnpackedFloat.normalize
  split
  · next negative =>
    have := Int.compare_eq_lt.mp negative
    omega
  · trivial
  · simp only [UnpackedFloat.round, UnpackedFloat.decreaseExponent, targetExponent_eq,
      Float.Model.totalExponent, Int.toNat_natCast]
    have shift : (0 - max ((n.toNat.log2 : Int) + 1 + 0 - 53) (-1074)).toNat ≤ 52 := by omega
    have digits : (n.toNat <<< (0 - max ((n.toNat.log2 : Int) + 1 + 0 - 53) (-1074)).toNat).log2
        ≤ 64 + 52 := by
      apply log2_le_of_lt_pow
      rw [Nat.shiftLeft_eq, Nat.pow_add]
      have power := Nat.pow_le_pow_right (show 0 < 2 by omega) shift
      exact Nat.mul_lt_mul_of_lt_of_le small power (by decide)
    apply @low_roundWithAccuracy _ _ _ 100 <;> omega

@[simp] theorem isFinite_neg {x : Float} (finite : x.isFinite = true) : (-x).isFinite = true := by
  have low : Low 971 x.toModel.unpack := low_of_isFinite finite
  have opposite : Low 971 x.toModel.unpack.neg := by
    revert low
    cases x.toModel.unpack <;> exact fun low => low
  exact isFinite_of_low (low_pack (by decide) (by decide) opposite)

theorem low_toFloat (n : UInt64) : Low 400 n.toFloat.toModel.unpack :=
  low_pack (by decide) (by decide) (low_ofUInt64 n)

@[simp] theorem isFinite_toFloat (n : UInt64) : n.toFloat.isFinite = true :=
  isFinite_of_low (low_toFloat n)

@[simp] theorem isFinite_withSign {x : Float} (finite : x.isFinite = true) (isNegative : Bool) :
    (withSign isNegative x).isFinite = true := by
  unfold withSign
  split
  · exact isFinite_neg finite
  · exact finite

@[simp] theorem isFinite_ofInt (i : Int) : (ofInt i).isFinite = true :=
  isFinite_withSign (isFinite_toFloat _) _

end RecipeGraph.Number
