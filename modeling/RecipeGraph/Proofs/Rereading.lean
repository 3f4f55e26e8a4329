import RecipeGraph.Proofs.Decimals
import RecipeGraph.Proofs.Products
import RecipeGraph.Proofs.Shortest

/-!
# Written numbers are read back as numbers

A finite number is written in a way that is read as a number again, if perhaps not as the
same one: the last place may differ. No number is written so that it would be read as too
large for a float.
-/

namespace RecipeGraph.Number

open Float.Model (UnpackedFloat Format)
open Float.Model.UnpackedFloat

theorem toNat_unpackExponent (b : BitVec Format.binary64.numBits) :
    (unpackExponent b).toNat = b.toNat / Nat.pow 2 52 % Nat.pow 2 11 := by
  change (BitVec.cast _ (BitVec.extractLsb 62 52 b)).toNat = _
  rw [BitVec.toNat_cast, BitVec.extractLsb_toNat, Nat.shiftRight_eq_div_pow]
theorem toNat_unpackMantissa (b : BitVec Format.binary64.numBits) :
    (unpackMantissa b).toNat = b.toNat % Nat.pow 2 52 := by
  change (BitVec.cast _ (BitVec.extractLsb 51 0 b)).toNat = _
  rw [BitVec.toNat_cast, BitVec.extractLsb_toNat, Nat.shiftRight_eq_div_pow]
  exact congrArg (· % _) (Nat.div_one _)

theorem Binary.proper_ofBits {bits : UInt64}
    (finite : bits.toNat / Nat.pow 2 52 % Nat.pow 2 11 < 2047)
    (some : bits.toNat / Nat.pow 2 52 % Nat.pow 2 11 = 0 → bits.toNat % Nat.pow 2 52 ≠ 0) :
    (Binary.ofBits bits).Proper := by
  have fraction : bits.toNat % Nat.pow 2 52 < 2 ^ 52 := Nat.mod_lt _ (by decide)
  have whole : Nat.pow 2 52 = 2 ^ 52 := rfl
  unfold Binary.ofBits
  dsimp only
  revert finite some fraction
  generalize bits.toNat / Nat.pow 2 52 % Nat.pow 2 11 = exponent
  generalize bits.toNat % Nat.pow 2 52 = fraction
  intro finite some small
  split
  · next bottom =>
    exact ⟨Nat.pos_of_ne_zero (some bottom), by dsimp only; omega, Int.le_refl (-1074),
      show (-1074 : Int) ≤ 971 by decide⟩
  · constructor
    all_goals
      dsimp only [Int.ofNat_eq_natCast]
      omega

/-- The bits of a finite number other than zero are those of a mantissa and an exponent. -/
theorem proper_ofBits {x : Float} (finite : x.isFinite = true) (nonzero : ¬ (x == 0.0) = true) :
    (Binary.ofBits x.toBits).Proper := by
  have top : @unpackExponent Format.binary64 x.toModel.toBits.toBitVec ≠ (-1#_) :=
    (isFinite_unpack_iff _).mp finite
  have exponent := toNat_unpackExponent x.toModel.toBits.toBitVec
  have mantissa := toNat_unpackMantissa x.toModel.toBits.toBitVec
  have most := toNat_unpackExponent_lt top
  change _ = x.toBits.toNat / Nat.pow 2 52 % Nat.pow 2 11 at exponent
  change _ = x.toBits.toNat % Nat.pow 2 52 at mantissa
  refine Binary.proper_ofBits (exponent ▸ most) fun bottom nothing => nonzero ?_
  have bottom : @unpackExponent Format.binary64 x.toModel.toBits.toBitVec = 0#_ :=
    BitVec.eq_of_toNat_eq (exponent.trans bottom)
  have nothing : @unpackMantissa Format.binary64 x.toModel.toBits.toBitVec = 0#_ :=
    BitVec.eq_of_toNat_eq (mantissa.trans nothing)
  have zero : x.toModel.unpack = .zero (Sign.ofBitVec
      (@unpackSign Format.binary64 x.toModel.toBits.toBitVec)) := by
    change UnpackedFloat.unpack Format.binary64 x.toModel.toBits.toBitVec = _
    unfold UnpackedFloat.unpack
    rw [if_neg top, if_pos bottom, dif_pos nothing]
  exact beq_iff.mpr ⟨.inr ⟨⟨_, zero⟩, .positive, rfl⟩, isNaN_of_isFinite finite⟩

def largest (startsBinade : Bool) : Binary :=
  ⟨2 ^ 53 - 1, 971, startsBinade⟩

/-- Nothing is read as zero. The largest float is written with seventeen digits, and these
lie above it. -/
theorem isSome_toFloat? : (Significand.mk 0 0).toFloat?.isSome = true ∧
    ∀ startsBinade, (Significand.mk ((largest startsBinade).shortest .toEven).digits
      ((largest startsBinade).shortest .toEven).exponent).toFloat?.isSome = true := by
  decide +kernel

theorem cast_below (k : ℕ) : (((2 ^ 54 - 3) * 2 ^ k : ℕ) : ℚ) = (2 ^ 53 - 3 / 2) * 2 ^ (k + 1) := by
  push_cast
  ring

/-- What is at most half a place above another number than the largest is below the bound. -/
theorem Binary.Proper.half_above_le {b : Binary} (proper : b.Proper)
    (other : ¬ (b.mantissa = 2 ^ 53 - 1 ∧ b.exponent = 971)) :
    (b.mantissa + 1 / 2 : ℚ) * 2 ^ b.exponent ≤ belowLargest := by
  have small := proper.small
  have most := proper.most
  rw [belowLargest, cast_below, ← zpow_natCast]
  by_cases top : b.exponent = 971
  · have mantissa : b.mantissa + 2 ≤ 2 ^ 53 := by omega
    have mantissa : (b.mantissa : ℚ) + 2 ≤ 2 ^ 53 := by exact_mod_cast mantissa
    rw [top]
    exact mul_le_mul_of_nonneg_right (by linarith) (by positivity)
  · have mantissa : b.mantissa + 1 ≤ 2 ^ 53 := by omega
    have mantissa : (b.mantissa : ℚ) + 1 ≤ 2 ^ 53 := by exact_mod_cast mantissa
    have power : (2 : ℚ) ^ b.exponent ≤ 2 ^ (970 : ℤ) := zpow_le_zpow_right₀ (by norm_num) (by omega)
    calc (b.mantissa + 1 / 2 : ℚ) * 2 ^ b.exponent
        ≤ ((2 ^ 53 - 3 / 2) * 2) * 2 ^ (970 : ℤ) :=
          mul_le_mul (by linarith) power (by positivity) (by norm_num)
      _ = (2 ^ 53 - 3 / 2) * 2 ^ ((970 + 1 : ℕ) : ℤ) := by
          rw [mul_assoc, ← zpow_one_add₀ (by norm_num)]
          rfl

/-- The decimal of a finite number can be read. -/
theorem magnitudeOf_bounds {x : Float} (finite : x.isFinite = true) :
    let d := magnitudeOf .toEven x
    (d.digits = 0 → d.exponent = 0) ∧ d.digits < limit ∧
      (0 ≤ d.exponent → ∃ y, (Significand.mk d.digits d.exponent).toFloat? = some y) := by
  intro d
  have nothing : d = ⟨0, 0⟩ → (d.digits = 0 → d.exponent = 0) ∧ d.digits < limit ∧
      (0 ≤ d.exponent → ∃ y, (Significand.mk d.digits d.exponent).toFloat? = some y) := by
    intro same
    rw [same]
    exact ⟨fun _ => rfl, by decide, fun _ => Option.isSome_iff_exists.mp isSome_toFloat?.1⟩
  by_cases zero : (x == 0.0) = true
  · exact nothing (if_pos zero)
  · have same : d = (Binary.ofBits x.toBits).shortest .toEven := if_neg zero
    have proper := proper_ofBits finite zero
    rcases proper.shortest_bounds .toEven with none | ⟨positive, few, under⟩
    · exact nothing (same.trans none)
    · rw [← same] at positive few under
      have fits : 10 ^ 17 < limit := by decide
      refine ⟨fun nothing => absurd nothing (Nat.ne_of_gt positive), by omega, fun whole => ?_⟩
      by_cases largest : (Binary.ofBits x.toBits).mantissa = 2 ^ 53 - 1 ∧
          (Binary.ofBits x.toBits).exponent = 971
      · rw [same]
        obtain ⟨mantissa, exponent⟩ := largest
        revert mantissa exponent
        generalize Binary.ofBits x.toBits = b
        obtain ⟨m, e, startsBinade⟩ := b
        rintro rfl rfl
        exact Option.isSome_iff_exists.mp (isSome_toFloat?.2 startsBinade)
      · have natural : d.exponent = (d.exponent.toNat : ℤ) := (Int.toNat_of_nonneg whole).symm
        have below := under.trans (proper.half_above_le largest)
        rw [Decimal.value, natural, zpow_natCast] at below
        rw [natural]
        exact exists_toFloat?_of_le positive few (by exact_mod_cast below)

/-- A finite number is written so that it can be read. -/
theorem exists_literal_float {x : Float} (finite : x.isFinite = true) :
    ∃ l : Literal, l.Proper ∧ l.chars = (written x).toList ∧ ∃ y, l.numeral? = some (.float y) := by
  obtain ⟨zero, fits, bounded⟩ := magnitudeOf_bounds finite
  refine ⟨(magnitudeOf .toEven x).literal (negative x), Decimal.proper_literal zero _, ?_,
    Decimal.exists_numeral? zero fits bounded _⟩
  rw [Decimal.chars_literal, written, signed, String.toList_ofList]
  cases negative x <;> rfl

end RecipeGraph.Number
