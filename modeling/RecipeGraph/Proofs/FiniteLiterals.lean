import RecipeGraph.Proofs.FiniteNumbers

/-!
# Literals of documents are finite numbers

Dividing by ten or more does not raise the exponent of a number, and a product that
overflows is refused. So every number that a literal stands for is finite.
-/

namespace RecipeGraph.Number

open Float.Model (UnpackedFloat Format)
open Float.Model.UnpackedFloat

theorem log2_shiftLeft_le (m j : Nat) : (m <<< j).log2 ≤ m.log2 + j := by
  by_cases nothing : m <<< j = 0
  · rw [nothing]
    exact Nat.zero_le _
  · have below : m < 2 ^ (m.log2 + 1) := Nat.lt_log2_self
    have grown : m <<< j < 2 ^ (m.log2 + 1 + j) := by
      rw [Nat.shiftLeft_eq, Nat.pow_add]
      exact Nat.mul_lt_mul_of_pos_right below (Nat.two_pow_pos j)
    have digits := (Nat.log2_lt nothing).mpr grown
    omega

theorem log2_div_le {m n : Nat} (positive : 0 < n) : (m / n).log2 ≤ m.log2 - n.log2 := by
  by_cases nothing : m / n = 0
  · rw [nothing]
    exact Nat.zero_le _
  · have below : m < 2 ^ (m.log2 + 1) := Nat.lt_log2_self
    have above : 2 ^ n.log2 ≤ n := Nat.log2_self_le (Nat.ne_of_gt positive)
    have enough : 2 ^ (m.log2 + 1) ≤ 2 ^ (m.log2 - n.log2 + 1) * 2 ^ n.log2 := by
      rw [← Nat.pow_add]
      exact Nat.pow_le_pow_right (by decide) (by omega)
    have shrunk : m / n < 2 ^ (m.log2 - n.log2 + 1) := by
      apply (Nat.div_lt_iff_lt_mul positive).mpr
      exact Nat.lt_of_lt_of_le below (Nat.le_trans enough (Nat.mul_le_mul_left _ above))
    have digits := (Nat.log2_lt nothing).mpr shrunk
    omega

theorem mantissa_lt {b : BitVec Format.binary64.numBits} {s : Sign} {m : Nat} {e : Int}
    {positive : 0 < m}
    (unpacked : UnpackedFloat.unpack Format.binary64 b = .finite s m e positive) :
    m < 2 ^ 53 := by
  unfold UnpackedFloat.unpack at unpacked
  by_cases top : unpackExponent b = (-1#_)
  · rw [if_pos top] at unpacked
    by_cases whole : unpackMantissa b = 0#_
    · rw [if_pos whole] at unpacked
      cases unpacked
    · rw [if_neg whole] at unpacked
      cases unpacked
  · rw [if_neg top] at unpacked
    by_cases bottom : unpackExponent b = 0#_
    · rw [if_pos bottom] at unpacked
      by_cases whole : unpackMantissa b = 0#_
      · rw [dif_pos whole] at unpacked
        cases unpacked
      · rw [dif_neg whole] at unpacked
        cases unpacked
        have bound : (unpackMantissa b).toNat < 2 ^ 52 := (unpackMantissa b).isLt
        omega
    · rw [if_neg bottom] at unpacked
      cases unpacked
      exact (1#1 ++ unpackMantissa b).isLt

theorem log2_le_of_mantissa_lt {m : Nat} (short : m < 2 ^ 53) (positive : 0 < m) :
    m.log2 ≤ 52 := by
  have digits := (Nat.log2_lt (Nat.ne_of_gt positive)).mpr short
  omega

/-- Dividing by eight or more does not raise the exponent. -/
theorem low_div {k : Int} (least : 0 ≤ k) {s t : Sign} {m n : Nat} {e f : Int}
    {positive : 0 < m} {positive' : 0 < n} (short : m < 2 ^ 53) (low : e ≤ k)
    (eight : 4 ≤ n.log2 + 1 + f) :
    Low k (UnpackedFloat.div Format.binary64 (.finite s m e positive)
      (.finite t n f positive')) := by
  have digits := log2_le_of_mantissa_lt short positive
  change Low k (roundWithAccuracy Format.binary64 (s / t)
    ((m <<< (e - f - min (e - f) (Format.binary64.targetExponent
      (Float.Model.totalExponent m e - Float.Model.totalExponent n f))).toNat) / n)
    (min (e - f) (Format.binary64.targetExponent
      (Float.Model.totalExponent m e - Float.Model.totalExponent n f))) _)
  simp only [targetExponent_eq, Float.Model.totalExponent]
  generalize placed : min (e - f) (max ((m.log2 : Int) + 1 + e - ((n.log2 : Int) + 1 + f) - 53)
    (-1074)) = place
  have shifted := log2_shiftLeft_le m (e - f - place).toNat
  have quotient := @log2_div_le (m <<< (e - f - place).toNat) n positive'
  apply @low_roundWithAccuracy _ _ _ (k - 3) <;> omega

/-- Whether the number is finite and its size is eight or more. -/
def isEightOrMore : UnpackedFloat → Bool
  | .finite _ m e _ => decide (4 ≤ m.log2 + 1 + e)
  | _ => false

theorem low_div_of_isEightOrMore {k : Int} (least : 0 ≤ k) {b : BitVec Format.binary64.numBits}
    {v : UnpackedFloat} (low : Low k (UnpackedFloat.unpack Format.binary64 b))
    (large : isEightOrMore v = true) :
    Low k (UnpackedFloat.div Format.binary64 (UnpackedFloat.unpack Format.binary64 b) v) := by
  cases number : UnpackedFloat.unpack Format.binary64 b with
  | infinity s =>
    rw [number] at low
    exact low.elim
  | notANumber =>
    rw [number] at low
    exact low.elim
  | zero s =>
    cases v with
    | zero t => cases large
    | notANumber => cases large
    | infinity t => cases large
    | finite t n f positive' => trivial
  | finite s m e positive =>
    rw [number] at low
    cases v with
    | zero t => cases large
    | notANumber => cases large
    | infinity t => cases large
    | finite t n f positive' =>
      exact low_div least (mantissa_lt number) low (of_decide_eq_true large)

theorem log2_div_two_pow {m k : Nat} (enough : k ≤ m.log2) : (m / 2 ^ k).log2 = m.log2 - k := by
  by_cases nothing : m = 0
  · subst nothing
    simp
  · have above : 2 ^ m.log2 ≤ m := Nat.log2_self_le nothing
    have below : m < 2 ^ (m.log2 + 1) := Nat.lt_log2_self
    have lower : 2 ^ (m.log2 - k) ≤ m / 2 ^ k := by
      apply (Nat.le_div_iff_mul_le (Nat.two_pow_pos k)).mpr
      rwa [← Nat.pow_add, Nat.sub_add_cancel enough]
    have upper : m / 2 ^ k < 2 ^ (m.log2 - k + 1) := by
      apply (Nat.div_lt_iff_lt_mul (Nat.two_pow_pos k)).mpr
      rwa [← Nat.pow_add, show m.log2 - k + 1 + k = m.log2 + 1 by omega]
    have something : m / 2 ^ k ≠ 0 := Nat.ne_of_gt (Nat.lt_of_lt_of_le (Nat.two_pow_pos _) lower)
    exact (Nat.log2_eq_iff something).mpr ⟨lower, upper⟩

theorem shiftToTargetExponent_of_wide {m : Nat} {e : Int} {accuracy : Accuracy}
    (wide : 52 ≤ m.log2) (least : -1074 ≤ e) :
    (shiftToTargetExponent Format.binary64 m e accuracy).1 =
        ExtendedMantissa.ofMantissaAndAccuracy m accuracy >>> (m.log2 - 52) ∧
      (shiftToTargetExponent Format.binary64 m e accuracy).1.mantissa.log2 = 52 ∧
      (shiftToTargetExponent Format.binary64 m e accuracy).2 = e + m.log2 - 52 := by
  obtain ⟨mantissa, exponent⟩ := shiftToTargetExponent_eq m e accuracy
  have shift : (max ((m.log2 : Int) + 1 + e - 53) (-1074) - e).toNat = m.log2 - 52 := by omega
  refine ⟨?_, ?_, ?_⟩
  · simp only [shiftToTargetExponent, shiftToExponent, targetExponent_eq,
      Float.Model.totalExponent, shift]
  · rw [mantissa, shift, log2_div_two_pow (Nat.sub_le _ _)]
    omega
  · omega

/-- Rounding a mantissa of 53 digits or more leaves 53 of them. The number gets no
smaller and at most one digit longer, and it is what rounding makes of the digits that
stay. -/
theorem exists_roundWithAccuracy {s : Sign} {m : Nat} {e : Int} {accuracy : Accuracy}
    (wide : 52 ≤ m.log2) (least : -1074 ≤ e) :
    ∃ m' e' positive, roundWithAccuracy Format.binary64 s m e accuracy = .finite s m' e' positive ∧
      m'.log2 = 52 ∧ m.log2 + e ≤ e' + 52 ∧ e' + 51 ≤ m.log2 + e ∧
      m' * 2 ^ (e' - e).toNat ≤
        (ExtendedMantissa.ofMantissaAndAccuracy m accuracy >>> (m.log2 - 52)).roundedMantissa *
          2 ^ (m.log2 - 52) := by
  have first := @shiftToTargetExponent_of_wide m e accuracy wide least
  unfold roundWithAccuracy
  dsimp only
  revert first
  generalize shiftToTargetExponent Format.binary64 m e accuracy = shifted
  rintro ⟨same, mantissa, exponent⟩
  rw [← same]
  have ⟨kept, grown⟩ := roundedMantissa_bounds shifted.1
  have digits := log2_le_succ grown
  have something : shifted.1.mantissa ≠ 0 := by
    intro nothing
    rw [nothing] at mantissa
    cases mantissa
  have wide' : 52 ≤ shifted.1.roundedMantissa.log2 := by
    apply (Nat.le_log2 (by omega)).mpr
    exact Nat.le_trans ((Nat.log2_eq_iff something).mp mantissa).1 kept
  obtain ⟨_, mantissa', exponent'⟩ :=
    @shiftToTargetExponent_of_wide _ shifted.2 .exact wide' (by omega)
  have value := (shiftToTargetExponent_eq shifted.1.roundedMantissa shifted.2 .exact).1
  rw [show (max ((shifted.1.roundedMantissa.log2 : Int) + 1 + shifted.2 - 53) (-1074) -
    shifted.2).toNat = shifted.1.roundedMantissa.log2 - 52 by omega] at value
  have something' : (shiftToTargetExponent Format.binary64 shifted.1.roundedMantissa shifted.2
      .exact).1.mantissa ≠ 0 := by
    intro nothing
    rw [nothing] at mantissa'
    cases mantissa'
  rw [dif_neg something']
  refine ⟨_, _, _, rfl, mantissa', by omega, by omega, ?_⟩
  rw [value, show ((shiftToTargetExponent Format.binary64 shifted.1.roundedMantissa shifted.2
    .exact).2 - e).toNat = (shifted.1.roundedMantissa.log2 - 52) + (m.log2 - 52) by omega,
    Nat.pow_add, ← Nat.mul_assoc]
  exact Nat.mul_le_mul_right _ (Nat.div_mul_le_self _ _)

theorem isEightOrMore_unpack {b : BitVec Format.binary64.numBits}
    (top : unpackExponent b ≠ (-1#_)) (large : 1026 ≤ (unpackExponent b).toNat) :
    isEightOrMore (UnpackedFloat.unpack Format.binary64 b) = true := by
  have bottom : unpackExponent b ≠ 0#_ := by
    intro zero
    rw [zero] at large
    exact absurd large (by decide)
  have leading : 2 ^ 52 ≤ (1#1 ++ unpackMantissa b).toNat := by
    rw [BitVec.toNat_append]
    exact Nat.left_le_or
  have digits : 52 ≤ (1#1 ++ unpackMantissa b).toNat.log2 :=
    (Nat.le_log2 (by omega)).mpr leading
  have bias : Format.binary64.exponentBias = 1023 := rfl
  have width : Format.binary64.mantissaBitsWithoutImplicit = 52 := rfl
  unfold UnpackedFloat.unpack
  rw [if_neg top, if_neg bottom]
  apply decide_eq_true
  omega

theorem isEightOrMore_pack {s : Sign} {m : Nat} {e : Int} {positive : 0 < m} (wide : m.log2 = 52)
    (large : -49 ≤ e) (low : e ≤ 971) :
    isEightOrMore (Float.Model.pack (.finite s m e positive)).unpack = true := by
  have field := @unpackExponent_pack s m e positive low
  rw [if_pos (by omega)] at field
  have held := toNat_exponent low
  apply isEightOrMore_unpack
  · intro top
    have full := congrArg BitVec.toNat (field.symm.trans top)
    change (BitVec.ofNat 11 (e + 1075).toNat).toNat = 2047 at full
    omega
  · change 1026 ≤ (unpackExponent (UnpackedFloat.pack Format.binary64
      (.finite s m e positive))).toNat
    rw [field]
    omega

/-- Powers of ten beyond the exact ones are rounded. -/
theorem exists_powerOfTen {n : Nat} (inexact : 22 < n) (le : n ≤ 307) :
    ∃ m e positive, (powerOfTen n).toModel = Float.Model.pack (.finite .positive m e positive) ∧
      m.log2 = 52 ∧ -49 ≤ e ∧ e ≤ 971 ∧ m * 2 ^ (e + 52).toNat ≤ 4 * 10 ^ n * 2 ^ 52 := by
  have least : 10 ^ 1 ≤ 10 ^ n := Nat.pow_le_pow_right (by decide) (by omega)
  have digits : 56 ≤ (1 <<< 53 * 10 ^ n).log2 := by
    apply (Nat.le_log2 (by omega)).mpr
    omega
  have digits' : (1 <<< 53 * 10 ^ n).log2 ≤ 1073 := by
    have most : 1 <<< 53 * 10 ^ 307 < 2 ^ 1073 := by decide +kernel
    have grows : ∀ k, n ≤ k → 1 <<< 53 * 10 ^ n ≤ 1 <<< 53 * 10 ^ k := fun k le =>
      Nat.mul_le_mul_left _ (Nat.pow_le_pow_right (by decide) le)
    exact log2_le_of_lt_pow (Nat.lt_of_le_of_lt (grows 307 le) most)
  obtain ⟨m, e, positive, same, wide, grown, bounded, _⟩ :=
    @exists_roundWithAccuracy (.positive * .positive) (1 <<< 53 * 10 ^ n) (-53 + 0) .exact
      (by omega) (by decide)
  have most : m * 2 ^ (e + 52).toNat ≤ 4 * 10 ^ n * 2 ^ 52 := by
    have below := ((Nat.log2_eq_iff (Nat.ne_of_gt positive)).mp wide).2
    have places := Nat.pow_le_pow_right (show 0 < 2 by decide)
      (show (e + 52).toNat ≤ (1 <<< 53 * 10 ^ n).log2 - 52 by omega)
    have power := @Nat.log2_self_le (1 <<< 53 * 10 ^ n) (by omega)
    calc m * 2 ^ (e + 52).toNat
        ≤ 2 ^ 53 * 2 ^ ((1 <<< 53 * 10 ^ n).log2 - 52) :=
          Nat.mul_le_mul (Nat.le_of_lt below) places
      _ = 2 * 2 ^ (1 <<< 53 * 10 ^ n).log2 := by
          rw [← Nat.pow_add, ← Nat.pow_succ']
          congr 1
          omega
      _ ≤ 2 * (1 <<< 53 * 10 ^ n) := Nat.mul_le_mul_left 2 power
      _ = 4 * 10 ^ n * 2 ^ 52 := by
          rw [Nat.shiftLeft_eq]
          omega
  refine ⟨m, e, positive, ?_, wide, by omega, by omega, most⟩
  have scaled : UnpackedFloat.ofScientific Format.binary64 1 n =
      .finite (.positive * .positive) m e positive := by
    unfold UnpackedFloat.ofScientific
    have exponents : Format.binary64.exponentBits = 11 := rfl
    rw [dif_neg (by decide), exponents, if_neg (by omega), if_neg (by omega),
      if_pos (Int.natCast_nonneg n)]
    exact same
  unfold powerOfTen Float.ofScientific
  rw [dif_neg fun both => Nat.not_le_of_lt inexact both.2]
  change Float.Model.pack (UnpackedFloat.ofScientific Format.binary64 1 n) = _
  rw [scaled]
  rfl

theorem powerOfTen_bounds {n : Nat} (le : n ≤ 308) :
    (powerOfTen n).isFinite = true ∧
      (0 < n → isEightOrMore (powerOfTen n).toModel.unpack = true) := by
  by_cases listed : n ∈ List.range 23 ++ [308]
  · have all : ∀ n ∈ List.range 23 ++ [308], (powerOfTen n).isFinite = true ∧
        (0 < n → isEightOrMore (powerOfTen n).toModel.unpack = true) := by decide +kernel
    exact all n listed
  · simp only [List.mem_append, List.mem_range, List.mem_singleton, not_or] at listed
    obtain ⟨m, e, positive, same, wide, large, low, _⟩ :=
      @exists_powerOfTen n (by omega) (by omega)
    constructor
    · change (powerOfTen n).toModel.unpack.isFinite = true
      rw [same]
      exact isFinite_of_low (low_pack (by omega) low (show Low e _ from Int.le_refl e))
    · intro _
      rw [same]
      exact isEightOrMore_pack wide large low

theorem low_div_powerOfTen {x : Float} {n : Nat} (low : Low 400 x.toModel.unpack)
    (positive : 0 < n) (le : n ≤ 308) : Low 400 (x / powerOfTen n).toModel.unpack := by
  change Low 400 (Float.Model.pack (UnpackedFloat.div Format.binary64 x.toModel.unpack
    (powerOfTen n).toModel.unpack)).unpack
  apply low_pack (by decide) (by decide)
  exact low_div_of_isEightOrMore (by decide) low ((powerOfTen_bounds le).2 positive)

theorem low_divided {x : Float} {n : Nat} (low : Low 400 x.toModel.unpack) (positive : 0 < n) :
    Low 400 (divided x n).toModel.unpack := by
  induction x, n using divided.induct with
  | case1 x n near =>
    rw [divided, if_pos near]
    exact low_div_powerOfTen low positive near
  | case2 x n far zero =>
    rw [divided, if_neg far, if_pos zero]
    exact low
  | case3 x n far nonzero ih =>
    rw [divided, if_neg far, if_neg nonzero]
    exact ih (low_div_powerOfTen low (by decide) (by decide)) (by omega)

theorem isFinite_or_isInf_pack {u : UnpackedFloat} (number : u.isNaN = false) :
    (Float.Model.pack u).unpack.isFinite = true ∨ (Float.Model.pack u).unpack.isInf = true := by
  cases u with
  | notANumber => cases number
  | infinity s =>
    right
    cases s <;> decide
  | zero s =>
    left
    cases s <;> decide
  | finite s m e positive =>
    by_cases low : e ≤ 971
    · left
      exact isFinite_of_low (low_pack (by decide) (by decide) (show Low 971 _ from low))
    · right
      have beyond : 2 ^ 11 ≤ (e + (1023 : Nat) + (52 : Nat)).toNat + 1 := by omega
      change (UnpackedFloat.unpack Format.binary64 (if 2 ^ 11 ≤
        (e + (1023 : Nat) + (52 : Nat)).toNat + 1 then packedInfinity Format.binary64 s
        else _)).isInf = true
      rw [if_pos beyond]
      cases s <;> decide

@[simp] theorem isNaN_roundWithAccuracy (s : Sign) (m : Nat) (e : Int) (accuracy : Accuracy) :
    (roundWithAccuracy Format.binary64 s m e accuracy).isNaN = false := by
  unfold roundWithAccuracy
  dsimp only
  by_cases nothing : (shiftToTargetExponent Format.binary64
      (shiftToTargetExponent Format.binary64 m e accuracy).1.roundedMantissa
      (shiftToTargetExponent Format.binary64 m e accuracy).2 .exact).1.mantissa = 0
  · rw [dif_pos nothing]
    rfl
  · rw [dif_neg nothing]
    rfl

theorem isFinite_mul {x y : Float} (left : x.isFinite = true) (right : y.isFinite = true)
    (bounded : (x * y).isInf = false) : (x * y).isFinite = true := by
  have number : (UnpackedFloat.mul Format.binary64 x.toModel.unpack y.toModel.unpack).isNaN =
      false := by
    change x.toModel.unpack.isFinite = true at left
    change y.toModel.unpack.isFinite = true at right
    revert left right
    generalize x.toModel.unpack = u
    generalize y.toModel.unpack = v
    intro left right
    cases u with
    | infinity s => cases left
    | notANumber => cases left
    | zero s =>
      cases v with
      | infinity t => cases right
      | notANumber => cases right
      | _ => rfl
    | finite s m e positive =>
      cases v with
      | infinity t => cases right
      | notANumber => cases right
      | zero t => rfl
      | finite t n f positive' => exact isNaN_roundWithAccuracy _ _ _ _
  rcases isFinite_or_isInf_pack number with finite | infinite
  · exact finite
  · exact absurd infinite (Bool.eq_false_iff.mp bounded)

theorem Significand.isFinite_of_toFloat? {s : Significand} {x : Float}
    (read : s.toFloat? = some x) : x.isFinite = true := by
  unfold toFloat? at read
  dsimp only at read
  split at read
  · cases read
    exact isFinite_of_low (low_divided (low_toFloat _) (by omega))
  · split at read
    · split at read
      · cases read
        exact isFinite_toFloat _
      · cases read
    · split at read
      · cases read
      · next bounded =>
        cases read
        have scale := (@powerOfTen_bounds s.power.toNat (by omega)).1
        exact isFinite_mul (isFinite_toFloat _) scale (Bool.eq_false_iff.mpr bounded)

/-- Every number that a literal stands for is finite. -/
theorem Literal.isFinite_of_numeral? {l : Literal} {x : Float}
    (read : l.numeral? = some (.float x)) : x.isFinite = true := by
  unfold numeral? at read
  dsimp only at read
  split at read
  · split at read
    · cases read
    · split at read
      · cases read
        exact isFinite_neg (isFinite_toFloat _)
      · cases read
  · obtain ⟨y, found, made⟩ := Option.map_eq_some_iff.mp read
    cases made
    exact isFinite_withSign (Significand.isFinite_of_toFloat? found) _

end RecipeGraph.Number
