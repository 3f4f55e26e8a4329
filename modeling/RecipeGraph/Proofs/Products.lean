import RecipeGraph.Proofs.FiniteLiterals

/-!
# Products that stay finite

A significand is multiplied by a power of ten after both have been rounded, so a product
can overflow that would be in range. It does not where the rounded factors stay below the
largest float.
-/

namespace RecipeGraph.Number

open Float.Model (UnpackedFloat Format)
open Float.Model.UnpackedFloat

/-- A mantissa of 53 digits survives packing, and so does its exponent. -/
theorem exists_unpack_pack {s : Sign} {m : Nat} {e : Int} {positive : 0 < m} (wide : m.log2 = 52)
    (least : -1074 ≤ e) (low : e ≤ 971) :
    ∃ s' positive', (Float.Model.pack (.finite s m e positive)).unpack =
      .finite s' m e positive' := by
  have field := @unpackExponent_pack s m e positive low
  rw [if_pos (by omega)] at field
  have held := toNat_exponent low
  have digits := (Nat.log2_eq_iff (Nat.ne_of_gt positive)).mp wide
  have mantissa : unpackMantissa (UnpackedFloat.pack Format.binary64 (.finite s m e positive)) =
      BitVec.ofNat 52 m := by
    have bound : ¬ 2 ^ 11 ≤ (e + (1023 : Nat) + (52 : Nat)).toNat + 1 := by omega
    have whole : m.log2 + 1 = 53 := by omega
    change unpackMantissa (if 2 ^ 11 ≤ (e + (1023 : Nat) + (52 : Nat)).toNat + 1 then _
      else if m.log2 + 1 = 53 then packComponents Format.binary64 s _ (BitVec.ofNat 52 m)
      else _) = _
    rw [if_neg bound, if_pos whole]
    exact unpackMantissa_packComponents
  have top : unpackExponent (UnpackedFloat.pack Format.binary64 (.finite s m e positive)) ≠
      (-1#_) := by
    intro full
    have same := congrArg BitVec.toNat (field.symm.trans full)
    change (BitVec.ofNat 11 (e + 1075).toNat).toNat = 2047 at same
    omega
  have bottom : unpackExponent (UnpackedFloat.pack Format.binary64 (.finite s m e positive)) ≠
      0#_ := by
    intro nothing
    have same := congrArg BitVec.toNat (field.symm.trans nothing)
    change (BitVec.ofNat 11 (e + 1075).toNat).toNat = 0 at same
    omega
  have exponent : ((unpackExponent (UnpackedFloat.pack Format.binary64
      (.finite s m e positive))).toNat : Int) - (1023 + 52) = e := by
    rw [field]
    omega
  have leading : (1#1 ++ BitVec.ofNat 52 m).toNat = m := by
    rw [BitVec.toNat_append, BitVec.toNat_ofNat, BitVec.toNat_ofNat, Nat.shiftLeft_eq, Nat.or_comm]
    change m % 2 ^ 52 ||| 2 ^ 52 = m
    rw [Nat.or_two_pow_eq_add_of_lt (Nat.mod_lt m (Nat.two_pow_pos 52))]
    omega
  refine ⟨Sign.ofBitVec (unpackSign (UnpackedFloat.pack Format.binary64
    (.finite s m e positive))), positive, ?_⟩
  change UnpackedFloat.unpack Format.binary64 (UnpackedFloat.pack Format.binary64
    (.finite s m e positive)) = _
  unfold UnpackedFloat.unpack
  rw [if_neg top, if_neg bottom]
  congr 1
  rw [mantissa]
  exact leading

/-- A number of 53 digits that is at most so much. -/
def Capped (bound : Nat) (u : UnpackedFloat) : Prop :=
  ∃ s m e positive, u = .finite s m e positive ∧ m.log2 = 52 ∧ -52 ≤ e ∧ e ≤ 971 ∧
    m * 2 ^ (e + 52).toNat ≤ bound * 2 ^ 52

theorem Capped.pack {bound : Nat} {u : UnpackedFloat} (capped : Capped bound u) :
    Capped bound (Float.Model.pack u).unpack := by
  obtain ⟨s, m, e, positive, rfl, wide, least, most, under⟩ := capped
  obtain ⟨s', positive', same⟩ := @exists_unpack_pack s m e positive wide (by omega) most
  exact ⟨s', m, e, positive', same, wide, least, most, under⟩

/-- Dropping zeros is exact. -/
theorem isExact_shiftRight {em : ExtendedMantissa} {k : Nat} (whole : 2 ^ k ∣ em.mantissa)
    (exact : em.roundBit = false ∧ em.stickyBit = false) :
    (em >>> k).roundBit = false ∧ (em >>> k).stickyBit = false := by
  induction k with
  | zero => exact exact
  | succ k ih =>
    have before := ih (Nat.dvd_trans (Nat.pow_dvd_pow 2 (Nat.le_succ k)) whole)
    have even : (em.mantissa / 2 ^ k) % 2 = 0 := by
      obtain ⟨n, same⟩ := whole
      rw [same, Nat.pow_succ, Nat.mul_assoc, Nat.mul_div_cancel_left _ (Nat.two_pow_pos k)]
      omega
    refine ⟨?_, ?_⟩
    · change ((em >>> k).mantissa % 2 != 0) = false
      rw [mantissa_shiftRight, even]
      rfl
    · change ((em >>> k).roundBit || (em >>> k).stickyBit) = false
      rw [before.1, before.2]
      rfl

/-- Rounding goes no further than to the next number that is left after the shift. -/
theorem roundedMantissa_le {n k bound : Nat} (under : n ≤ bound) (whole : 2 ^ k ∣ bound) :
    (ExtendedMantissa.ofMantissaAndAccuracy n .exact >>> k).roundedMantissa * 2 ^ k ≤ bound := by
  obtain ⟨last, rfl⟩ := whole
  have kept : (ExtendedMantissa.ofMantissaAndAccuracy n .exact >>> k).mantissa = n / 2 ^ k := by
    rw [mantissa_shiftRight]
    rfl
  rw [Nat.mul_comm]
  refine Nat.mul_le_mul_left _ ?_
  by_cases exact : 2 ^ k ∣ n
  · have bits := @isExact_shiftRight (ExtendedMantissa.ofMantissaAndAccuracy n .exact) k exact
      ⟨rfl, rfl⟩
    revert kept bits
    generalize ExtendedMantissa.ofMantissaAndAccuracy n .exact >>> k = em
    obtain ⟨mantissa, roundBit, stickyBit⟩ := em
    rintro rfl ⟨rfl, rfl⟩
    change n / 2 ^ k ≤ last
    exact Nat.div_le_of_le_mul under
  · have grown := (roundedMantissa_bounds
      (ExtendedMantissa.ofMantissaAndAccuracy n .exact >>> k)).2
    have below : n / 2 ^ k < last := by
      rw [Nat.div_lt_iff_lt_mul (Nat.two_pow_pos k), Nat.mul_comm]
      refine Nat.lt_of_le_of_ne under fun same => exact ?_
      exact ⟨last, same⟩
    omega

/-- A number of 53 digits below the largest float has no larger exponent than that one, and with
the same exponent it has a smaller mantissa. -/
theorem exponent_le_of_lt {m : Nat} {e : Int} (digits : m.log2 = 52)
    (under : m * 2 ^ (e + 104).toNat < (2 ^ 53 - 1) * 2 ^ (971 + 104)) :
    e ≤ 971 ∧ (e = 971 → m < 2 ^ 53 - 1) := by
  have some : m ≠ 0 := by
    rintro rfl
    cases digits
  have bounds := (Nat.log2_eq_iff some).mp digits
  constructor
  · refine Int.not_lt.mp fun beyond => ?_
    have power := Nat.pow_le_pow_right (show 0 < 2 by decide)
      (show 972 + 104 ≤ (e + 104).toNat by omega)
    have product := Nat.mul_le_mul bounds.1 power
    have doubled : ∀ k n, n = k + 1 → (2 ^ 53 - 1) * 2 ^ k ≤ 2 ^ 52 * 2 ^ n := by
      rintro k _ rfl
      rw [Nat.pow_succ]
      omega
    have limit := doubled (971 + 104) (972 + 104) rfl
    omega
  · rintro rfl
    rw [show ((971 : Int) + 104).toNat = 971 + 104 from rfl] at under
    exact Nat.lt_of_mul_lt_mul_right under

/-- What lies below the largest float is rounded to a finite number. -/
theorem low_roundWithAccuracy_of_lt {s : Sign} {m : Nat} {e : Int} {accuracy : Accuracy}
    (wide : 52 ≤ m.log2) (least : -104 ≤ e)
    (under : m * 2 ^ (e + 104).toNat < (2 ^ 53 - 1) * 2 ^ (971 + 104)) :
    Low 971 (roundWithAccuracy Format.binary64 s m e accuracy) := by
  obtain ⟨same, digits, exponent⟩ := @shiftToTargetExponent_of_wide m e accuracy wide (by omega)
  have mantissa : (shiftToTargetExponent Format.binary64 m e accuracy).1.mantissa =
      m / 2 ^ (m.log2 - 52) := by
    rw [same, mantissa_shiftRight, mantissa_ofMantissaAndAccuracy]
  clear same
  generalize first : shiftToTargetExponent Format.binary64 m e accuracy = shifted
    at mantissa digits exponent
  have some : shifted.1.mantissa ≠ 0 := by
    intro nothing
    rw [nothing] at digits
    cases digits
  have grown := (roundedMantissa_bounds shifted.1).2
  -- The shifted number is no larger than before.
  have scaled : shifted.1.mantissa * 2 ^ (shifted.2 + 104).toNat ≤ m * 2 ^ (e + 104).toNat := by
    rw [mantissa, exponent, show (e + m.log2 - 52 + 104).toNat =
      (m.log2 - 52) + (e + 104).toNat by omega, Nat.pow_add, ← Nat.mul_assoc]
    exact Nat.mul_le_mul_right _ (Nat.div_mul_le_self m _)
  obtain ⟨places, few⟩ := exponent_le_of_lt digits (Nat.lt_of_le_of_lt scaled under)
  have rounded : shifted.2 = 971 → shifted.1.roundedMantissa.log2 ≤ 52 := by
    intro top
    have below := few top
    have small : shifted.1.roundedMantissa < 2 ^ 53 := by omega
    have positive : shifted.1.roundedMantissa ≠ 0 := by
      have := (roundedMantissa_bounds shifted.1).1
      omega
    have := (Nat.log2_lt positive).mpr small
    omega
  have longer : shifted.1.roundedMantissa.log2 ≤ 53 := by
    have := log2_le_succ grown
    omega
  have again := (shiftToTargetExponent_eq shifted.1.roundedMantissa shifted.2 .exact).2
  exact low_of_shifted first (by omega)

theorem low_mul {a b : Nat} {u v : UnpackedFloat} (left : Capped a u) (right : Capped b v)
    (under : a * b < (2 ^ 53 - 1) * 2 ^ 971) : Low 971 (UnpackedFloat.mul Format.binary64 u v) := by
  obtain ⟨s, m, e, positive, rfl, wide, least, _, most⟩ := left
  obtain ⟨t, n, f, positive', rfl, wide', least', _, most'⟩ := right
  change Low 971 (roundWithAccuracy Format.binary64 (s * t) (m * n) (e + f) .exact)
  have long := (Nat.log2_eq_iff (Nat.ne_of_gt positive)).mp wide
  have long' := (Nat.log2_eq_iff (Nat.ne_of_gt positive')).mp wide'
  apply low_roundWithAccuracy_of_lt
  · apply (Nat.le_log2 (Nat.ne_of_gt (Nat.mul_pos positive positive'))).mpr
    exact Nat.le_trans (Nat.le_mul_of_pos_right _ (Nat.two_pow_pos 52))
      (Nat.mul_le_mul long.1 long'.1)
  · omega
  · have product := Nat.mul_le_mul most most'
    have places : (e + f + 104).toNat = (e + 52).toNat + (f + 52).toNat := by omega
    calc m * n * 2 ^ (e + f + 104).toNat
        = m * 2 ^ (e + 52).toNat * (n * 2 ^ (f + 52).toNat) := by
          rw [places, Nat.pow_add]
          ac_rfl
      _ ≤ a * 2 ^ 52 * (b * 2 ^ 52) := product
      _ = a * b * 2 ^ 104 := by rw [show 104 = 52 + 52 from rfl, Nat.pow_add]; ac_rfl
      _ < (2 ^ 53 - 1) * 2 ^ 971 * 2 ^ 104 := Nat.mul_lt_mul_of_pos_right under (by decide)
      _ = (2 ^ 53 - 1) * 2 ^ (971 + 104) := by rw [Nat.pow_add, Nat.mul_assoc]

theorem capped_roundWithAccuracy {s : Sign} {m bound : Nat} {e : Int} {accuracy : Accuracy}
    (wide : 52 ≤ m.log2) (least : -52 ≤ e) (most : m.log2 + e ≤ 1000)
    (under : (ExtendedMantissa.ofMantissaAndAccuracy m accuracy >>> (m.log2 - 52)).roundedMantissa *
      2 ^ (m.log2 - 52) * 2 ^ (e + 52).toNat ≤ bound * 2 ^ 52) :
    Capped bound (roundWithAccuracy Format.binary64 s m e accuracy) := by
  obtain ⟨m', e', positive, same, wide', grown, bounded, value⟩ :=
    @exists_roundWithAccuracy s m e accuracy wide (by omega)
  refine ⟨s, m', e', positive, same, wide', by omega, by omega, ?_⟩
  refine Nat.le_trans ?_ under
  rw [show (e' + 52).toNat = (e' - e).toNat + (e + 52).toNat by omega, Nat.pow_add,
    ← Nat.mul_assoc]
  exact Nat.mul_le_mul_right _ value

theorem log2_shiftLeft {n : Nat} (positive : 0 < n) (j : Nat) : (n <<< j).log2 = n.log2 + j := by
  have digits := (Nat.log2_eq_iff (Nat.ne_of_gt positive)).mp rfl
  rw [Nat.shiftLeft_eq]
  refine (Nat.log2_eq_iff (Nat.ne_of_gt (Nat.mul_pos positive (Nat.two_pow_pos j)))).mpr ⟨?_, ?_⟩
  · rw [Nat.pow_add]
    exact Nat.mul_le_mul_right _ digits.1
  · rw [Nat.add_right_comm, Nat.pow_add]
    exact Nat.mul_lt_mul_of_pos_right digits.2 (Nat.two_pow_pos j)

/-- A whole number is rounded up to a multiple of its last place at most. -/
theorem capped_toFloat {n bound : Nat} (positive : 0 < n) (small : n < 2 ^ 64) (under : n ≤ bound)
    (whole : 2 ^ (n.log2 - 52) ∣ bound) : Capped bound n.toUInt64.toFloat.toModel.unpack := by
  have held : n.toUInt64.toNat = n := by
    rw [Nat.toUInt64_eq, UInt64.toNat_ofNat_of_lt' small]
  have digits : n.log2 < 64 := (Nat.log2_lt (Nat.ne_of_gt positive)).mpr small
  refine Capped.pack ?_
  change Capped bound (UnpackedFloat.normalize Format.binary64 (n.toUInt64.toNat : Int) 0 .positive)
  rw [held]
  unfold UnpackedFloat.normalize
  split
  · next negative =>
    have := Int.compare_eq_lt.mp negative
    omega
  · next zero =>
    have := Int.compare_eq_eq.mp zero
    omega
  · simp only [UnpackedFloat.round, UnpackedFloat.decreaseExponent, targetExponent_eq,
      Float.Model.totalExponent, Int.toNat_natCast]
    have shift : (0 - max ((n.log2 : Int) + 1 + 0 - 53) (-1074)).toNat = 52 - n.log2 := by omega
    have length := log2_shiftLeft positive (52 - n.log2)
    rw [shift]
    apply capped_roundWithAccuracy
    · omega
    · omega
    · omega
    · have rounded := @roundedMantissa_le (n <<< (52 - n.log2)) ((n <<< (52 - n.log2)).log2 - 52)
        (bound * 2 ^ (52 - n.log2)) (by
          rw [Nat.shiftLeft_eq]
          exact Nat.mul_le_mul_right _ under) (by
          rw [length, show n.log2 + (52 - n.log2) - 52 = n.log2 - 52 by omega]
          exact Nat.dvd_mul_right_of_dvd whole _)
      refine Nat.le_trans (Nat.mul_le_mul_right _ rounded) (Nat.le_of_eq ?_)
      rw [Nat.mul_assoc, ← Nat.pow_add]
      congr 2
      omega

theorem capped_powerOfTen {n : Nat} (inexact : 22 < n) (le : n ≤ 307) :
    Capped (4 * 10 ^ n) (powerOfTen n).toModel.unpack := by
  obtain ⟨m, e, positive, same, wide, least, low, most⟩ := exists_powerOfTen inexact le
  rw [same]
  exact Capped.pack ⟨_, m, e, positive, rfl, wide, by omega, low, most⟩

/-- Half a place below the largest float, which is `(2^53 - 1) · 2^971`. -/
def belowLargest : Nat :=
  (2 ^ 54 - 3) * 2 ^ 970

/-- What significands of seventeen digits are rounded to at most, if the product with the
power of ten is to stay half a place below the largest float. -/
def room (power : Nat) : Nat :=
  if power ≤ 291 then 2 ^ 57 else belowLargest / 10 ^ power

/-- What the power of ten is rounded to at most. -/
def scaleRoom (power : Nat) : Nat :=
  ((2 ^ 53 - 1) * 2 ^ 971 - 1) / room power

/-- What is known of these numbers by computing them. -/
theorem room_values :
    belowLargest < 10 ^ 309 ∧ room 292 = 2 * 8988465674311578 ∧ room 293 < 2 ^ 53 ∧
      4 * 10 ^ 290 ≤ ((2 ^ 53 - 1) * 2 ^ 971 - 1) / 2 ^ 57 ∧ 0 < (2 ^ 53 - 1) * 2 ^ 971 := by
  decide +kernel

theorem ten_pow_le {k n : Nat} (le : k ≤ n) : 10 ^ k ≤ 10 ^ n :=
  Nat.pow_le_pow_right (by decide) le

@[simp] theorem ten_pow_pos (n : Nat) : 0 < 10 ^ n :=
  Nat.pow_pos (by decide)

theorem room_mul_scaleRoom_lt (power : Nat) :
    room power * scaleRoom power < (2 ^ 53 - 1) * 2 ^ 971 := by
  have bound := Nat.mul_div_le ((2 ^ 53 - 1) * 2 ^ 971 - 1) (room power)
  exact Nat.lt_of_le_of_lt bound (Nat.sub_lt room_values.2.2.2.2 Nat.one_pos)

theorem le_room {digits power : Nat} (few : digits ≤ 10 ^ 17)
    (under : digits * 10 ^ power ≤ belowLargest) : digits ≤ room power := by
  unfold room
  split
  · exact Nat.le_trans few (by decide)
  · exact (Nat.le_div_iff_mul_le (ten_pow_pos power)).mpr under

/-- The room ends where the last place of a significand does. -/
theorem dvd_room {digits power : Nat} (positive : 0 < digits) (few : digits ≤ 10 ^ 17)
    (under : digits ≤ room power) : 2 ^ (digits.log2 - 52) ∣ room power := by
  have nonzero := Nat.ne_of_gt positive
  rcases Nat.lt_trichotomy power 292 with near | rfl | far
  · rw [room, if_pos (by omega)]
    have places := (Nat.log2_lt nonzero).mpr (show digits < 2 ^ 57 by omega)
    exact Nat.pow_dvd_pow 2 (by omega)
  · rw [room_values.2.1] at under ⊢
    have places := (Nat.log2_lt nonzero).mpr (show digits < 2 ^ 54 by omega)
    exact Nat.dvd_trans (Nat.pow_dvd_pow 2 (show digits.log2 - 52 ≤ 1 by omega)) ⟨_, rfl⟩
  · have shrinks : room power ≤ room 293 := by
      rw [room, room, if_neg (by omega), if_neg (by omega)]
      exact Nat.div_le_div_left (ten_pow_le far) (ten_pow_pos 293)
    have short := room_values.2.2.1
    have places := (Nat.log2_lt nonzero).mpr (show digits < 2 ^ 53 by omega)
    rw [show digits.log2 - 52 = 0 by omega]
    exact Nat.one_dvd _

def isCapped (bound : Nat) : UnpackedFloat → Bool
  | .finite _ m e _ =>
    decide (m.log2 = 52) && (decide (-52 ≤ e) && (decide (e ≤ 971) &&
      decide (m * 2 ^ (e + 52).toNat ≤ bound * 2 ^ 52)))
  | _ => false

theorem capped_of_isCapped {bound : Nat} {u : UnpackedFloat} (capped : isCapped bound u = true) :
    Capped bound u := by
  cases u with
  | finite s m e positive =>
    obtain ⟨wide, bounds⟩ := Bool.and_eq_true_iff.mp capped
    obtain ⟨least, bounds⟩ := Bool.and_eq_true_iff.mp bounds
    obtain ⟨low, most⟩ := Bool.and_eq_true_iff.mp bounds
    exact ⟨s, m, e, positive, rfl, of_decide_eq_true wide, of_decide_eq_true least,
      of_decide_eq_true low, of_decide_eq_true most⟩
  | _ => cases capped

theorem capped_scaleRoom {power : Nat} (le : power ≤ 308) :
    Capped (scaleRoom power) (powerOfTen power).toModel.unpack := by
  by_cases listed : power ∈ List.range 23 ++ List.range' 291 18
  · have table : ∀ power ∈ List.range 23 ++ List.range' 291 18,
        isCapped (scaleRoom power) (powerOfTen power).toModel.unpack = true := by decide +kernel
    exact capped_of_isCapped (table power listed)
  · simp only [List.mem_append, List.mem_range, List.mem_range'_1, not_or] at listed
    obtain ⟨s, m, e, positive, same, wide, least, low, most⟩ :=
      @capped_powerOfTen power (by omega) (by omega)
    refine ⟨s, m, e, positive, same, wide, least, low, Nat.le_trans most ?_⟩
    have grows := Nat.mul_le_mul_left 4 (ten_pow_le (show power ≤ 290 by omega))
    rw [scaleRoom, room, if_pos (by omega)]
    exact Nat.mul_le_mul_right _ (Nat.le_trans grows room_values.2.2.2.1)

/-- Half a place below the largest float, a decimal of seventeen digits is read as a
float. -/
theorem exists_toFloat?_of_le {digits power : Nat} (positive : 0 < digits)
    (few : digits ≤ 10 ^ 17) (under : digits * 10 ^ power ≤ belowLargest) :
    ∃ x, (Significand.mk digits power).toFloat? = some x := by
  have held := le_room few under
  have small : digits < 2 ^ 64 := by omega
  have le : power ≤ 308 := by
    refine Nat.not_lt.mp fun beyond => ?_
    have product := Nat.mul_le_mul (show 1 ≤ digits from positive)
      (ten_pow_le (show 309 ≤ power from beyond))
    rw [Nat.one_mul] at product
    exact Nat.not_lt.mpr (Nat.le_trans product under) room_values.1
  have low := low_mul (capped_toFloat positive small held (dvd_room positive few held))
    (capped_scaleRoom le) (room_mul_scaleRoom_lt power)
  have finite : (digits.toUInt64.toFloat * powerOfTen power).isInf = false := by
    have number := isFinite_of_low (low_pack (by decide) (by decide) low)
    change (Float.Model.pack (UnpackedFloat.mul Format.binary64
      digits.toUInt64.toFloat.toModel.unpack (powerOfTen power).toModel.unpack)).unpack.isInf = false
    revert number
    cases (Float.Model.pack (UnpackedFloat.mul Format.binary64
      digits.toUInt64.toFloat.toModel.unpack (powerOfTen power).toModel.unpack)).unpack with
    | infinity s => exact nofun
    | _ => exact fun _ => rfl
  refine ⟨digits.toUInt64.toFloat * powerOfTen power, ?_⟩
  unfold Significand.toFloat?
  dsimp only
  rw [if_neg (by omega), if_neg (by omega), Int.toNat_natCast, finite]
  rfl

end RecipeGraph.Number
