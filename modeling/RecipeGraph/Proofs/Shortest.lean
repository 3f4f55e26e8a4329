import RecipeGraph.Number.Shortest
import Mathlib.Algebra.Order.Field.Rat
import Mathlib.Algebra.Order.Field.Power
import Mathlib.Data.Nat.Cast.Order.Field
import Mathlib.Tactic.Linarith
import Mathlib.Tactic.Positivity
import Mathlib.Tactic.Ring
import Mathlib.Tactic.FieldSimp
import Mathlib.Tactic.NormNum

/-!
# Bounds of the shortest decimal

The decimal that is written for a binary number has seventeen digits at most, and it is
at most half a binary place above the number. Both are compared as rational numbers.
-/

namespace RecipeGraph.Number

/-- A power with the sign of its exponent moved into a quotient. -/
theorem zpow_eq_div {a : ℚ} (nonzero : a ≠ 0) (n : ℤ) :
    a ^ n = a ^ n.toNat / a ^ (-n).toNat := by
  rw [← zpow_natCast, ← zpow_natCast, ← zpow_sub₀ nonzero]
  congr 1
  omega

def Decimal.value (d : Decimal) : ℚ :=
  d.digits * 10 ^ d.exponent

/-- Stripping zeros keeps the value, and leaves some digits where there are any. -/
theorem Decimal.strip_spec (d : Decimal) :
    d.strip.value = d.value ∧ d.strip.digits ≤ d.digits ∧
      (0 < d.digits → 0 < d.strip.digits) := by
  induction d using Decimal.strip.induct with
  | case1 d zeros ih =>
    rw [Decimal.strip, dif_pos zeros]
    obtain ⟨value, fewer, some⟩ := ih
    refine ⟨?_, by dsimp only at fewer; omega, fun _ => some (by dsimp only; omega)⟩
    have whole : ((d.digits / 10 : ℕ) : ℚ) * 10 = d.digits := by
      exact_mod_cast Nat.div_mul_cancel (Nat.dvd_of_mod_eq_zero zeros.2)
    rw [value, Decimal.value, Decimal.value, zpow_add_one₀ (by norm_num), ← whole]
    ring
  | case2 d none =>
    rw [Decimal.strip, dif_neg none]
    exact ⟨rfl, Nat.le_refl _, id⟩

namespace Binary

def value (b : Binary) : ℚ :=
  b.mantissa * 2 ^ b.exponent

theorem reaches_iff (b : Binary) (t : ℤ) : b.reaches t = true ↔ (10 : ℚ) ^ t ≤ b.value := by
  have left : (10 : ℚ) ^ t = 10 ^ t.toNat / 10 ^ (-t).toNat := zpow_eq_div (by norm_num) t
  have right : b.value =
      b.mantissa * 2 ^ b.exponent.toNat / 2 ^ (-b.exponent).toNat := by
    rw [value, zpow_eq_div (by norm_num), mul_div_assoc]
  rw [left, right, div_le_div_iff₀ (by positivity) (by positivity), reaches, decide_eq_true_iff,
    mul_comm ((10 : ℚ) ^ t.toNat)]
  exact_mod_cast Iff.rfl

/-- The binary logarithms of all numbers, with the estimated decimal ones. -/
theorem two_pow_le_ten_pow {l : ℤ} (least : -1074 ≤ l) (most : l ≤ 1023) :
    (2 : ℚ) ^ (l + 1) ≤ 10 ^ (l * 30103 / 100000 - 1 + 4) := by
  have table : ∀ k : ℕ, k < 2098 →
      2 ^ ((k : ℤ) - 1074 + 1).toNat * 10 ^ (-(((k : ℤ) - 1074) * 30103 / 100000 - 1 + 4)).toNat ≤
        10 ^ (((k : ℤ) - 1074) * 30103 / 100000 - 1 + 4).toNat *
          2 ^ (-((k : ℤ) - 1074 + 1)).toNat := by decide +kernel
  have here := table (l + 1074).toNat (by omega)
  rw [show (((l + 1074).toNat : ℕ) : ℤ) - 1074 = l by omega] at here
  rw [zpow_eq_div (by norm_num), zpow_eq_div (by norm_num),
    div_le_div_iff₀ (by positivity) (by positivity)]
  exact_mod_cast here

/-- The exponents of numbers. -/
structure Proper (b : Binary) : Prop where
  positive : 0 < b.mantissa
  small : b.mantissa < 2 ^ 53
  least : -1074 ≤ b.exponent
  most : b.exponent ≤ 971

theorem value_lt_two_pow (b : Binary) :
    b.value < 2 ^ ((b.mantissa.log2 : ℤ) + b.exponent + 1) := by
  have below : (b.mantissa : ℚ) < 2 ^ (b.mantissa.log2 + 1) := by
    exact_mod_cast Nat.lt_log2_self
  have power : (0 : ℚ) < 2 ^ b.exponent := by positivity
  calc b.value < 2 ^ (b.mantissa.log2 + 1) * 2 ^ b.exponent :=
        mul_lt_mul_of_pos_right below power
    _ = 2 ^ ((b.mantissa.log2 : ℤ) + b.exponent + 1) := by
        rw [← zpow_natCast, ← zpow_add₀ (by norm_num)]
        congr 1
        push_cast
        ring

/-- The next power of ten is not reached. -/
theorem Proper.lt_magnitude {b : Binary} (proper : b.Proper) :
    b.value < 10 ^ (b.magnitude + 1) := by
  have digits : b.mantissa.log2 < 53 :=
    (Nat.log2_lt (Nat.ne_of_gt proper.positive)).mpr proper.small
  have least := proper.least
  have most := proper.most
  have beyond : ∀ t u, ¬ b.reaches u = true → u = t + 1 → b.value < 10 ^ (t + 1) :=
    fun t u missed next => not_le.mp fun reached =>
      missed ((b.reaches_iff u).mpr (next ▸ reached))
  unfold magnitude
  dsimp only
  split
  · have table := @two_pow_le_ten_pow (b.mantissa.log2 + b.exponent) (by omega) (by omega)
    rw [add_assoc]
    exact b.value_lt_two_pow.trans_le table
  · next missed =>
    split
    · exact beyond _ _ missed (by ring)
    · next missed' =>
      split
      · exact beyond _ _ missed' (by ring)
      · next missed'' => exact beyond _ _ missed'' rfl

/-- The points that read back as the number are around it, and zero is none of them. -/
theorem onGrid_spec {b : Binary} (positive : 0 < b.mantissa) {tie : Tie} {t : ℤ} {c : ℕ}
    (hit : b.onGrid tie t = some c) :
    let up := 2 ^ (b.exponent - 2).toNat * 10 ^ (-t).toNat
    let step := 2 ^ (2 - b.exponent).toNat * 10 ^ t.toNat
    0 < c ∧ c ≤ 4 * b.mantissa * up / step + 1 ∧ c * step ≤ (4 * b.mantissa + 2) * up := by
  intro up step
  have scale : 0 < up := by positivity
  have around : ∀ point,
      (if b.mantissa % 2 = 0 then
        decide ((4 * b.mantissa - if b.startsBinade then 1 else 2) * up ≤ point) &&
          decide (point ≤ (4 * b.mantissa + 2) * up)
      else
        decide ((4 * b.mantissa - if b.startsBinade then 1 else 2) * up < point) &&
          decide (point < (4 * b.mantissa + 2) * up)) = true →
      0 < point ∧ point ≤ (4 * b.mantissa + 2) * up := by
    intro point inside
    have low : 0 < (4 * b.mantissa - if b.startsBinade then 1 else 2) * up := by
      refine Nat.mul_pos ?_ scale
      split <;> omega
    split at inside <;> rw [Bool.and_eq_true_iff, decide_eq_true_iff, decide_eq_true_iff] at inside
    · exact ⟨Nat.lt_of_lt_of_le low inside.1, inside.2⟩
    · exact ⟨Nat.lt_trans low inside.1, Nat.le_of_lt inside.2⟩
  have chosen : (c = 4 * b.mantissa * up / step ∨ c = 4 * b.mantissa * up / step + 1) ∧
      (0 < c * step ∧ c * step ≤ (4 * b.mantissa + 2) * up) := by
    unfold onGrid at hit
    dsimp only at hit
    split at hit
    · next below above =>
      cases hit
      split
      · exact ⟨.inl rfl, around _ below⟩
      · exact ⟨.inr rfl, around _ above⟩
    · next below _ =>
      cases hit
      exact ⟨.inl rfl, around _ below⟩
    · next _ above =>
      cases hit
      exact ⟨.inr rfl, around _ above⟩
    · cases hit
  refine ⟨Nat.pos_of_mul_pos_right chosen.2.1, ?_, chosen.2.2⟩
  rcases chosen.1 with same | same <;> omega

/-- A point that is taken lies close to the number. -/
theorem onGrid_bounds {b : Binary} (positive : 0 < b.mantissa) {tie : Tie} {t : ℤ} {c : ℕ}
    (hit : b.onGrid tie t = some c) :
    0 < c ∧ (c : ℚ) ≤ b.value / 10 ^ t + 1 ∧
      (c : ℚ) * 10 ^ t ≤ (b.mantissa + 1 / 2) * 2 ^ b.exponent := by
  obtain ⟨some, near, under⟩ := onGrid_spec positive hit
  have binary : (2 : ℚ) ^ b.exponent =
      4 * (2 ^ (b.exponent - 2).toNat / 2 ^ (2 - b.exponent).toNat) := by
    have shifted := @zpow_eq_div 2 (by norm_num) (b.exponent - 2)
    rw [neg_sub] at shifted
    rw [← shifted, zpow_sub₀ (by norm_num)]
    ring
  have decimal : (10 : ℚ) ^ t = 10 ^ t.toNat / 10 ^ (-t).toNat := zpow_eq_div (by norm_num) t
  have near : (c : ℚ) ≤ 4 * b.mantissa * (2 ^ (b.exponent - 2).toNat * 10 ^ (-t).toNat) /
      (2 ^ (2 - b.exponent).toNat * 10 ^ t.toNat) + 1 := by
    have whole := @Nat.cast_div_le ℚ _ _ _
      (4 * b.mantissa * (2 ^ (b.exponent - 2).toNat * 10 ^ (-t).toNat))
      (2 ^ (2 - b.exponent).toNat * 10 ^ t.toNat)
    have above : (c : ℚ) ≤ _ := Nat.cast_le.mpr near
    push_cast at above whole
    linarith
  have under : (c : ℚ) * (2 ^ (2 - b.exponent).toNat * 10 ^ t.toNat) ≤
      (4 * b.mantissa + 2) * (2 ^ (b.exponent - 2).toNat * 10 ^ (-t).toNat) := by
    exact_mod_cast under
  refine ⟨some, near.trans_eq ?_, ?_⟩
  · rw [value, binary, decimal]
    field_simp
  · rw [binary, decimal, ← mul_div_assoc, div_le_iff₀ (by positivity)]
    calc (c : ℚ) * 10 ^ t.toNat
        = c * (2 ^ (2 - b.exponent).toNat * 10 ^ t.toNat) / 2 ^ (2 - b.exponent).toNat := by
          field_simp
      _ ≤ (4 * b.mantissa + 2) * (2 ^ (b.exponent - 2).toNat * 10 ^ (-t).toNat) /
            2 ^ (2 - b.exponent).toNat := by
          exact div_le_div_of_nonneg_right under (by positivity)
      _ = (b.mantissa + 1 / 2) *
            (4 * (2 ^ (b.exponent - 2).toNat / 2 ^ (2 - b.exponent).toNat)) *
            10 ^ (-t).toNat := by
          field_simp
          ring

/-- The shortest decimal has some digits, though no more than seventeen of them, and is at
most half a binary place above the number. If no grid has a point, none is taken. -/
theorem Proper.shortest_bounds {b : Binary} (proper : b.Proper) (tie : Tie) :
    b.shortest tie = ⟨0, 0⟩ ∨
      0 < (b.shortest tie).digits ∧ (b.shortest tie).digits ≤ 10 ^ 17 ∧
        (b.shortest tie).value ≤ (b.mantissa + 1 / 2) * 2 ^ b.exponent := by
  unfold shortest
  dsimp only
  split
  · next d found =>
    right
    obtain ⟨places, listed, hit⟩ := List.exists_of_findSome?_eq_some found
    obtain ⟨c, taken, rfl⟩ := Option.map_eq_some_iff.mp hit
    obtain ⟨some, near, under⟩ := onGrid_bounds proper.positive taken
    obtain ⟨value, fewer, left⟩ := Decimal.strip_spec ⟨c, b.magnitude - places⟩
    have few : places ≤ 16 := by
      have := List.mem_range.mp listed
      omega
    refine ⟨left some, Nat.le_trans fewer ?_, value.trans_le under⟩
    have scaled : b.value / 10 ^ (b.magnitude - places) < 10 ^ (places + 1) := by
      rw [div_lt_iff₀ (by positivity), ← zpow_natCast, ← zpow_add₀ (by norm_num)]
      refine proper.lt_magnitude.trans_eq ?_
      congr 1
      push_cast
      ring
    have digits : (c : ℚ) < 10 ^ (places + 1) + 1 := by linarith
    have digits : c < 10 ^ (places + 1) + 1 := by exact_mod_cast digits
    have power := Nat.pow_le_pow_right (show 0 < 10 by decide) (show places + 1 ≤ 17 by omega)
    dsimp only
    omega
  · exact .inl rfl

end Binary

end RecipeGraph.Number
