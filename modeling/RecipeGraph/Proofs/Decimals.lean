import RecipeGraph.Proofs.Numerals
import RecipeGraph.Proofs.FiniteLiterals

/-!
# Written floats are read back as floats

Documents hold a decimal with a point in its place or in scientific form. Either way it is a
literal of the grammar of numbers that is read as a float and never as an integer.
-/

namespace RecipeGraph.Number

open Draft (ofDigits)

/-- The literal that a decimal is written as in documents. -/
def Decimal.literal (d : Decimal) (isNegative : Bool) : Literal :=
  let ds := decimals d.digits
  let places := (ds.length : Int) + d.exponent
  if Style.document.lowest < places && places ≤ Style.document.highest then
    if 0 ≤ d.exponent then ⟨isNegative, ds ++ List.replicate d.exponent.toNat 0, some [0], none⟩
    else if 0 < places then
      ⟨isNegative, ds.take places.toNat, some (ds.drop places.toNat), none⟩
    else ⟨isNegative, [0], some (List.replicate (-places).toNat 0 ++ ds), none⟩
  else
    match ds with
    | first :: second :: rest =>
      ⟨isNegative, [first], some (second :: rest), some (places - 1)⟩
    | short => ⟨isNegative, short, none, some (places - 1)⟩

theorem zeros_eq_map (n : Nat) : zeros n = (List.replicate n 0).map Nat.digitChar := by
  rw [List.map_replicate]
  rfl

@[simp] theorem length_toString (n : Nat) : (toString n).length = (decimals n).length := by
  rw [← String.length_toList, toList_toString, List.length_map]

theorem Decimal.chars_literal (d : Decimal) (isNegative : Bool) :
    (d.literal isNegative).chars =
      (if isNegative then ['-'] else []) ++ unsigned .document d := by
  unfold literal unsigned positional scientific
  simp only [length_toString, toList_toString, List.length_map, zeros_eq_map]
  by_cases near : (Style.document.lowest < (decimals d.digits).length + d.exponent &&
      (decimals d.digits).length + d.exponent ≤ Style.document.highest) = true
  · rw [if_pos near, if_pos near]
    by_cases whole : 0 ≤ d.exponent
    · have marks : (Style.document.marksWhole && decide (0 ≤ d.exponent)) = true := by
        simp [whole, Style.document]
      rw [if_pos whole, if_pos whole, if_pos marks]
      simp [Literal.chars, Literal.fractionChars, Literal.exponentChars]
    · have marks : ¬ (Style.document.marksWhole && decide (0 ≤ d.exponent)) = true := by
        simp [whole]
      rw [if_neg whole, if_neg whole, if_neg marks]
      by_cases some : 0 < ((decimals d.digits).length : Int) + d.exponent
      · rw [if_pos some, if_pos some]
        simp [Literal.chars, Literal.fractionChars, Literal.exponentChars, List.map_take,
          List.map_drop]
      · rw [if_neg some, if_neg some]
        simp [Literal.chars, Literal.fractionChars, Literal.exponentChars]
  · rw [if_neg near, if_neg near]
    cases same : decimals d.digits with
    | nil => exact absurd same (decimals_ne_nil _)
    | cons first rest =>
      cases rest <;>
        simp [Literal.chars, Literal.fractionChars, Literal.exponentChars]

/-- The forms in which a decimal stands in documents. -/
inductive Decimal.StandsAs (d : Decimal) (isNegative : Bool) : Literal → Prop
  | whole (natural : 0 ≤ d.exponent) (short : (decimals d.digits).length + d.exponent ≤ 16) :
      StandsAs d isNegative
        ⟨isNegative, decimals d.digits ++ List.replicate d.exponent.toNat 0, some [0], none⟩
  | pointed {places : Nat} (broken : d.exponent < 0) (ahead : 0 < places) (short : places ≤ 16)
      (within : places < (decimals d.digits).length) :
      StandsAs d isNegative
        ⟨isNegative, (decimals d.digits).take places, some ((decimals d.digits).drop places), none⟩
  | below {zeros : Nat} :
      StandsAs d isNegative
        ⟨isNegative, [0], some (List.replicate zeros 0 ++ decimals d.digits), none⟩
  | scientific {first : Nat} {fraction : Option (List Nat)} {power : Int}
      (digits : decimals d.digits = first :: fraction.getD []) (marked : fraction ≠ some [])
      (moved : power = (fraction.getD []).length + d.exponent) :
      StandsAs d isNegative ⟨isNegative, [first], fraction, some power⟩

theorem Decimal.standsAs_literal (d : Decimal) (isNegative : Bool) :
    d.StandsAs isNegative (d.literal isNegative) := by
  have highest : Style.document.highest = 16 := rfl
  unfold literal
  dsimp only
  split
  · next near =>
    rw [Bool.and_eq_true_iff, decide_eq_true_iff, decide_eq_true_iff] at near
    split
    · next whole => exact .whole whole (by omega)
    · next broken =>
      split
      · next places =>
        exact .pointed (Int.not_le.mp broken) (by omega) (by omega) (by omega)
      · exact .below
  · split
    · next first second rest digits =>
      refine .scientific digits (Option.some_inj.not.mpr (List.cons_ne_nil _ _)) ?_
      rw [digits, Option.getD_some, List.length_cons]
      omega
    · next short =>
      obtain ⟨first, rest, digits⟩ := List.exists_cons_of_ne_nil (decimals_ne_nil d.digits)
      cases rest with
      | nil =>
        rw [digits]
        exact .scientific digits (by simp) (by simp)
      | cons second rest => exact absurd digits (short _ _ _)

namespace Literal.Proper

/-- Zeros behind a number do not come before its digits. -/
theorem ofWhole (isNegative : Bool) {n zeros : Nat} (nothing : n = 0 → zeros = 0) :
    Literal.Proper ⟨isNegative, decimals n ++ List.replicate zeros 0, some [0], none⟩ := by
  refine ⟨?_, ?_, ?_, ?_⟩
  · intro digit member
    rcases List.mem_append.mp member with written | added
    · exact lt_ten_of_mem_decimals _ written
    · rw [(List.mem_replicate.mp added).2]
      decide
  · exact List.append_ne_nil_of_left_ne_nil (decimals_ne_nil n) _
  · intro second rest same
    have same : decimals n ++ List.replicate zeros 0 = 0 :: second :: rest := same
    obtain ⟨first, others, found⟩ := List.exists_cons_of_ne_nil (decimals_ne_nil n)
    rw [found] at same
    cases (List.cons.inj same).1
    obtain ⟨zero, rfl⟩ := eq_zero_of_decimals found
    rw [nothing zero] at same
    cases same
  · rintro _ ⟨⟩
    simp

/-- The digits of a number on both sides of a point. -/
theorem ofPointed (isNegative : Bool) {n places : Nat} (nonzero : n ≠ 0) (ahead : 0 < places)
    (within : places < (decimals n).length) :
    Literal.Proper
      ⟨isNegative, (decimals n).take places, some ((decimals n).drop places), none⟩ := by
  refine ⟨fun digit member => lt_ten_of_mem_decimals _ (List.mem_of_mem_take member), ?_, ?_, ?_⟩
  · intro nothing
    have taken := congrArg List.length nothing
    simp only [List.length_take, List.length_nil] at taken
    omega
  · intro second rest same
    have same : (decimals n).take places = 0 :: second :: rest := same
    obtain ⟨first, others, found⟩ := List.exists_cons_of_ne_nil (decimals_ne_nil n)
    obtain ⟨count, rfl⟩ := Nat.exists_eq_succ_of_ne_zero (Nat.ne_of_gt ahead)
    rw [found, List.take_succ_cons] at same
    cases (List.cons.inj same).1
    exact nonzero (eq_zero_of_decimals found).1
  · rintro _ ⟨⟩
    refine ⟨?_, fun digit member => lt_ten_of_mem_decimals _ (List.mem_of_mem_drop member)⟩
    exact List.drop_eq_nil_iff.not.mpr (Nat.not_le.mpr within)

/-- A number behind a point and some zeros. -/
theorem ofBelow (isNegative : Bool) (n zeros : Nat) :
    Literal.Proper ⟨isNegative, [0], some (List.replicate zeros 0 ++ decimals n), none⟩ := by
  refine ⟨by simp, by simp, by simp, ?_⟩
  rintro _ ⟨⟩
  refine ⟨List.append_ne_nil_of_right_ne_nil _ (decimals_ne_nil n), fun digit member => ?_⟩
  rcases List.mem_append.mp member with added | written
  · rw [(List.mem_replicate.mp added).2]
    decide
  · exact lt_ten_of_mem_decimals _ written

/-- The first digit of a number before the others. -/
theorem ofScientific (isNegative : Bool) {n first : Nat} {fraction : Option (List Nat)}
    (digits : decimals n = first :: fraction.getD []) (marked : fraction ≠ some []) (power : Int) :
    Literal.Proper ⟨isNegative, [first], fraction, some power⟩ := by
  have small := @lt_ten_of_mem_decimals n
  rw [digits] at small
  refine ⟨?_, List.cons_ne_nil _ _, fun _ _ same => (nomatch same), ?_⟩
  · intro digit member
    rw [List.mem_singleton.mp member]
    exact small _ List.mem_cons_self
  · rintro ds rfl
    exact ⟨fun nothing => marked (congrArg _ nothing), fun digit member =>
      small _ (List.mem_cons_of_mem _ member)⟩

end Literal.Proper

/-- No zeros come before the digits, as long as zero has no power of ten. -/
theorem Decimal.proper_literal {d : Decimal} (zero : d.digits = 0 → d.exponent = 0)
    (isNegative : Bool) : (d.literal isNegative).Proper := by
  have stands := d.standsAs_literal isNegative
  generalize d.literal isNegative = l at stands
  cases stands with
  | whole =>
    exact .ofWhole isNegative fun nothing => by rw [zero nothing, Int.toNat_zero]
  | pointed broken ahead _ within =>
    have nonzero : d.digits ≠ 0 := fun nothing => absurd broken (by rw [zero nothing]; decide)
    exact .ofPointed isNegative nonzero ahead within
  | below => exact .ofBelow isNegative _ _
  | scientific digits marked _ => exact .ofScientific isNegative digits marked _

theorem foldl_digits_lt {ds : List Nat} (small : ∀ d ∈ ds, d < 10) (n : Nat) :
    ds.foldl (fun n d => 10 * n + d) n < (n + 1) * 10 ^ ds.length := by
  induction ds generalizing n with
  | nil => simp
  | cons d ds ih =>
    have here := small d List.mem_cons_self
    have behind := ih (fun d member => small d (List.mem_cons_of_mem _ member)) (10 * n + d)
    have le : (10 * n + d + 1) * 10 ^ ds.length ≤ (n + 1) * 10 * 10 ^ ds.length :=
      Nat.mul_le_mul_right _ (by omega)
    rw [List.foldl_cons, List.length_cons, Nat.pow_succ, Nat.mul_comm (10 ^ ds.length),
      ← Nat.mul_assoc]
    omega

theorem power_takeFraction_le (ds : List Nat) (s : Significand) :
    (takeFraction ds s).power ≤ s.power := by
  induction ds generalizing s with
  | nil => exact Int.le_refl _
  | cons d ds ih =>
    unfold takeFraction
    split
    · have behind := ih ⟨s.value * 10 + d, s.power - 1⟩
      dsimp only at behind
      omega
    · exact Int.le_refl _

theorem takeFraction_of_lt {ds : List Nat} {n : Nat} {power : Int}
    (small : ds.foldl (fun n d => 10 * n + d) n < limit) :
    takeFraction ds ⟨n, power⟩ =
      ⟨ds.foldl (fun n d => 10 * n + d) n, power - ds.length⟩ := by
  induction ds generalizing n power with
  | nil => simp [takeFraction]
  | cons d ds ih =>
    have here : n * 10 + d < limit := by
      have grown := le_foldl_digits ds (10 * n + d)
      have total : ds.foldl (fun n d => 10 * n + d) (10 * n + d) < limit := small
      omega
    rw [takeFraction]
    dsimp only
    rw [if_pos here, Nat.mul_comm, ih small]
    simp only [List.foldl_cons, List.length_cons, Significand.mk.injEq, true_and]
    omega

theorem exists_toFloat?_of_neg {s : Significand} (below : s.power < 0) :
    ∃ x, s.toFloat? = some x :=
  ⟨_, if_pos below⟩

/-- A literal with few digits before its point, and no power of ten, is a float. -/
theorem exists_numeral?_of_fraction {l : Literal} (proper : l.Proper)
    (short : l.whole.length ≤ 16) {ds : List Nat} (fraction : l.fraction = some ds)
    (exponent : l.exponent = none) : ∃ x, l.numeral? = some (.float x) := by
  obtain ⟨some, small⟩ := proper.fraction ds fraction
  obtain ⟨d, rest, rfl⟩ := List.exists_cons_of_ne_nil some
  have size : limit = 2 ^ 64 := rfl
  have value := foldl_digits_lt proper.small 0
  have power := Nat.pow_le_pow_right (show 0 < 10 by decide) short
  have whole := @takeWhole_of_lt l.whole 0 (by omega)
  have digit := small d List.mem_cons_self
  generalize l.whole.foldl (fun n d => 10 * n + d) 0 = n at value whole
  have below : (takeFraction (d :: rest) ⟨n, 0⟩).power < 0 := by
    have here : n * 10 + d < limit := by omega
    rw [takeFraction]
    dsimp only
    rw [if_pos here]
    exact Int.lt_of_le_of_lt (power_takeFraction_le rest _) (show (0 : Int) - 1 < 0 by decide)
  obtain ⟨x, read⟩ := @exists_toFloat?_of_neg
    ⟨(takeFraction (d :: rest) ⟨n, 0⟩).value, (takeFraction (d :: rest) ⟨n, 0⟩).power + 0⟩
    (by simpa using below)
  refine ⟨withSign l.isNegative x, ?_⟩
  unfold Literal.numeral?
  rw [whole, fraction, exponent]
  exact Option.map_eq_some_iff.mpr ⟨x, read, rfl⟩

/-- In scientific form, the digits and the power of ten are those of the decimal. -/
theorem exists_numeral?_of_exponent {l : Literal} {first : Nat} {rest : List Nat} {power : Int}
    (whole : l.whole = [first]) (fraction : l.fraction.getD [] = rest)
    (exponent : l.exponent = some power) (small : first < 10)
    (fits : ofDigits (first :: rest) < limit)
    (bounded : ∃ x, (Significand.mk (ofDigits (first :: rest)) (power - rest.length)).toFloat? =
      some x) : ∃ x, l.numeral? = some (.float x) := by
  obtain ⟨x, read⟩ := bounded
  have size : limit = 2 ^ 64 := rfl
  have start : ofDigits (first :: rest) = rest.foldl (fun n d => 10 * n + d) first := by
    simp [ofDigits]
  have taken : takeWhole [first] 0 = (first, []) := by
    have here : 0 * 10 + first < limit := by omega
    rw [takeWhole, if_pos here, takeWhole, Nat.zero_mul, Nat.zero_add]
  have digits := @takeFraction_of_lt rest first 0 (by rwa [← start])
  have found : Significand.toFloat? ⟨(takeFraction (l.fraction.getD []) ⟨first, 0⟩).value,
      (takeFraction (l.fraction.getD []) ⟨first, 0⟩).power + power⟩ = some x := by
    rw [fraction, digits, ← start, ← read]
    congr 2
    dsimp only
    omega
  refine ⟨withSign l.isNegative x, ?_⟩
  unfold Literal.numeral?
  rw [whole, taken, exponent]
  cases given : l.fraction <;>
    exact Option.map_eq_some_iff.mpr ⟨x, by rwa [given] at found, rfl⟩

/-- A decimal is read as a float, unless it is too large for one. -/
theorem Decimal.exists_numeral? {d : Decimal} (zero : d.digits = 0 → d.exponent = 0)
    (fits : d.digits < limit)
    (bounded : 0 ≤ d.exponent → ∃ x, (Significand.mk d.digits d.exponent).toFloat? = some x)
    (isNegative : Bool) : ∃ x, (d.literal isNegative).numeral? = some (.float x) := by
  have proper := Decimal.proper_literal zero isNegative
  have stands := d.standsAs_literal isNegative
  generalize d.literal isNegative = l at proper stands
  cases stands with
  | whole natural short =>
    refine exists_numeral?_of_fraction proper ?_ rfl rfl
    rw [List.length_append, List.length_replicate]
    omega
  | pointed _ _ short _ =>
    refine exists_numeral?_of_fraction proper ?_ rfl rfl
    exact (List.length_take_le _ _).trans short
  | below => exact exists_numeral?_of_fraction proper (show 1 ≤ 16 by decide) rfl rfl
  | scientific digits _ moved =>
    have value := ofDigits_decimals d.digits
    have small := @lt_ten_of_mem_decimals d.digits
    rw [digits] at value small
    refine exists_numeral?_of_exponent rfl rfl rfl (small _ List.mem_cons_self) (by rwa [value]) ?_
    rw [value, moved, Int.add_comm, Int.add_sub_cancel]
    by_cases whole : 0 ≤ d.exponent
    · exact bounded whole
    · exact exists_toFloat?_of_neg (Int.not_le.mp whole)
end RecipeGraph.Number
