import RecipeGraph.Json.Printer
import RecipeGraph.Json.Scanner
import Mathlib.Data.Nat.Digits.Defs

/-!
# Literals are read back

The digits of a literal, its point and its power of ten are found again where they were
written. An integer of 64 bits is the same integer again.
-/

namespace RecipeGraph.Number

open Draft (digits ofDigits)

/-- The decimal digits of a number. -/
def decimals (n : Nat) : List Nat :=
  if _h : n < 10 then [n] else decimals (n / 10) ++ [n % 10]
termination_by n
decreasing_by omega

@[simp]
theorem toDigits_eq_decimals (n : Nat) : Nat.toDigits 10 n = (decimals n).map Nat.digitChar := by
  induction n using decimals.induct with
  | case1 n small =>
    rw [decimals, dif_pos small, Nat.toDigits_of_lt_base small]
    rfl
  | case2 n large ih =>
    rw [decimals, dif_neg large, Nat.toDigits_of_base_le (by decide) (by omega), ih,
      List.map_append]
    rfl

@[simp]
theorem toList_toString (n : Nat) : (toString n).toList = (decimals n).map Nat.digitChar := by
  rw [← toDigits_eq_decimals, Nat.toString_eq_repr, Nat.toList_repr]

theorem lt_ten_of_mem_decimals {n : Nat} : ∀ d ∈ decimals n, d < 10 := by
  induction n using decimals.induct with
  | case1 n small =>
    rw [decimals, dif_pos small]
    simpa using small
  | case2 n large ih =>
    rw [decimals, dif_neg large]
    intro d member
    rcases List.mem_append.mp member with before | last
    · exact ih d before
    · rw [List.mem_singleton.mp last]
      exact Nat.mod_lt _ (by decide)

@[simp] theorem ofDigits_decimals (n : Nat) : ofDigits (decimals n) = n := by
  induction n using decimals.induct with
  | case1 n small =>
    rw [decimals, dif_pos small]
    exact Nat.zero_add n
  | case2 n large ih =>
    rw [decimals, dif_neg large, ofDigits, List.foldl_append]
    change 10 * ofDigits (decimals (n / 10)) + n % 10 = n
    rw [ih]
    omega

@[simp] theorem decimals_ne_nil (n : Nat) : decimals n ≠ [] := by
  rw [decimals]
  split
  · exact List.cons_ne_nil _ _
  · exact List.append_ne_nil_of_right_ne_nil _ (List.cons_ne_nil _ _)

/-- Only zero itself starts with a zero. -/
theorem exists_decimals {n : Nat} (positive : 0 < n) :
    ∃ first rest, decimals n = first :: rest ∧ first ≠ 0 := by
  induction n using decimals.induct with
  | case1 n small => exact ⟨n, [], by rw [decimals, dif_pos small], by omega⟩
  | case2 n large ih =>
    obtain ⟨first, rest, same, nonzero⟩ := ih (by omega)
    exact ⟨first, rest ++ [n % 10], by rw [decimals, dif_neg large, same]; rfl, nonzero⟩

/-- What a number is written with. -/
def isPart (c : Char) : Bool :=
  (Text.digit? c).isSome || c = '.' || c = 'e' || c = 'E'

/-- The text goes on with no part of a number. -/
def Ends (more : List Char) : Prop :=
  ∀ c ∈ more.head?, isPart c = false

@[simp] theorem digit?_digitChar {d : Nat} (small : d < 10) :
    Text.digit? (Nat.digitChar d) = some d := by
  have all : ∀ d < 10, Text.digit? (Nat.digitChar d) = some d := by decide
  exact all d small

theorem digits_append {ds : List Nat} (small : ∀ d ∈ ds, d < 10) {more : List Char}
    (ends : ∀ c ∈ more.head?, Text.digit? c = none) :
    digits (ds.map Nat.digitChar ++ more) = (ds, more) := by
  induction ds with
  | nil =>
    cases more with
    | nil => rfl
    | cons c rest =>
      have stop := ends c rfl
      simp only [List.map_nil, List.nil_append, digits, stop]
  | cons d ds ih =>
    have here := digit?_digitChar (small d List.mem_cons_self)
    have behind := ih fun d member => small d (List.mem_cons_of_mem _ member)
    simp only [List.map_cons, List.cons_append, digits, here, behind]

theorem Ends.digit? {more : List Char} (ends : Ends more) :
    ∀ c ∈ more.head?, Text.digit? c = none := by
  intro c member
  have part := ends c member
  simp only [isPart, Bool.or_eq_false_iff, Option.isSome_eq_false_iff,
    Option.isNone_iff_eq_none] at part
  exact part.1.1.1

/-- The digits that a literal may have: some before the point, where a zero stands alone,
and some behind it. -/
structure Literal.Proper (l : Literal) : Prop where
  small : ∀ d ∈ l.whole, d < 10
  whole : l.whole ≠ []
  leading : ∀ second rest, l.whole ≠ 0 :: second :: rest
  fraction : ∀ ds ∈ l.fraction, ds ≠ [] ∧ ∀ d ∈ ds, d < 10

def Literal.fractionChars (l : Literal) : List Char :=
  match l.fraction with
  | none => []
  | some ds => '.' :: ds.map Nat.digitChar

def Literal.exponentChars (l : Literal) : List Char :=
  match l.exponent with
  | none => []
  | some power => powerMark power

/-- The text of a literal. -/
def Literal.chars (l : Literal) : List Char :=
  (if l.isNegative then ['-'] else []) ++
    (l.whole.map Nat.digitChar ++ (l.fractionChars ++ l.exponentChars))

end RecipeGraph.Number

namespace RecipeGraph.Draft

open Number (Literal Ends digits_append decimals digit?_digitChar)

theorem scanWhole_append {ds : List Nat} (small : ∀ d ∈ ds, d < 10) (some : ds ≠ [])
    (leading : ∀ second rest, ds ≠ 0 :: second :: rest) {more : List Char}
    (ends : ∀ c ∈ more.head?, Text.digit? c = none) :
    scanWhole (ds.map Nat.digitChar ++ more) = .some (ds, more) := by
  rw [scanWhole, digits_append small ends]
  split
  · next same => exact absurd (congrArg Prod.fst same) some
  · next same => exact absurd (congrArg Prod.fst same) (leading _ _)
  · rfl

theorem scanPower_append (isNegative : Bool) (n : Nat) {more : List Char} (ends : Ends more) :
    scanPower isNegative ((toString n).toList ++ more) =
      some (some (if isNegative then -(n : Int) else n), more) := by
  rw [scanPower, Number.toList_toString,
    digits_append (@Number.lt_ten_of_mem_decimals n) ends.digit?]
  have value := Number.ofDigits_decimals n
  cases same : decimals n with
  | nil => exact absurd same (Number.decimals_ne_nil n)
  | cons d ds =>
    rw [same] at value
    simp only [value]

theorem scanExponent_append (l : Literal) {more : List Char} (ends : Ends more) :
    scanExponent (l.exponentChars ++ more) = some (l.exponent, more) := by
  unfold Literal.exponentChars
  cases l.exponent with
  | none =>
    cases more with
    | nil => rfl
    | cons c rest =>
      have part := ends c rfl
      simp only [Number.isPart, Bool.or_eq_false_iff, decide_eq_false_iff_not] at part
      simp only [List.nil_append, scanExponent, part.1.2, part.2]
      rfl
  | some power =>
    cases power with
    | ofNat n =>
      have plain : ¬ Int.ofNat n < 0 := by simp
      have text : (toString (Int.ofNat n)).toList = (toString n).toList := rfl
      simp only [Number.powerMark, if_neg plain, text]
      exact scanPower_append false n ends
    | negSucc n =>
      have below : Int.negSucc n < 0 := Int.negSucc_lt_zero n
      have text : (toString (Int.negSucc n)).toList = '-' :: (toString (n + 1)).toList := by
        change ("-" ++ (n + 1).repr).toList = _
        rw [String.toList_append, Nat.toString_eq_repr]
        rfl
      simp only [Number.powerMark, if_pos below, text]
      exact scanPower_append true (n + 1) ends

theorem scanFraction_append {l : Literal} (proper : l.Proper) {more : List Char}
    (ends : Ends more) :
    scanFraction (l.fractionChars ++ (l.exponentChars ++ more)) =
      some (l.fraction, l.exponentChars ++ more) := by
  have stop : ∀ c ∈ (l.exponentChars ++ more).head?, Text.digit? c = none ∧ c ≠ '.' := by
    intro c member
    unfold Literal.exponentChars at member
    cases exponent : l.exponent with
    | none =>
      rw [exponent] at member
      refine ⟨ends.digit? c member, ?_⟩
      rintro rfl
      exact Bool.false_ne_true ((ends '.' member).symm.trans rfl)
    | some power =>
      rw [exponent] at member
      cases member
      decide
  unfold Literal.fractionChars
  cases given : l.fraction with
  | none =>
    generalize l.exponentChars ++ more = behind at stop
    cases behind with
    | nil => rfl
    | cons c rest =>
      have plain := (stop c rfl).2
      unfold scanFraction
      split
      · next same =>
        cases same
        exact absurd rfl plain
      · rfl
  | some ds =>
    obtain ⟨some, small⟩ := proper.fraction ds given
    have found := digits_append small fun c member => (stop c member).1
    simp only [List.cons_append, scanFraction, found]

/-- A literal is found again in its text. -/
theorem scanUnsigned_append {l : Literal} (proper : l.Proper) {more : List Char}
    (ends : Ends more) :
    scanUnsigned l.isNegative
        (l.whole.map Nat.digitChar ++ (l.fractionChars ++ l.exponentChars) ++ more) =
      some (l, more) := by
  have stop : ∀ c ∈ (l.fractionChars ++ (l.exponentChars ++ more)).head?,
      Text.digit? c = none := by
    intro c member
    unfold Literal.fractionChars Literal.exponentChars at member
    cases fraction : l.fraction with
    | some ds =>
      rw [fraction] at member
      cases member
      rfl
    | none =>
      rw [fraction] at member
      cases exponent : l.exponent with
      | some power =>
        rw [exponent] at member
        cases member
        rfl
      | none =>
        rw [exponent] at member
        exact ends.digit? c member
  unfold scanUnsigned
  rw [List.append_assoc, List.append_assoc,
    scanWhole_append proper.small proper.whole proper.leading stop]
  change (scanFraction (l.fractionChars ++ (l.exponentChars ++ more)) >>= _) = _
  rw [scanFraction_append proper ends]
  change (scanExponent (l.exponentChars ++ more) >>= _) = _
  rw [scanExponent_append l ends]
  rfl

theorem scanNumber_of_scanUnsigned {isNegative : Bool} {cs more : List Char} {l : Literal}
    (plain : ∀ rest, cs ≠ '-' :: rest) (found : scanUnsigned isNegative cs = some (l, more)) :
    scanNumber ((if isNegative then ['-'] else []) ++ cs) =
      (l.numeral?.elim .unreadable .num, more) := by
  cases isNegative with
  | true =>
    simp only [scanNumber, if_true, List.cons_append, List.nil_append, found]
    cases l.numeral? <;> rfl
  | false =>
    rw [if_neg Bool.false_ne_true, List.nil_append]
    unfold scanNumber
    dsimp only
    split
    · next broken =>
      split at broken
      · exact absurd rfl (plain _)
      · cases found.symm.trans broken
    · next scanned =>
      split at scanned
      · exact absurd rfl (plain _)
      · cases found.symm.trans scanned
        cases l.numeral? <;> rfl

/-- Of a literal, the scanner gives what the literal stands for. -/
theorem scanNumber_append {l : Literal} (proper : l.Proper) {more : List Char}
    (ends : Ends more) :
    scanNumber (l.chars ++ more) = (l.numeral?.elim .unreadable .num, more) := by
  unfold Literal.chars
  rw [List.append_assoc]
  refine scanNumber_of_scanUnsigned (fun rest same => ?_) (scanUnsigned_append proper ends)
  obtain ⟨d, ds, whole⟩ := List.exists_cons_of_ne_nil proper.whole
  have digit := digit?_digitChar (proper.small d (whole ▸ List.mem_cons_self))
  rw [whole] at same
  have head : Nat.digitChar d = '-' := (List.cons.inj same).1
  rw [head] at digit
  cases digit

end RecipeGraph.Draft

namespace RecipeGraph.Number

@[simp]
theorem le_foldl_digits (ds : List Nat) (n : Nat) : n ≤ ds.foldl (fun n d => 10 * n + d) n := by
  induction ds generalizing n with
  | nil => exact Nat.le_refl n
  | cons d ds ih => exact Nat.le_trans (by omega) (ih (10 * n + d))

theorem takeWhole_of_lt {ds : List Nat} {n : Nat}
    (small : ds.foldl (fun n d => 10 * n + d) n < limit) :
    takeWhole ds n = (ds.foldl (fun n d => 10 * n + d) n, []) := by
  induction ds generalizing n with
  | nil => rfl
  | cons d ds ih =>
    have here : n * 10 + d < limit := by
      have bound := le_foldl_digits ds (10 * n + d)
      have total : ds.foldl (fun n d => 10 * n + d) (10 * n + d) < limit := small
      omega
    rw [takeWhole, if_pos here, Nat.mul_comm]
    exact ih small

theorem takeWhole_decimals {n : Nat} (small : n < limit) : takeWhole (decimals n) 0 = (n, []) := by
  have value : (decimals n).foldl (fun n d => 10 * n + d) 0 = n := ofDigits_decimals n
  rw [takeWhole_of_lt (by rwa [value]), value]

theorem eq_zero_of_decimals {n : Nat} {rest : List Nat} (same : decimals n = 0 :: rest) :
    n = 0 ∧ rest = [] := by
  by_cases zero : n = 0
  · subst zero
    rw [decimals] at same
    cases same
    exact ⟨rfl, rfl⟩
  · obtain ⟨first, others, found, nonzero⟩ := exists_decimals (Nat.pos_of_ne_zero zero)
    rw [found] at same
    exact absurd (List.cons.inj same).1 nonzero

/-- The digits of a number stand in a literal as they are. -/
theorem Literal.Proper.ofDecimals (isNegative : Bool) (n : Nat) (exponent : Option Int) :
    Literal.Proper ⟨isNegative, decimals n, none, exponent⟩ := by
  refine ⟨lt_ten_of_mem_decimals, decimals_ne_nil n, ?_, fun _ member => nomatch member⟩
  intro second rest same
  cases (eq_zero_of_decimals same).2

/-- Whether the number is one that documents can hold: a whole number of 64 bits, signed or
not, or a finite number. -/
def Numeral.isProper : Numeral → Bool
  | .int i => decide (-2 ^ 63 ≤ i) && decide (i < 2 ^ 64)
  | .float x => x.isFinite

/-- Integers of 64 bits are read back. -/
theorem exists_literal_int {i : Int} (proper : (Numeral.int i).isProper = true) :
    ∃ l : Literal, l.Proper ∧ l.chars = (toString i).toList ∧ l.numeral? = some (.int i) := by
  obtain ⟨least, most⟩ := Bool.and_eq_true_iff.mp proper
  have least : -2 ^ 63 ≤ i := of_decide_eq_true least
  have most : i < 2 ^ 64 := of_decide_eq_true most
  have size : limit = 2 ^ 64 := rfl
  have half : Nat.pow 2 63 = 2 ^ 63 := rfl
  cases i with
  | ofNat n =>
    refine ⟨⟨false, decimals n, none, none⟩, .ofDecimals _ _ _, ?_, ?_⟩
    · simp only [Literal.chars, Literal.fractionChars, Literal.exponentChars]
      change (decimals n).map Nat.digitChar ++ [] = (toString n).toList
      rw [List.append_nil, toList_toString]
    · have small : n < limit := by
        have := Int.ofNat_eq_natCast n
        omega
      simp only [Literal.numeral?, takeWhole_decimals small]
      rfl
  | negSucc n =>
    refine ⟨⟨true, decimals (n + 1), none, none⟩, .ofDecimals _ _ _, ?_, ?_⟩
    · simp only [Literal.chars, Literal.fractionChars, Literal.exponentChars]
      change '-' :: ((decimals (n + 1)).map Nat.digitChar ++ []) = ("-" ++ (n + 1).repr).toList
      rw [List.append_nil, ← toList_toString, String.toList_append, Nat.toString_eq_repr]
      rfl
    · have bound : n + 1 ≤ 2 ^ 63 := by omega
      have small : n + 1 < limit := by omega
      have fits : ¬ ((n + 1 = 0 || decide (Nat.pow 2 63 < n + 1)) = true) := by
        rw [half]
        simp
        omega
      simp only [Literal.numeral?, takeWhole_decimals small]
      rw [if_neg (by simp), if_neg (by simpa using fits)]
      rfl

end RecipeGraph.Number
