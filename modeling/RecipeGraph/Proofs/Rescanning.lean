import RecipeGraph.Proofs.Printed
import RecipeGraph.Proofs.Reordering
import RecipeGraph.Proofs.Rereading
import RecipeGraph.Proofs.Yielding

/-!
# Printed values are scanned again

The text of a value is scanned as the value, but for the last places of its numbers and
for brackets that are nested too deep. The scanner follows the text from left to right, so
what stands behind a value is left over.
-/

namespace RecipeGraph

namespace Number

open Json (printNumeral)

/-- What is read where a float is written. -/
def reread (x : Float) : Float :=
  match (Draft.scanNumber (written x).toList).1 with
  | .num (.float y) => y
  | _ => x

def Numeral.reread : Numeral → Numeral
  | .int i => .int i
  | .float x => .float (Number.reread x)

@[simp] theorem ends_nil : Ends [] :=
  fun _ member => nomatch member

theorem exists_literal {n : Numeral} (proper : n.isProper = true) :
    ∃ l : Literal, l.Proper ∧ l.chars = (printNumeral n).toList ∧
      l.numeral? = some n.reread := by
  cases n with
  | int i => exact exists_literal_int proper
  | float x =>
    obtain ⟨l, fits, chars, y, number⟩ := exists_literal_float proper
    refine ⟨l, fits, chars, number.trans ?_⟩
    have scanned := Draft.scanNumber_append fits ends_nil
    rw [List.append_nil, chars, number, Option.elim_some] at scanned
    rw [Numeral.reread, Number.reread, scanned]

@[simp] theorem isFinite_reread {x : Float} (finite : x.isFinite = true) :
    (reread x).isFinite = true := by
  obtain ⟨l, -, -, number⟩ := @exists_literal (.float x) finite
  exact Literal.isFinite_of_numeral? number

/-- A literal begins with its sign or with a digit. -/
theorem Literal.Proper.exists_chars {l : Literal} (proper : l.Proper) :
    ∃ c cs, l.chars = c :: cs ∧ (isPart c = true ∨ c = '-') := by
  obtain ⟨d, ds, whole⟩ := List.exists_cons_of_ne_nil proper.whole
  have digit := digit?_digitChar (proper.small d (whole ▸ List.mem_cons_self))
  unfold Literal.chars
  cases l.isNegative with
  | true => exact ⟨_, _, rfl, .inr rfl⟩
  | false =>
    rw [whole]
    exact ⟨_, _, rfl, .inl (by rw [isPart, digit]; rfl)⟩

end Number

open Number (Numeral Ends isPart)

namespace Json

mutual

/-- The value with its numbers as they are read where they are written. -/
def reread : Json → Json
  | .num n => .num n.reread
  | .arr items => .arr (rereadItems items)
  | .obj entries => .obj (rereadEntries entries)
  | other => other

def rereadItems : List Json → List Json
  | [] => []
  | item :: rest => item.reread :: rereadItems rest

def rereadEntries : List (String × Json) → List (String × Json)
  | [] => []
  | (key, value) :: rest => (key, value.reread) :: rereadEntries rest

end

mutual

/-- How deep brackets are nested. -/
def depth : Json → Nat
  | .arr items => depthItems items + 1
  | .obj entries => depthEntries entries + 1
  | _ => 0

def depthItems : List Json → Nat
  | [] => 0
  | item :: rest => max item.depth (depthItems rest)

def depthEntries : List (String × Json) → Nat
  | [] => 0
  | (_, value) :: rest => max value.depth (depthEntries rest)

end

mutual

/-- What is scanned from the text of the value inside so many brackets. -/
def scanned (depth : Nat) : Json → Draft
  | .null => .null
  | .bool b => .bool b
  | .num n => .num n.reread
  | .str s => .str s
  | .arr items => Draft.atDepth depth (.arr (scannedItems (depth + 1) items))
  | .obj entries => Draft.atDepth depth (.obj (scannedEntries (depth + 1) entries))

def scannedItems (depth : Nat) : List Json → List Draft
  | [] => []
  | item :: rest => item.scanned depth :: scannedItems depth rest

def scannedEntries (depth : Nat) : List (String × Json) → List (Option String × Draft)
  | [] => []
  | (key, value) :: rest => (some key, value.scanned depth) :: scannedEntries depth rest

end

end Json

@[simp] theorem Draft.isWhole_atDepth {draft : Draft} (whole : draft.isWhole = true) (depth : Nat) :
    (atDepth depth draft).isWhole = true := by
  unfold atDepth
  split
  · exact whole
  · rfl

namespace Json

mutual

@[simp]
theorem isWhole_scanned (depth : Nat) (value : Json) : (value.scanned depth).isWhole = true := by
  cases value with
  | arr items =>
    exact @Draft.isWhole_atDepth (.arr _) (wholeItems_scannedItems (depth + 1) items) depth
  | obj entries =>
    exact @Draft.isWhole_atDepth (.obj _) (wholeEntries_scannedEntries (depth + 1) entries) depth
  | _ => rfl

@[simp] theorem wholeItems_scannedItems (depth : Nat) (items : List Json) :
    Draft.wholeItems (scannedItems depth items) = true := by
  cases items with
  | nil => rfl
  | cons item rest =>
    exact Bool.and_eq_true_iff.mpr
      ⟨isWhole_scanned depth item, wholeItems_scannedItems depth rest⟩

@[simp] theorem wholeEntries_scannedEntries (depth : Nat) (entries : List (String × Json)) :
    Draft.wholeEntries (scannedEntries depth entries) = true := by
  cases entries with
  | nil => rfl
  | cons entry rest =>
    exact Bool.and_eq_true_iff.mpr
      ⟨isWhole_scanned depth entry.2, wholeEntries_scannedEntries depth rest⟩

end

mutual

/-- Up to the deepest level, the value itself is scanned. -/
theorem scanned_of_shallow {depth : Nat} {value : Json}
    (shallow : depth + value.depth ≤ Draft.maxDepth) :
    value.scanned depth = value.reread.draft := by
  cases value with
  | arr items =>
    rw [Json.depth] at shallow
    have inner := @scannedItems_of_shallow (depth + 1) items (by omega)
    rw [scanned, reread, draft, inner, Draft.atDepth, if_pos (by omega)]
  | obj entries =>
    rw [Json.depth] at shallow
    have inner := @scannedEntries_of_shallow (depth + 1) entries (by omega)
    rw [scanned, reread, draft, inner, Draft.atDepth, if_pos (by omega)]
  | _ => rfl

theorem scannedItems_of_shallow {depth : Nat} {items : List Json}
    (shallow : depth + depthItems items ≤ Draft.maxDepth) :
    scannedItems depth items = draftItems (rereadItems items) := by
  cases items with
  | nil => rfl
  | cons item rest =>
    rw [depthItems] at shallow
    rw [scannedItems, rereadItems, draftItems, scanned_of_shallow (by omega),
      scannedItems_of_shallow (by omega)]

theorem scannedEntries_of_shallow {depth : Nat} {entries : List (String × Json)}
    (shallow : depth + depthEntries entries ≤ Draft.maxDepth) :
    scannedEntries depth entries = draftEntries (rereadEntries entries) := by
  cases entries with
  | nil => rfl
  | cons entry rest =>
    rw [depthEntries] at shallow
    rw [scannedEntries, rereadEntries, draftEntries, scanned_of_shallow (by omega),
      scannedEntries_of_shallow (by omega)]

end

mutual

/-- Below the deepest level there is no value. -/
theorem shallow_of_value? {depth : Nat} {value found : Json} (under : depth ≤ Draft.maxDepth)
    (read : (value.scanned depth).value? = some found) :
    depth + value.depth ≤ Draft.maxDepth := by
  cases value with
  | arr items =>
    rw [scanned, Draft.atDepth] at read
    split at read
    · obtain ⟨values, inner, -⟩ := Option.map_eq_some_iff.mp read
      have := @shallow_of_valueItems? (depth + 1) items _ (by omega) inner
      rw [Json.depth]
      omega
    · split at read <;> cases read
  | obj entries =>
    rw [scanned, Draft.atDepth] at read
    split at read
    · obtain ⟨values, inner, -⟩ := Option.map_eq_some_iff.mp read
      have := @shallow_of_valueEntries? (depth + 1) entries _ _ (by omega) inner
      rw [Json.depth]
      omega
    · split at read <;> cases read
  | _ => exact under
termination_by structural value

theorem shallow_of_valueItems? {depth : Nat} {items found : List Json}
    (under : depth ≤ Draft.maxDepth)
    (read : Draft.valueItems? (scannedItems depth items) = some found) :
    depth + depthItems items ≤ Draft.maxDepth := by
  cases items with
  | nil => exact under
  | cons item rest =>
    rw [scannedItems, Draft.valueItems?] at read
    obtain ⟨value, here, further⟩ := Option.bind_eq_some_iff.mp read
    obtain ⟨values, later, -⟩ := Option.bind_eq_some_iff.mp further
    have first := shallow_of_value? under here
    have others := shallow_of_valueItems? under later
    rw [depthItems]
    omega
termination_by structural items

theorem shallow_of_valueEntries? {depth : Nat} {entries done found : List (String × Json)}
    (under : depth ≤ Draft.maxDepth)
    (read : Draft.valueEntries? (scannedEntries depth entries) done = some found) :
    depth + depthEntries entries ≤ Draft.maxDepth := by
  cases entries with
  | nil => exact under
  | cons entry rest =>
    rw [scannedEntries, Draft.valueEntries?] at read
    obtain ⟨value, here, later⟩ := Option.bind_eq_some_iff.mp read
    have first := shallow_of_value? under here
    have others := shallow_of_valueEntries? under later
    rw [depthEntries]
    omega
termination_by structural entries

end

end Json

namespace Draft

open Json (scanned scannedItems scannedEntries chars itemChars entryChars stringChars)

variable {fuel depth : Nat} {more : List Char}

theorem skipBlanks_of_not_isBlank {c : Char} (visible : isBlank c = false) (cs : List Char) :
    skipBlanks (c :: cs) = c :: cs := by
  rw [skipBlanks, List.dropWhile_cons_of_neg (by rw [visible]; exact Bool.false_ne_true)]

theorem ends_cons {c : Char} (apart : isPart c = false) (cs : List Char) : Ends (c :: cs) := by
  intro _ member
  cases member
  exact apart

@[simp] theorem ends_itemChars (items : List Json) : Ends (itemChars items ++ more) := by
  cases items <;> exact ends_cons (by decide) _

@[simp]
theorem ends_entryChars (entries : List (String × Json)) : Ends (entryChars entries ++ more) := by
  cases entries <;> exact ends_cons (by decide) _

theorem ne_of_isPart {c : Char} (part : isPart c = true ∨ c = '-') {d : Char}
    (apart : isPart d = false ∧ d ≠ '-') : c ≠ d := by
  rintro rfl
  rcases part with part | dash
  · exact Bool.false_ne_true (apart.1.symm.trans part)
  · exact apart.2 dash

theorem isBlank_of_isPart {c : Char} (part : isPart c = true ∨ c = '-') : isBlank c = false := by
  simp only [isBlank, Bool.or_eq_false_iff, decide_eq_false_iff_not]
  exact ⟨⟨⟨ne_of_isPart part (by decide), ne_of_isPart part (by decide)⟩,
    ne_of_isPart part (by decide)⟩, ne_of_isPart part (by decide)⟩

/-- A value begins with neither a blank nor a closing bracket. -/
theorem exists_chars {value : Json} (proper : value.all Numeral.isProper = true) :
    ∃ c cs, value.chars = c :: cs ∧ isBlank c = false ∧ c ≠ ']' := by
  cases value with
  | null => exact ⟨_, _, rfl, by decide, by decide⟩
  | bool b => cases b <;> exact ⟨_, _, rfl, by decide, by decide⟩
  | num n =>
    obtain ⟨l, fits, chars, -⟩ := Number.exists_literal proper
    obtain ⟨c, cs, same, part⟩ := fits.exists_chars
    exact ⟨c, cs, chars.symm.trans same, isBlank_of_isPart part, ne_of_isPart part (by decide)⟩
  | str s => exact ⟨_, _, rfl, by decide, by decide⟩
  | arr items => cases items <;> exact ⟨_, _, rfl, by decide, by decide⟩
  | obj entries => cases entries <;> exact ⟨_, _, rfl, by decide, by decide⟩

theorem scanValue_number {c : Char} {cs : List Char} (part : isPart c = true ∨ c = '-') :
    scanValue (fuel + 1) depth (c :: cs) = scanNumber (c :: cs) := by
  rw [scanValue, skipBlanks_of_not_isBlank (isBlank_of_isPart part)]
  split
  case h_8 => rfl
  case h_1 same => cases same
  all_goals
    next same =>
      cases same
      exact absurd rfl (ne_of_isPart part (by decide))

theorem scanValue_numeral {n : Numeral} (proper : n.isProper = true) (ends : Ends more) :
    scanValue (fuel + 1) depth ((Json.printNumeral n).toList ++ more) = (.num n.reread, more) := by
  obtain ⟨l, fits, chars, number⟩ := Number.exists_literal proper
  obtain ⟨c, cs, same, part⟩ := fits.exists_chars
  have scanned := scanNumber_append fits ends
  rw [number, Option.elim_some, same, List.cons_append] at scanned
  rw [← chars, same, List.cons_append, scanValue_number part, scanned]

@[simp] theorem length_itemChars_pos (items : List Json) : 0 < (itemChars items).length := by
  cases items <;> exact Nat.succ_pos _

@[simp] theorem length_entryChars_pos (entries : List (String × Json)) :
    0 < (entryChars entries).length := by
  cases entries <;> exact Nat.succ_pos _

section Steps

variable {item : Draft} {cs rest : List Char}

theorem scanItems_last (scanned : scanValue fuel depth cs = (item, ']' :: rest))
    (whole : item.isWhole = true) : scanItems (fuel + 1) depth cs = ([item], rest) := by
  rw [scanItems, scanned]
  simp only [whole, if_true]
  rfl

theorem scanItems_cons (scanned : scanValue fuel depth cs = (item, ',' :: rest))
    (whole : item.isWhole = true) :
    scanItems (fuel + 1) depth cs =
      (item :: (scanItems fuel depth rest).1, (scanItems fuel depth rest).2) := by
  rw [scanItems, scanned]
  simp only [whole, if_true]
  rfl

@[simp] theorem stringChars_append (key : String) :
    stringChars key ++ ':' :: cs =
      '"' :: (key.toList.flatMap Json.escaped ++ '"' :: ':' :: cs) := by
  simp [stringChars]

theorem scanEntries_last {key : String} (scanned : scanValue fuel depth cs = (item, '\x7d' :: rest))
    (whole : item.isWhole = true) :
    scanEntries (fuel + 1) depth (stringChars key ++ ':' :: cs) = ([(some key, item)], rest) := by
  have colon : skipBlanks (':' :: cs) = ':' :: cs := skipBlanks_of_not_isBlank (by decide) cs
  rw [stringChars_append, scanEntries, skipBlanks_of_not_isBlank (by decide)]
  simp only [scanString_stringChars, colon, scanned, whole, if_true]
  rfl

theorem scanEntries_cons {key : String} (scanned : scanValue fuel depth cs = (item, ',' :: rest))
    (whole : item.isWhole = true) :
    scanEntries (fuel + 1) depth (stringChars key ++ ':' :: cs) =
      ((some key, item) :: (scanEntries fuel depth rest).1, (scanEntries fuel depth rest).2) := by
  have colon : skipBlanks (':' :: cs) = ':' :: cs := skipBlanks_of_not_isBlank (by decide) cs
  rw [stringChars_append, scanEntries, skipBlanks_of_not_isBlank (by decide)]
  simp only [scanString_stringChars, colon, scanned, whole, if_true]
  rfl

theorem scanValue_arr {items : List Draft} {c : Char} (visible : isBlank c = false ∧ c ≠ ']')
    (scanned : scanItems fuel (depth + 1) (c :: cs) = (items, rest)) :
    scanValue (fuel + 1) depth ('[' :: c :: cs) = (atDepth depth (.arr items), rest) := by
  rw [scanValue, skipBlanks_of_not_isBlank (by decide)]
  simp only [skipBlanks_of_not_isBlank visible.1]
  split
  · next same => exact absurd (List.cons.inj same).1 visible.2
  · rw [scanned]

theorem scanValue_obj {entries : List (Option String × Draft)}
    (scanned : scanEntries fuel (depth + 1) ('"' :: cs) = (entries, rest)) :
    scanValue (fuel + 1) depth ('\x7b' :: '"' :: cs) = (atDepth depth (.obj entries), rest) := by
  rw [scanValue, skipBlanks_of_not_isBlank (by decide)]
  simp only [skipBlanks_of_not_isBlank (show isBlank '"' = false by decide)]
  split
  · next same => cases same
  · rw [scanned]

end Steps

theorem length_chars_pos {value : Json} (proper : value.all Numeral.isProper = true) :
    0 < value.chars.length := by
  obtain ⟨c, cs, same, -⟩ := exists_chars proper
  rw [same]
  exact Nat.succ_pos _

/-- Texts that need no more steps than these are scanned up to their ends. Two steps for
each character suffice. -/
structure ScannedWithin (fuel : Nat) : Prop where
  value : ∀ (depth : Nat) (value : Json) more, value.all Numeral.isProper = true →
    2 * value.chars.length ≤ fuel → Ends more →
    scanValue fuel depth (value.chars ++ more) = (value.scanned depth, more)
  items : ∀ (depth : Nat) first rest more,
    Json.allItems Numeral.isProper (first :: rest) = true →
    2 * (first.chars.length + (itemChars rest).length) ≤ fuel →
    scanItems fuel depth (first.chars ++ (itemChars rest ++ more)) =
      (scannedItems depth (first :: rest), more)
  entries : ∀ (depth : Nat) key value rest more,
    Json.allEntries Numeral.isProper ((key, value) :: rest) = true →
    2 * (value.chars.length + (entryChars rest).length) ≤ fuel →
    scanEntries fuel depth
        (stringChars key ++ ':' :: (value.chars ++ (entryChars rest ++ more))) =
      (scannedEntries depth ((key, value) :: rest), more)

namespace ScannedWithin

theorem value_succ (within : ScannedWithin fuel) (depth : Nat) (value : Json)
    (more : List Char) (proper : value.all Numeral.isProper = true)
    (enough : 2 * value.chars.length ≤ fuel + 1) (ends : Ends more) :
    scanValue (fuel + 1) depth (value.chars ++ more) = (value.scanned depth, more) := by
  cases value with
  | null => rfl
  | bool b => cases b <;> rfl
  | num n => exact scanValue_numeral proper ends
  | str s =>
    have text : stringChars s ++ more = '"' :: (s.toList.flatMap Json.escaped ++ '"' :: more) := by
      simp [stringChars]
    rw [chars, text, scanValue, skipBlanks_of_not_isBlank (by decide)]
    simp only [scanString_stringChars]
    rfl
  | arr items =>
    cases items with
    | nil => rfl
    | cons first rest =>
      obtain ⟨c, cs, same, visible⟩ := exists_chars (Bool.and_eq_true_iff.mp proper).1
      rw [chars, List.length_cons, List.length_append] at enough
      have inner := within.items (depth + 1) first rest more proper (by omega)
      rw [chars, List.cons_append, List.append_assoc]
      rw [same] at inner ⊢
      exact scanValue_arr visible inner
  | obj entries =>
    cases entries with
    | nil => rfl
    | cons entry rest =>
      obtain ⟨key, value⟩ := entry
      rw [chars, List.length_cons, List.length_append, List.length_cons,
        List.length_append] at enough
      have inner := within.entries (depth + 1) key value rest more proper (by omega)
      rw [stringChars_append] at inner
      have text : (Json.obj ((key, value) :: rest)).chars ++ more = '\x7b' :: '"' ::
          (key.toList.flatMap Json.escaped ++
            '"' :: ':' :: (value.chars ++ (entryChars rest ++ more))) := by
        simp [chars, stringChars]
      rw [text]
      exact scanValue_obj inner

theorem items_succ (within : ScannedWithin fuel) (depth : Nat) (first : Json)
    (rest : List Json) (more : List Char)
    (proper : Json.allItems Numeral.isProper (first :: rest) = true)
    (enough : 2 * (first.chars.length + (itemChars rest).length) ≤ fuel + 1) :
    scanItems (fuel + 1) depth (first.chars ++ (itemChars rest ++ more)) =
      (scannedItems depth (first :: rest), more) := by
  have parts := Bool.and_eq_true_iff.mp proper
  have behind := length_itemChars_pos rest
  have here := within.value depth first (itemChars rest ++ more) parts.1 (by omega)
    (ends_itemChars rest)
  have whole := Json.isWhole_scanned depth first
  cases rest with
  | nil => exact scanItems_last here whole
  | cons second rest =>
    have some := length_chars_pos parts.1
    rw [itemChars, List.length_cons, List.length_append] at enough
    have later := within.items depth second rest more parts.2 (by omega)
    rw [itemChars, List.cons_append, List.append_assoc] at here ⊢
    rw [scanItems_cons here whole, later]
    rfl

theorem entries_succ (within : ScannedWithin fuel) (depth : Nat) (key : String)
    (value : Json) (rest : List (String × Json)) (more : List Char)
    (proper : Json.allEntries Numeral.isProper ((key, value) :: rest) = true)
    (enough : 2 * (value.chars.length + (entryChars rest).length) ≤ fuel + 1) :
    scanEntries (fuel + 1) depth
        (stringChars key ++ ':' :: (value.chars ++ (entryChars rest ++ more))) =
      (scannedEntries depth ((key, value) :: rest), more) := by
  have parts := Bool.and_eq_true_iff.mp proper
  have behind := length_entryChars_pos rest
  have here := within.value depth value (entryChars rest ++ more) parts.1 (by omega)
    (ends_entryChars rest)
  have whole := Json.isWhole_scanned depth value
  cases rest with
  | nil => exact scanEntries_last here whole
  | cons second rest =>
    obtain ⟨key', value'⟩ := second
    have some := length_chars_pos parts.1
    rw [entryChars, List.length_cons, List.length_append, List.length_cons,
      List.length_append] at enough
    have later := within.entries depth key' value' rest more parts.2 (by omega)
    have text : entryChars ((key', value') :: rest) ++ more = ',' :: (stringChars key' ++
        ':' :: (value'.chars ++ (entryChars rest ++ more))) := by
      simp [entryChars]
    rw [text] at here ⊢
    rw [scanEntries_cons here whole, later]
    rfl

end ScannedWithin

theorem scannedWithin (fuel : Nat) : ScannedWithin fuel := by
  induction fuel with
  | zero =>
    refine ⟨?_, ?_, ?_⟩
    · intro depth value more proper enough
      have := length_chars_pos proper
      omega
    · intro depth first rest more proper enough
      have := length_itemChars_pos rest
      omega
    · intro depth key value rest more proper enough
      have := length_entryChars_pos rest
      omega
  | succ fuel ih => exact ⟨ih.value_succ, ih.items_succ, ih.entries_succ⟩

/-- The text of a value is scanned as a whole document. -/
theorem scan_print {value : Json} (proper : value.all Numeral.isProper = true) :
    scan value.print = ⟨value.scanned 0, false⟩ := by
  have whole := (scannedWithin (2 * value.chars.length + 2)).value 0 value [] proper (by omega)
    Number.ends_nil
  rw [List.append_nil] at whole
  rw [scan, Json.toList_print]
  simp only [whole]
  rfl

end Draft

end RecipeGraph
