import RecipeGraph.Proofs.FiniteDrafts
import RecipeGraph.Proofs.FiniteLiterals

/-!
# Scanned numbers are finite

A literal that is too large for a float leaves a draft without a value, and one beyond
64 bits is no integer. So whatever can be read from a text has finite numbers and
integers of 64 bits only.
-/

namespace RecipeGraph.Number

/-- Literals stand for no other numbers than these. -/
def ReadsOnly (allows : Numeral → Bool) : Prop :=
  ∀ (literal : Literal) n, literal.numeral? = some n → allows n = true

theorem readsOnly_isFinite : ReadsOnly Numeral.isFinite := by
  intro literal n number
  cases n with
  | int i => rfl
  | float x => exact Literal.isFinite_of_numeral? number

end RecipeGraph.Number

namespace RecipeGraph.Draft

variable {allows : Number.Numeral → Bool}

@[simp] theorem all_scanNumber (numbers : Number.ReadsOnly allows) (cs : List Char) :
    (scanNumber cs).1.all allows = true := by
  unfold scanNumber
  dsimp only
  split
  · rfl
  · next literal rest _ =>
    split
    · next n number => exact numbers literal n number
    · rfl

@[simp] theorem all_scanWord {value : Draft} (allowed : value.all allows = true) (word : String)
    (cs : List Char) : (scanWord word value cs).1.all allows = true := by
  unfold scanWord
  split
  · exact allowed
  · rfl

@[simp] theorem all_atDepth {draft : Draft} (allowed : draft.all allows = true) (depth : Nat) :
    (atDepth depth draft).all allows = true := by
  unfold atDepth
  split
  · exact allowed
  · split <;> rfl

/-- What the scanner makes of a text with so many steps. -/
structure AllowedWithin (allows : Number.Numeral → Bool) (fuel : Nat) : Prop where
  value : ∀ depth cs, (scanValue fuel depth cs).1.all allows = true
  items : ∀ depth cs, allItems allows (scanItems fuel depth cs).1 = true
  entries : ∀ depth cs, allEntries allows (scanEntries fuel depth cs).1 = true

namespace AllowedWithin

variable {fuel : Nat}

theorem value_succ (numbers : Number.ReadsOnly allows) (allowed : AllowedWithin allows fuel)
    (depth : Nat) (cs : List Char) : (scanValue (fuel + 1) depth cs).1.all allows = true := by
  unfold scanValue
  split
  · rfl
  · exact all_scanWord rfl _ _
  · exact all_scanWord rfl _ _
  · exact all_scanWord rfl _ _
  · split <;> rfl
  · split
    · exact all_atDepth rfl depth
    · exact @all_atDepth _ (.arr _) (allowed.items _ _) depth
  · split
    · exact all_atDepth rfl depth
    · exact @all_atDepth _ (.obj _) (allowed.entries _ _) depth
  · exact all_scanNumber numbers _

theorem items_succ (allowed : AllowedWithin allows fuel) (depth : Nat) (cs : List Char) :
    allItems allows (scanItems (fuel + 1) depth cs).1 = true := by
  have here := allowed.value depth cs
  unfold scanItems
  revert here
  generalize scanValue fuel depth cs = scanned
  intro here
  dsimp only
  split
  · split
    · simp [allItems, here]
    · simp [allItems, here, allowed.items]
    · simp [allItems, here, all]
  · simp [allItems, here]

theorem entries_succ (allowed : AllowedWithin allows fuel) (depth : Nat) (cs : List Char) :
    allEntries allows (scanEntries (fuel + 1) depth cs).1 = true := by
  unfold scanEntries
  split
  · split
    · rfl
    · split
      · next rest _ =>
        have here := allowed.value depth rest
        revert here
        generalize scanValue fuel depth rest = scanned
        intro here
        dsimp only
        split
        · split
          · simp [allEntries, here]
          · simp [allEntries, here, allowed.entries]
          · simp [allEntries, here, all]
        · simp [allEntries, here]
      · rfl
  · rfl

end AllowedWithin

theorem allowedWithin (numbers : Number.ReadsOnly allows) (fuel : Nat) :
    AllowedWithin allows fuel := by
  induction fuel with
  | zero =>
    refine ⟨?_, ?_, ?_⟩ <;> intro depth cs
    · rw [scanValue]
      rfl
    · rw [scanItems]
      rfl
    · rw [scanEntries]
      rfl
  | succ fuel ih => exact ⟨ih.value_succ numbers, ih.items_succ, ih.entries_succ⟩

@[simp] theorem all_scan (numbers : Number.ReadsOnly allows) (text : String) :
    (scan text).root.all allows = true :=
  (allowedWithin numbers (2 * text.toList.length + 2)).value 0 text.toList

end RecipeGraph.Draft

namespace RecipeGraph.Decoder

/-- What a text holds is read from a draft of numbers that literals can stand for. -/
theorem Yields.ofText {decode : Decoder α} {allows : Number.Numeral → Bool} {holds : α → Prop}
    (numbers : Number.ReadsOnly allows) (yields : decode.Yields allows holds) {text : String}
    {a : α} (read : decode.ofText text = .ok a) : holds a := by
  obtain ⟨value, found, given⟩ := Outcome.bind_eq_ok.mp read
  have known := yields _ _ value (Draft.all_scan numbers text) found
  split at given
  · cases given
  · cases given
    exact known

end RecipeGraph.Decoder
