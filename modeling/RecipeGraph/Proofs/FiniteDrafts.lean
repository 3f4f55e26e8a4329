import RecipeGraph.Proofs.FiniteNumbers
import RecipeGraph.Proofs.Yielding

/-!
# Reading drafts of finite numbers

If all numbers of a draft are finite, so are those of whatever is read from it.
-/

namespace RecipeGraph

open Number (Numeral)

def Number.Numeral.isFinite : Number.Numeral → Bool
  | .int _ => true
  | .float x => x.isFinite

namespace Json

mutual

/-- Whether all numbers of the value are finite. -/
def isFinite : Json → Bool
  | .num (.float x) => x.isFinite
  | .arr items => finiteItems items
  | .obj entries => finiteEntries entries
  | _ => true

def finiteItems : List Json → Bool
  | [] => true
  | item :: rest => item.isFinite && finiteItems rest

def finiteEntries : List (String × Json) → Bool
  | [] => true
  | (_, value) :: rest => value.isFinite && finiteEntries rest

end

mutual

@[simp] theorem all_isFinite (value : Json) : value.all Numeral.isFinite = value.isFinite := by
  cases value with
  | num n => cases n <;> rfl
  | arr items => exact allItems_isFinite items
  | obj entries => exact allEntries_isFinite entries
  | _ => rfl

@[simp] theorem allItems_isFinite (items : List Json) :
    allItems Numeral.isFinite items = finiteItems items := by
  cases items with
  | nil => rfl
  | cons item rest => simp only [allItems, finiteItems, all_isFinite item, allItems_isFinite rest]

@[simp] theorem allEntries_isFinite (entries : List (String × Json)) :
    allEntries Numeral.isFinite entries = finiteEntries entries := by
  cases entries with
  | nil => rfl
  | cons entry rest =>
    simp only [allEntries, finiteEntries, all_isFinite entry.2, allEntries_isFinite rest]

end

theorem finiteEntries_insert {key : String} {value : Json} {entries : List (String × Json)}
    (finite : value.isFinite = true) (others : finiteEntries entries = true) :
    finiteEntries (insert key value entries) = true := by
  rw [← allEntries_isFinite] at others ⊢
  exact allEntries_insert ((all_isFinite value).trans finite) others

@[simp] theorem isFinite_float (x : Float) : (float x).isFinite = true := by
  unfold float
  split
  · next finite => exact finite
  · rfl

@[simp] theorem isFinite_optional (x : Option Float) : (optional float x).isFinite = true := by
  cases x with
  | none => rfl
  | some x => exact isFinite_float x

@[simp] theorem isFinite_list {encode : α → Json} (each : ∀ a, (encode a).isFinite = true)
    (items : List α) : (list encode items).isFinite = true := by
  change finiteItems (items.map encode) = true
  induction items with
  | nil => rfl
  | cons item rest ih => exact Bool.and_eq_true_iff.mpr ⟨each item, ih⟩

end Json

namespace Decoder

theorem yields_float : Decoder.float.Yields Numeral.isFinite fun x => x.isFinite = true := by
  intro reading draft x allowed read
  cases draft with
  | num n =>
    cases n with
    | int i =>
      cases read
      exact Number.isFinite_ofInt i
    | float y =>
      cases read
      exact allowed
  | _ => cases read

theorem yields_entries :
    Decoder.entries.Yields Numeral.isFinite fun found => Json.finiteEntries found = true := by
  intro reading draft found allowed read
  unfold entries at read
  split at read
  · next values whole =>
    cases read
    rw [← Json.allEntries_isFinite]
    exact Draft.all_of_value? allowed whole
  · cases read
  · cases read

end Decoder

end RecipeGraph
