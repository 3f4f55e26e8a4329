import RecipeGraph.Proofs.Ascending
import Mathlib.Data.List.Perm.Basic

/-!
# Entries in any order

The same value can be written with the entries of its objects in any order. A value
that lists its entries in ascending order is read back as it is from each of them.
-/

namespace RecipeGraph

namespace Json

mutual

/-- The second value is the first, with the entries of each object in some order. -/
inductive Reorders : Json → Json → Prop
  | null : Reorders .null .null
  | bool (b : Bool) : Reorders (.bool b) (.bool b)
  | num (n : Number.Numeral) : Reorders (.num n) (.num n)
  | str (s : String) : Reorders (.str s) (.str s)
  | arr {items others : List Json} (each : ReordersItems items others) :
      Reorders (.arr items) (.arr others)
  | obj {entries middle others : List (String × Json)} (shuffled : entries.Perm middle)
      (each : ReordersEntries middle others) : Reorders (.obj entries) (.obj others)

inductive ReordersItems : List Json → List Json → Prop
  | nil : ReordersItems [] []
  | cons {item other : Json} {rest others : List Json} (first : Reorders item other)
      (later : ReordersItems rest others) : ReordersItems (item :: rest) (other :: others)

inductive ReordersEntries : List (String × Json) → List (String × Json) → Prop
  | nil : ReordersEntries [] []
  | cons {key : String} {value other : Json} {rest others : List (String × Json)}
      (first : Reorders value other) (later : ReordersEntries rest others) :
      ReordersEntries ((key, value) :: rest) ((key, other) :: others)

end

mutual

@[simp] theorem Reorders.refl (value : Json) : value.Reorders value := by
  cases value with
  | null => exact .null
  | bool b => exact .bool b
  | num n => exact .num n
  | str s => exact .str s
  | arr items => exact .arr (ReordersItems.refl items)
  | obj entries => exact .obj (.refl _) (ReordersEntries.refl entries)

@[simp] theorem ReordersItems.refl (items : List Json) : ReordersItems items items := by
  cases items with
  | nil => exact .nil
  | cons item rest => exact .cons (Reorders.refl item) (ReordersItems.refl rest)

@[simp] theorem ReordersEntries.refl (entries : List (String × Json)) :
    ReordersEntries entries entries := by
  cases entries with
  | nil => exact .nil
  | cons entry rest => exact .cons (Reorders.refl entry.2) (ReordersEntries.refl rest)

end

theorem ReordersEntries.keys {entries others : List (String × Json)}
    (each : ReordersEntries entries others) : others.map (·.1) = entries.map (·.1) := by
  induction others generalizing entries with
  | nil =>
    cases each
    rfl
  | cons other rest ih =>
    cases each with
    | cons _ later => simp [ih later]

/-- Where one entry is told apart, the others are reordered among themselves. -/
theorem ReordersEntries.exists_split {key : String} {value : Json}
    {rest middle sent : List (String × Json)} (shuffled : ((key, value) :: rest).Perm middle)
    (each : ReordersEntries middle sent) :
    ∃ before other behind middle', sent = before ++ (key, other) :: behind ∧
      value.Reorders other ∧ rest.Perm middle' ∧ ReordersEntries middle' (before ++ behind) := by
  obtain ⟨front, back, rfl⟩ := List.append_of_mem (shuffled.mem_iff.mp List.mem_cons_self)
  have others : rest.Perm (front ++ back) := (shuffled.trans List.perm_middle).cons_inv
  clear shuffled
  suffices split : ∃ before other behind, sent = before ++ (key, other) :: behind ∧
      value.Reorders other ∧ ReordersEntries (front ++ back) (before ++ behind) by
    obtain ⟨before, other, behind, parts, reorders, each⟩ := split
    exact ⟨before, other, behind, front ++ back, parts, reorders, others, each⟩
  clear others
  induction front generalizing sent with
  | nil =>
    cases each with
    | cons first later => exact ⟨[], _, _, rfl, first, later⟩
  | cons entry front ih =>
    cases each with
    | cons first later =>
      obtain ⟨before, other, behind, rfl, reorders, each⟩ := ih later
      exact ⟨_ :: before, other, behind, rfl, reorders, .cons first each⟩

theorem valueEntries?_of_reorders {entries others done : List (String × Json)}
    (each : ReordersEntries entries others)
    (values : ∀ entry ∈ entries, ∀ other, entry.2.Reorders other →
      other.draft.value? = some entry.2) :
    Draft.valueEntries? (draftEntries others) done =
      some (entries.foldl (fun done entry => insert entry.1 entry.2 done) done) := by
  induction others generalizing entries done with
  | nil =>
    cases each
    rfl
  | cons other rest ih =>
    cases each with
    | cons first later =>
      have here := values _ List.mem_cons_self _ first
      rw [draftEntries, Draft.valueEntries?]
      simp only at here
      simp only [here, Option.bind_eq_bind, Option.bind_some, List.foldl_cons]
      exact ih later fun entry member => values entry (List.mem_cons_of_mem _ member)

theorem valueItems?_of_reorders {items others : List Json} (each : ReordersItems items others)
    (values : ∀ item ∈ items, ∀ other, item.Reorders other → other.draft.value? = some item) :
    Draft.valueItems? (draftItems others) = some items := by
  induction others generalizing items with
  | nil =>
    cases each
    rfl
  | cons other rest ih =>
    cases each with
    | cons first later =>
      have here := values _ List.mem_cons_self _ first
      have behind := ih later fun item member => values item (List.mem_cons_of_mem _ member)
      simp [draftItems, Draft.valueItems?, here, behind]

mutual

/-- A value in ascending order is read back from every order. -/
theorem value?_of_reorders (value : Json) (canonical : value.isCanonical = true) (other : Json)
    (reorders : value.Reorders other) : other.draft.value? = some value := by
  cases value with
  | arr items =>
    cases reorders with
    | arr each =>
      rw [draft, Draft.value?, valueItems?_of_reorders each (items_of_reorders items canonical)]
      rfl
  | obj entries =>
    cases reorders with
    | @obj _ middle _ shuffled each =>
      have parts := Bool.and_eq_true_iff.mp canonical
      have values := entries_of_reorders entries parts.2
      rw [draft, Draft.value?, valueEntries?_of_reorders each fun entry member =>
        values entry (shuffled.mem_iff.mpr member)]
      rw [foldl_insert_of_perm (of_decide_eq_true parts.1) shuffled.symm]
      rfl
  | _ =>
    cases reorders
    rfl

theorem items_of_reorders (items : List Json) (canonical : canonicalItems items = true) :
    ∀ item ∈ items, ∀ other, item.Reorders other → other.draft.value? = some item := by
  cases items with
  | nil => exact fun _ listed => nomatch listed
  | cons first rest =>
    have parts := Bool.and_eq_true_iff.mp canonical
    intro item listed other reorders
    rcases List.mem_cons.mp listed with same | behind
    · rw [same] at reorders ⊢
      exact value?_of_reorders first parts.1 other reorders
    · exact items_of_reorders rest parts.2 item behind other reorders

theorem entries_of_reorders (entries : List (String × Json))
    (canonical : canonicalEntries entries = true) :
    ∀ entry ∈ entries, ∀ other, entry.2.Reorders other → other.draft.value? = some entry.2 := by
  cases entries with
  | nil => exact fun _ listed => nomatch listed
  | cons first rest =>
    have parts := Bool.and_eq_true_iff.mp canonical
    intro entry listed other reorders
    rcases List.mem_cons.mp listed with same | behind
    · rw [same] at reorders ⊢
      exact value?_of_reorders first.2 parts.1 other reorders
    · exact entries_of_reorders rest parts.2 entry behind other reorders

end

mutual

/-- The text of a value goes on behind it. -/
@[simp] theorem isWhole_draft (value : Json) : value.draft.isWhole = true := by
  cases value with
  | arr items => exact wholeItems_draftItems items
  | obj entries => exact wholeEntries_draftEntries entries
  | _ => rfl

@[simp] theorem wholeItems_draftItems (items : List Json) :
    Draft.wholeItems (draftItems items) = true := by
  cases items with
  | nil => rfl
  | cons item rest =>
    exact Bool.and_eq_true_iff.mpr ⟨isWhole_draft item, wholeItems_draftItems rest⟩

@[simp] theorem wholeEntries_draftEntries (entries : List (String × Json)) :
    Draft.wholeEntries (draftEntries entries) = true := by
  cases entries with
  | nil => rfl
  | cons entry rest =>
    exact Bool.and_eq_true_iff.mpr ⟨isWhole_draft entry.2, wholeEntries_draftEntries rest⟩

end

@[simp] theorem skip_draft (value : Json) : value.draft.skip = .ok () := by
  rw [Draft.skip, if_pos (isWhole_draft value)]

@[simp] theorem draftEntries_append (left right : List (String × Json)) :
    draftEntries (left ++ right) = draftEntries left ++ draftEntries right := by
  induction left with
  | nil => rfl
  | cons entry rest ih => simp [draftEntries, ih]

end Json

end RecipeGraph
