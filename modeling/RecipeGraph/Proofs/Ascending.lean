import RecipeGraph.Proofs.Merging
import Mathlib.Data.List.Nodup
import Mathlib.Data.String.Basic

/-!
# Objects in ascending order

Values list the entries of an object in ascending order of the keys, each key once. So
the order in which a text has given them leaves no trace, and whatever is read as a
value of its own is in this form.
-/

namespace RecipeGraph

namespace Text

@[simp] theorem charsBefore_iff {left right : List Char} :
    charsBefore left right = true ↔ left < right := by
  induction left generalizing right with
  | nil => cases right <;> simp [charsBefore]
  | cons c left ih =>
    cases right with
    | nil => simp [charsBefore]
    | cons d right =>
      rw [List.cons_lt_cons_iff, charsBefore]
      change (if c.toNat < d.toNat then true else if d.toNat < c.toNat then false
        else charsBefore left right) = true ↔ c.toNat < d.toNat ∨ _
      rcases lt_trichotomy c d with less | rfl | more
      · simp [show c.toNat < d.toNat from less]
      · simp [ih]
      · have more' : d.toNat < c.toNat := more
        simp [more', Nat.lt_asymm more', more.ne']

@[simp] theorem before_iff {left right : String} : before left right = true ↔ left < right := by
  rw [String.lt_iff_toList_lt, before, charsBefore_iff]

end Text

namespace Json

variable {key : String} {value : Json} {entries : List (String × Json)}

/-- The keys ascend, so that each of them stands once. -/
def Ascending (entries : List (String × Json)) : Prop :=
  (entries.map (·.1)).Pairwise (· < ·)

instance (entries : List (String × Json)) : Decidable (Ascending entries) :=
  inferInstanceAs (Decidable (List.Pairwise _ _))

mutual

/-- Whether all objects in the value list their entries in ascending order. -/
def isCanonical : Json → Bool
  | .arr items => canonicalItems items
  | .obj entries => decide (Ascending entries) && canonicalEntries entries
  | _ => true

def canonicalItems : List Json → Bool
  | [] => true
  | item :: rest => item.isCanonical && canonicalItems rest

def canonicalEntries : List (String × Json) → Bool
  | [] => true
  | (_, value) :: rest => value.isCanonical && canonicalEntries rest

end

theorem Ascending.nodup (ascends : Ascending entries) : (entries.map (·.1)).Nodup :=
  List.Pairwise.imp (fun less => ne_of_lt less) ascends

theorem Ascending.eq_of_perm {others : List (String × Json)} (ascends : Ascending entries)
    (ascends' : Ascending others) (same : entries.Perm others) : entries = others := by
  refine List.Perm.eq_of_pairwise ?_ (List.pairwise_map.mp ascends)
    (List.pairwise_map.mp ascends') same
  exact fun left right _ _ less more => (lt_asymm less more).elim

/-- Objects with the same entries are the same. -/
theorem Ascending.ext {others : List (String × Json)} (ascends : Ascending entries)
    (ascends' : Ascending others) (same : ∀ entry, entry ∈ entries ↔ entry ∈ others) :
    entries = others :=
  ascends.eq_of_perm ascends' <| (List.perm_ext_iff_of_nodup (ascends.nodup.of_map _)
    (ascends'.nodup.of_map _)).mpr fun {entry} => same entry

@[simp] theorem mem_keys_insert {other : String} :
    other ∈ (insert key value entries).map (·.1) ↔ other = key ∨ other ∈ entries.map (·.1) := by
  induction entries with
  | nil => simp [insert]
  | cons entry rest ih =>
    unfold insert
    split
    · next same =>
      simp [same]
    · split
      · simp
      · rw [List.map_cons, List.mem_cons, ih, List.map_cons, List.mem_cons]
        exact or_left_comm

theorem Ascending.insert (ascends : Ascending entries) (key : String) (value : Json) :
    Ascending (insert key value entries) := by
  induction entries with
  | nil => exact List.pairwise_singleton _ _
  | cons entry rest ih =>
    obtain ⟨below, later⟩ := List.pairwise_cons.mp ascends
    unfold Json.insert
    split
    · next same => exact List.pairwise_cons.mpr ⟨same ▸ below, later⟩
    · next apart =>
      split
      · next first =>
        have less := Text.before_iff.mp first
        refine List.pairwise_cons.mpr ⟨fun other member => ?_, ascends⟩
        rcases List.mem_cons.mp member with rfl | behind
        · exact less
        · exact less.trans (below other behind)
      · next behind =>
        refine List.pairwise_cons.mpr ⟨fun other member => ?_, ih later⟩
        rcases mem_keys_insert.mp member with rfl | listed
        · exact lt_of_le_of_ne (not_lt.mp fun less => behind (Text.before_iff.mpr less)) apart
        · exact below other listed

/-- Where the key is there already, the keys stay as they are. -/
theorem keys_insert (ascends : Ascending entries) (listed : key ∈ entries.map (·.1)) :
    (insert key value entries).map (·.1) = entries.map (·.1) := by
  induction entries with
  | nil => cases listed
  | cons first rest ih =>
    obtain ⟨below, later⟩ := List.pairwise_cons.mp ascends
    unfold insert
    split
    · next same => simp [same]
    · next apart =>
      have behind : key ∈ rest.map (·.1) :=
        (List.mem_cons.mp listed).resolve_left fun same => apart same.symm
      split
      · next before => exact (lt_asymm (Text.before_iff.mp before) (below key behind)).elim
      · rw [List.map_cons, ih later behind, List.map_cons]

/-- The entry under the key is the new one, and all others stay. -/
theorem mem_insert_iff (ascends : Ascending entries) {entry : String × Json} :
    entry ∈ insert key value entries ↔
      entry = (key, value) ∨ entry ∈ entries ∧ entry.1 ≠ key := by
  induction entries with
  | nil => simp [insert]
  | cons first rest ih =>
    obtain ⟨below, later⟩ := List.pairwise_cons.mp ascends
    have above : ∀ other ∈ rest, first.1 < other.1 :=
      fun other member => below other.1 (List.mem_map_of_mem member)
    unfold insert
    split
    · next same =>
      have others : ∀ other ∈ rest, other.1 ≠ key :=
        fun other member => same ▸ (above other member).ne'
      rw [List.mem_cons, List.mem_cons, or_and_right]
      refine or_congr_right ⟨fun member => .inr ⟨member, others entry member⟩, ?_⟩
      rintro (⟨rfl, apart⟩ | ⟨member, _⟩)
      · exact (apart same).elim
      · exact member
    · next apart =>
      split
      · next before =>
        have less := Text.before_iff.mp before
        have others : ∀ other ∈ first :: rest, other.1 ≠ key := by
          intro other member
          rcases List.mem_cons.mp member with rfl | behind
          · exact less.ne'
          · exact (less.trans (above other behind)).ne'
        rw [List.mem_cons]
        exact or_congr_right ⟨fun member => ⟨member, others entry member⟩, And.left⟩
      · rw [List.mem_cons, List.mem_cons, ih later, or_and_right, or_left_comm]
        refine or_congr_right (or_congr_left ⟨?_, And.left⟩)
        rintro rfl
        exact ⟨rfl, apart⟩

/-- An entry under a new key is added and nothing goes. -/
theorem insert_perm (fresh : key ∉ entries.map (·.1)) :
    (insert key value entries).Perm ((key, value) :: entries) := by
  induction entries with
  | nil => exact .refl _
  | cons entry rest ih =>
    rw [List.map_cons, List.mem_cons, not_or] at fresh
    unfold insert
    rw [if_neg fun same => fresh.1 same.symm]
    split
    · exact .refl _
    · exact ((ih fresh.2).cons entry).trans (.swap _ _ _)

theorem canonicalEntries_insert (canonical : value.isCanonical = true)
    (others : canonicalEntries entries = true) :
    canonicalEntries (insert key value entries) = true := by
  induction entries with
  | nil => exact Bool.and_eq_true_iff.mpr ⟨canonical, rfl⟩
  | cons entry rest ih =>
    have parts := Bool.and_eq_true_iff.mp others
    unfold insert
    split
    · exact Bool.and_eq_true_iff.mpr ⟨canonical, parts.2⟩
    · split
      · exact Bool.and_eq_true_iff.mpr ⟨canonical, others⟩
      · exact Bool.and_eq_true_iff.mpr ⟨parts.1, ih parts.2⟩

/-- Entries under keys of their own are all added, each at its place. -/
theorem foldl_insert {given done : List (String × Json)} (once : (given.map (·.1)).Nodup)
    (ascends : Ascending done) (fresh : ∀ entry ∈ given, entry.1 ∉ done.map (·.1)) :
    Ascending (given.foldl (fun done entry => insert entry.1 entry.2 done) done) ∧
      (given.foldl (fun done entry => insert entry.1 entry.2 done) done).Perm (given ++ done) := by
  induction given generalizing done with
  | nil => exact ⟨ascends, .refl _⟩
  | cons entry rest ih =>
    obtain ⟨apart, once⟩ := List.nodup_cons.mp once
    have placed := @insert_perm entry.1 entry.2 done (fresh entry List.mem_cons_self)
    obtain ⟨ascends', all⟩ := ih once (ascends.insert entry.1 entry.2) fun other member listed => by
      rcases mem_keys_insert.mp listed with same | old
      · exact apart (List.mem_map.mpr ⟨other, member, same⟩)
      · exact fresh other (List.mem_cons_of_mem _ member) old
    exact ⟨ascends', all.trans ((placed.append_left rest).trans List.perm_middle)⟩

/-- The entries of an object in ascending order are put back in that order, whatever
order they come in. -/
theorem foldl_insert_of_perm {sorted given : List (String × Json)} (ascends : Ascending sorted)
    (same : given.Perm sorted) :
    given.foldl (fun done entry => insert entry.1 entry.2 done) [] = sorted := by
  have once : (given.map (·.1)).Nodup := (same.map _).nodup_iff.mpr ascends.nodup
  obtain ⟨ascends', all⟩ := @foldl_insert given [] once List.Pairwise.nil
    fun _ _ listed => nomatch listed
  rw [List.append_nil] at all
  exact ascends'.eq_of_perm ascends (all.trans same)

end Json

namespace Draft

mutual

/-- Whatever is read as a value of its own is in ascending order. -/
theorem isCanonical_of_value? {draft : Draft} {value : Json} (read : draft.value? = some value) :
    value.isCanonical = true := by
  cases draft with
  | arr items =>
    obtain ⟨values, found, rfl⟩ := Option.map_eq_some_iff.mp read
    exact canonicalItems_of_valueItems? found
  | obj entries =>
    obtain ⟨values, found, rfl⟩ := Option.map_eq_some_iff.mp read
    have empty : Json.Ascending [] := List.Pairwise.nil
    have parts := canonicalEntries_of_valueEntries? empty rfl found
    exact Bool.and_eq_true_iff.mpr ⟨decide_eq_true parts.1, parts.2⟩
  | unreadable => cases read
  | broken => cases read
  | _ =>
    cases read
    rfl

theorem canonicalItems_of_valueItems? {items : List Draft} {values : List Json}
    (read : valueItems? items = some values) : Json.canonicalItems values = true := by
  cases items with
  | nil =>
    cases read
    rfl
  | cons item rest =>
    obtain ⟨value, first, further⟩ := Option.bind_eq_some_iff.mp read
    obtain ⟨others, later, made⟩ := Option.bind_eq_some_iff.mp further
    cases made
    apply Bool.and_eq_true_iff.mpr
    exact ⟨isCanonical_of_value? first, canonicalItems_of_valueItems? later⟩

theorem canonicalEntries_of_valueEntries? {entries : List (Option String × Draft)}
    {done values : List (String × Json)} (ascends : Json.Ascending done)
    (before : Json.canonicalEntries done = true)
    (read : valueEntries? entries done = some values) :
    Json.Ascending values ∧ Json.canonicalEntries values = true := by
  cases entries with
  | nil =>
    cases read
    exact ⟨ascends, before⟩
  | cons entry rest =>
    obtain ⟨key, draft⟩ := entry
    cases key with
    | none => cases read
    | some key =>
      obtain ⟨value, first, later⟩ := Option.bind_eq_some_iff.mp read
      exact canonicalEntries_of_valueEntries? (ascends.insert key value)
        (Json.canonicalEntries_insert (isCanonical_of_value? first) before) later

end

end Draft

end RecipeGraph
