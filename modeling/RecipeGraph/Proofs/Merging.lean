import RecipeGraph.Params.Merge
import RecipeGraph.Proofs.Outcome

/-!
# Merging fields into a node

The written form of a node puts its fields before its kind, so the fields are
kept until the kind is known and then read by the form of that kind alone.
-/

namespace RecipeGraph

namespace Json

mutual

@[simp] theorem value?_draft (value : Json) : value.draft.value?.isSome = true := by
  cases value with
  | null => rfl
  | bool b => rfl
  | num n => rfl
  | str s => rfl
  | arr items =>
    rw [Json.draft, Draft.value?, Option.isSome_map]
    exact valueItems?_draftItems items
  | obj entries =>
    rw [Json.draft, Draft.value?, Option.isSome_map]
    exact valueEntries?_draftEntries entries []

@[simp] theorem valueItems?_draftItems (items : List Json) :
    (Draft.valueItems? (draftItems items)).isSome = true := by
  cases items with
  | nil => rfl
  | cons item rest =>
    obtain ⟨value, read⟩ := Option.isSome_iff_exists.mp (value?_draft item)
    obtain ⟨values, others⟩ := Option.isSome_iff_exists.mp (valueItems?_draftItems rest)
    simp [draftItems, Draft.valueItems?, read, others]

@[simp] theorem valueEntries?_draftEntries (entries done : List (String × Json)) :
    (Draft.valueEntries? (draftEntries entries) done).isSome = true := by
  cases entries with
  | nil => rfl
  | cons entry rest =>
    obtain ⟨value, read⟩ := Option.isSome_iff_exists.mp (value?_draft entry.2)
    simpa [draftEntries, Draft.valueEntries?, read] using
      valueEntries?_draftEntries rest (Json.insert entry.1 value done)

end

@[simp] theorem keep_draft (value : Json) : value.draft.keep = .ok () := by
  rw [Draft.keep, if_pos (value?_draft value)]

end Json

namespace NodeParams

/-- The readers of the kinds, by their names. -/
def readers : List (String × Decoder NodeParams) :=
  NodeKind.cases.map fun (name, kind) => (name, (form kind).readObject)

@[simp] theorem named_kind (kind : NodeKind) :
    Decoder.named (Decoder.plainCases readers) kind.name =
      .ok (.plain (form kind).readObject) := by
  cases kind <;> rfl

@[simp] theorem besideStep_config (config : List (String × Json)) :
    Decoder.besideStep "type" "config" readers .live .nothing
        (some "config", (Json.obj config).draft) =
      .ok (.content (Json.obj config).draft) := by
  unfold Decoder.besideStep
  simp [Except.map]

@[simp] theorem besideStep_type (kind : NodeKind) (held : Draft) :
    Decoder.besideStep "type" "config" readers .live (.content held)
        (some "type", .str kind.name) =
      ((form kind).readObject .kept held).map .whole := by
  have chosen : Decoder.oneOf (Decoder.plainCases readers) .live (.str kind.name) =
      .ok (form kind).readObject := by
    rw [Decoder.oneOf, named_kind]
    rfl
  unfold Decoder.besideStep
  simp only [if_true, chosen]
  rfl

/-- The fields of a written node are read by the form of its kind. -/
@[simp] theorem ofJson_wire (kind : NodeKind) (config : List (String × Json)) :
    Decoder.ofJson decode (wire kind config) =
      (form kind).readEntries .kept (Json.draftEntries config) := by
  have passed : List.foldlM (Decoder.besideStep "type" "config" readers .live) .nothing
      [(some "config", (Json.obj config).draft), (some "type", .str kind.name)] =
      ((form kind).readEntries .kept (Json.draftEntries config)).map .whole := by
    rw [List.foldlM_cons, besideStep_config]
    change List.foldlM (Decoder.besideStep "type" "config" readers .live)
      (.content (Json.obj config).draft) [(some "type", .str kind.name)] = _
    rw [List.foldlM_cons, besideStep_type]
    change ((form kind).readEntries .kept (Json.draftEntries config)).map
      Decoder.Progress.whole >>= _ = _
    cases (form kind).readEntries .kept (Json.draftEntries config) <;> rfl
  change (List.foldlM (Decoder.besideStep "type" "config" readers .live) .nothing
      [(some "config", (Json.obj config).draft), (some "type", .str kind.name)] >>= _) = _
  rw [passed]
  cases (form kind).readEntries .kept (Json.draftEntries config) <;> rfl

/-- A form gives nothing but fields of its kind. -/
theorem kind_of_finish {kind : NodeKind} {state : (form kind).State} {params : NodeParams}
    (finished : (form kind).finish state = .ok params) : params.kind = kind := by
  cases kind <;> rcases Outcome.map_eq_ok.mp finished with ⟨fields, _, rfl⟩ <;> rfl

/-- What a merge gives is read from the fields with the new values laid over
them. -/
theorem merge_eq_ok {params merged : NodeParams} {fields : List (String × Json)} :
    params.merge fields = .ok merged ↔
      ∃ config, overlay params.kind params.config fields = .ok config ∧
        (form params.kind).readEntries .kept (Json.draftEntries config) = .ok merged := by
  refine Outcome.bind_eq_ok.trans (exists_congr fun config => and_congr_right fun _ => ?_)
  rw [ofJson_wire]
  cases (form params.kind).readEntries .kept (Json.draftEntries config) with
  | ok found =>
    constructor <;> intro same <;> cases same <;> rfl
  | error fault =>
    constructor <;> intro broken <;> cases broken

theorem kind_of_merge {params merged : NodeParams} {fields : List (String × Json)}
    (fits : params.merge fields = .ok merged) : merged.kind = params.kind := by
  obtain ⟨config, _, read⟩ := merge_eq_ok.mp fits
  obtain ⟨state, _, finished⟩ := Outcome.bind_eq_ok.mp read
  exact kind_of_finish finished

end NodeParams

end RecipeGraph
