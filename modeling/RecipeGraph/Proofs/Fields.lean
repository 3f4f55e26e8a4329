import RecipeGraph.Proofs.Roundtrip
import Mathlib.Data.List.Nodup

/-!
# Fields one by one

The form of a kind reads its fields side by side, each under its own key and by a reader of
its own. So the fields of a node can be told apart again: what it holds under each key is
what the reader of that key makes of the entry there, whatever the other entries are.
-/

namespace RecipeGraph

/-- What a single field holds. -/
inductive FieldValue where
  | literal (x : Option Float)
  | number (x : Float)
  | numbers (xs : List Float)
  | count (n : Nat)
  | counts (ns : List Nat)
  | shape (ns : Option (List Nat))
  | activation (choice : Activation)
  | optimizer (choice : Optimizer)
  | loss (choice : Loss)

/-- All fields under their keys. -/
def NodeParams.fields : NodeParams → List (String × FieldValue)
  | .value x => [("x", .literal x)]
  | .multiply a b => [("a", .literal a), ("b", .literal b)]
  | .tensor values shape => [("values", .numbers values), ("shape", .counts shape)]
  | .inputLayer shape => [("shape", .counts shape)]
  | .denseLayer units activation inputShape =>
    [("units", .count units), ("activation", .activation activation),
      ("inputShape", .shape inputShape)]
  | .model optimizer loss learningRate =>
    [("optimizer", .optimizer optimizer), ("loss", .loss loss),
      ("learningRate", .number learningRate)]
  | .trainModel epochs batchSize => [("epochs", .count epochs), ("batchSize", .count batchSize)]

def NodeParams.field? (params : NodeParams) (key : String) : Option FieldValue :=
  params.fields.lookup key

namespace Decoder

/-- Reads what another reader reads, and puts it into a field. -/
def into (decode : Decoder α) (field : α → FieldValue) : Decoder FieldValue :=
  fun reading draft => (decode reading draft).map field

/-- The kept entry under the key is read as the content. -/
def Finds (decode : Decoder α) (entries : List (String × Json)) (key : String) (content : α) :
    Prop :=
  ∃ value, (key, value) ∈ entries ∧ decode .kept value.draft = .ok content

@[simp]
theorem finds_into {decode : Decoder α} {field : α → FieldValue} {entries : List (String × Json)}
    {key : String} {content : FieldValue} :
    (decode.into field).Finds entries key content ↔
      ∃ a, decode.Finds entries key a ∧ field a = content := by
  simp only [Finds, into, Outcome.map_eq_ok]
  constructor
  · rintro ⟨value, listed, a, read, same⟩
    exact ⟨a, ⟨value, listed, read⟩, same⟩
  · rintro ⟨a, ⟨value, listed, read⟩, same⟩
    exact ⟨value, listed, a, read, same⟩

end Decoder

open Decoder in
/-- The readers of the fields of a kind under their keys. -/
def NodeKind.decoders : NodeKind → List (String × Decoder FieldValue)
  | .value => [("x", (optional float).into .literal)]
  | .multiply => [("a", (optional float).into .literal), ("b", (optional float).into .literal)]
  | .tensor => [("values", (list float).into .numbers), ("shape", (list size).into .counts)]
  | .inputLayer => [("shape", (list size).into .counts)]
  | .denseLayer =>
    [("units", size.into .count), ("activation", Activation.decode.into .activation),
      ("inputShape", (optional (list size)).into .shape)]
  | .model =>
    [("optimizer", Optimizer.decode.into .optimizer), ("loss", Loss.decode.into .loss),
      ("learningRate", float.into .number)]
  | .trainModel => [("epochs", size.into .count), ("batchSize", size.into .count)]

namespace Form

theorem field_passes {key : String} {absent : Absent α} {decode : Decoder α} (reading : Reading)
    (name : String) (draft : Draft) (state : Option α) (apart : name ∉ [key]) :
    (field key [] absent decode).take reading name draft state = none := by
  simp [field, List.mem_singleton.not.mp apart]

/-- The entry under the key is all that a field reads. -/
@[simp] theorem readEntries_field {key : String} {absent : Absent α} {decode : Decoder α}
    {reading : Reading} {before behind : List (String × Json)} {value : Json}
    (apart : ∀ entry ∈ before ++ behind, entry.1 ∉ [key]) :
    (field key [] absent decode).readEntries reading
        (Json.draftEntries (before ++ (key, value) :: behind)) = decode reading value.draft := by
  have step : (field key [] absent decode).step reading none (some key, value.draft) =
      (decode reading value.draft).map some := by
    simp [Form.step, field]
  rw [readEntries, foldlM_of_split field_passes apart]
  change ((field key [] absent decode).step reading none (some key, value.draft) >>= _) = _
  rw [step]
  cases decode reading value.draft <;> rfl

/-- From entries under keys of their own, the known ones among them, the form gives what is
said to come of the entries. -/
structure Gives (f : Form α) (known : List String)
    (gives : List (String × Json) → α → Prop) : Prop where
  passes : ∀ reading key draft state, key ∉ known → f.take reading key draft state = none
  reads : ∀ entries : List (String × Json), (entries.map (·.1)).Nodup →
    (∀ key ∈ known, key ∈ entries.map (·.1)) → ∀ content,
      f.readEntries .kept (Json.draftEntries entries) = .ok content ↔ gives entries content

namespace Gives

theorem field {key : String} {absent : Absent α} {decode : Decoder α} :
    (Form.field key [] absent decode).Gives [key] fun entries content =>
      decode.Finds entries key content := by
  refine ⟨field_passes, fun entries once covers content => ?_⟩
  obtain ⟨⟨name, value⟩, listed, same⟩ := List.mem_map.mp (covers key List.mem_cons_self)
  obtain rfl : key = name := same.symm
  obtain ⟨before, behind, rfl⟩ := List.append_of_mem listed
  have apart : ∀ entry ∈ before ++ behind, entry.1 ∉ [key] := by
    have alone := List.nodup_cons.mp (((List.perm_middle.map _).nodup_iff).mp once)
    intro entry member named
    exact alone.1 (List.mem_map.mpr ⟨entry, member, List.mem_singleton.mp named⟩)
  rw [readEntries_field apart]
  constructor
  · exact fun read => ⟨value, listed, read⟩
  · rintro ⟨other, listed', read⟩
    have same : other = value := by
      rcases List.mem_cons.mp (List.perm_middle.mem_iff.mp listed') with same | elsewhere
      · exact (Prod.mk.inj same).2
      · exact (apart _ elsewhere List.mem_cons_self).elim
    exact same ▸ read

theorem both {f : Form α} {g : Form β} {known known' : List String}
    {gives : List (String × Json) → α → Prop} {gives' : List (String × Json) → β → Prop}
    (first : f.Gives known gives) (second : g.Gives known' gives')
    (apart : ∀ key ∈ known, key ∉ known') :
    (f.both g).Gives (known ++ known') fun entries content =>
      gives entries content.1 ∧ gives' entries content.2 := by
  refine ⟨both_passes first.passes second.passes, fun entries once covers content => ?_⟩
  obtain ⟨covered, covered'⟩ := List.forall_mem_append.mp covers
  rw [readEntries_both_iff apart first.passes second.passes, first.reads entries once covered,
    second.reads entries once covered']

theorem map {f : Form α} {known : List String} {gives : List (String × Json) → α → Prop}
    (given : f.Gives known gives) (h : α → β) :
    (f.map h).Gives known fun entries content => ∃ a, gives entries a ∧ h a = content := by
  refine ⟨given.passes, fun entries once covers content => ?_⟩
  rw [readEntries_map, Outcome.map_eq_ok]
  exact exists_congr fun a => and_congr_left fun _ => given.reads entries once covers a

end Gives

end Form

namespace NodeParams

open Form.Gives (field)

/-- Each field of a kind is what its reader makes of the entry under its key, and there are
such fields if there is such an entry under each key. -/
theorem gives_form (kind : NodeKind) :
    ∃ gives, (form kind).Gives (kind.decoders.map (·.1)) gives ∧
      (∀ entries params, gives entries params ↔ params.kind = kind ∧
        ∀ column ∈ kind.decoders, ∃ content,
          column.2.Finds entries column.1 content ∧ params.field? column.1 = some content) ∧
      ∀ entries, (∃ params, gives entries params) ↔
        ∀ column ∈ kind.decoders, ∃ content, column.2.Finds entries column.1 content := by
  cases kind
  case value | inputLayer =>
    refine ⟨_, field.map _, fun entries params => ?_, fun entries => ?_⟩
    · cases params <;> simp [NodeKind.decoders, field?, fields, NodeParams.kind, List.lookup_cons]
    · simp [NodeKind.decoders]
  case multiply | tensor | trainModel =>
    refine ⟨_, (field.both field (by decide)).map _, fun entries params => ?_, fun entries => ?_⟩
    · cases params <;> simp [NodeKind.decoders, field?, fields, NodeParams.kind, List.lookup_cons]
    · simp [NodeKind.decoders]
  case denseLayer | model =>
    refine ⟨_, (field.both (field.both field (by decide)) (by decide)).map _,
      fun entries params => ?_, fun entries => ?_⟩
    · cases params <;> simp [NodeKind.decoders, field?, fields, NodeParams.kind, List.lookup_cons]
    · simp [NodeKind.decoders]

end NodeParams

namespace Decoder

/-- The content is what is read of the value by itself or, where the value is an object with
nothing but an empty object under its only key, what is read of that key. -/
def ReadsAlone (decode : Decoder α) (value : Json) (content : α) : Prop :=
  decode.ofJson value = .ok content ∨
    ∃ name, value = .obj [(name, .obj [])] ∧ decode.ofJson (.str name) = .ok content

/-- What is read of a kept value is what is read of it alone. -/
def KeptAlone (decode : Decoder α) : Prop :=
  ∀ value content, decode .kept value.draft = .ok content ↔ decode.ReadsAlone value content

/-- It makes no difference to the reader whether the draft has been kept. -/
def Steady (decode : Decoder α) : Prop :=
  ∀ draft, decode .kept draft = decode .live draft

theorem Steady.optional {decode : Decoder α} (steady : decode.Steady) :
    (optional decode).Steady := by
  intro draft
  cases draft with
  | null => rfl
  | _ => exact congrArg (Except.map some) (steady _)

theorem Steady.list {decode : Decoder α} (steady : decode.Steady) : (list decode).Steady := by
  have each : ∀ drafts, items decode .kept drafts = items decode .live drafts := by
    intro drafts
    induction drafts with
    | nil => rfl
    | cons first rest ih => rw [items, items, steady first, ih]
  intro draft
  cases draft with
  | arr drafts => exact each drafts
  | _ => rfl

/-- A reader that takes no text takes no name of a case either. -/
theorem Steady.keptAlone {decode : Decoder α} (steady : decode.Steady)
    (textless : ∀ name content, decode.ofJson (.str name) ≠ .ok content) : decode.KeptAlone := by
  intro value content
  rw [steady]
  refine ⟨.inl, fun reads => reads.resolve_right ?_⟩
  rintro ⟨name, _, read⟩
  exact textless name content read

section Choice

variable {cases : List (String × α)} {name : String} {value : Json} {content : α}

@[simp] theorem oneOf_plainCases_obj {reading : Reading} :
    oneOf (plainCases cases) reading (Json.obj [(name, value)]).draft = .ok content ↔
      cases.lookup name = some content ∧ unit reading value.draft = .ok () := by
  have chosen : (named (plainCases cases) name >>= fun found =>
      payload reading found value.draft) = .ok content ↔
      cases.lookup name = some content ∧ unit reading value.draft = .ok () := by
    simp only [Outcome.bind_eq_ok, named_plainCases]
    constructor
    · rintro ⟨_, ⟨found, known, rfl⟩, read⟩
      obtain ⟨_, nothing, rfl⟩ := Outcome.map_eq_ok.mp read
      exact ⟨known, nothing⟩
    · rintro ⟨known, nothing⟩
      exact ⟨_, ⟨content, known, rfl⟩, Outcome.map_eq_ok.mpr ⟨(), nothing, rfl⟩⟩
  cases reading with
  | kept => exact chosen
  | live => simpa [oneOf, Json.draft, Json.draftEntries] using chosen

/-- Where there should be nothing, an empty object passes too once it has been kept. -/
@[simp] theorem unit_kept : unit .kept value.draft = .ok () ↔
    unit .live value.draft = .ok () ∨ value = .obj [] := by
  rcases value with _ | _ | _ | _ | _ | (_ | _) <;>
    simp [unit, Json.draft, Json.draftEntries, Draft.reject]

end Choice

/-- A choice between names is also taken from a kept object that has the name as its only
key and an empty object behind it. -/
theorem keptAlone_plainCases (cases : List (String × α)) :
    (oneOf (plainCases cases)).KeptAlone := by
  intro value content
  cases value with
  | obj entries =>
    rcases entries with _ | ⟨⟨name, inner⟩, _ | ⟨second, rest⟩⟩
    · simp [ReadsAlone, oneOf, ofJson, Json.draft, Json.draftEntries]
    · simp only [ReadsAlone, ofJson, oneOf_plainCases_obj, unit_kept, and_or_left]
      simp [Json.draft, and_comm]
    · -- An object with more keys than one is refused in any case.
      simp [ReadsAlone, oneOf, ofJson, Json.draft, Json.draftEntries, Outcome.bind_eq_ok]
  | str name => simp [ReadsAlone, ofJson, Json.draft]
  | _ => simp [ReadsAlone, oneOf, ofJson, Json.draft]

theorem KeptAlone.into {decode : Decoder α} (keptAlone : decode.KeptAlone)
    (field : α → FieldValue) : (decode.into field).KeptAlone := by
  intro value content
  constructor
  · intro read
    obtain ⟨a, inner, rfl⟩ := Outcome.map_eq_ok.mp read
    rcases (keptAlone value a).mp inner with alone | ⟨name, same, named⟩
    · exact .inl (Outcome.map_eq_ok.mpr ⟨a, alone, rfl⟩)
    · exact .inr ⟨name, same, Outcome.map_eq_ok.mpr ⟨a, named, rfl⟩⟩
  · rintro (alone | ⟨name, same, named⟩)
    · obtain ⟨a, inner, rfl⟩ := Outcome.map_eq_ok.mp alone
      exact Outcome.map_eq_ok.mpr ⟨a, (keptAlone value a).mpr (.inl inner), rfl⟩
    · obtain ⟨a, inner, rfl⟩ := Outcome.map_eq_ok.mp named
      exact Outcome.map_eq_ok.mpr ⟨a, (keptAlone value a).mpr (.inr ⟨name, same, inner⟩), rfl⟩

end Decoder

namespace NodeKind

open Decoder (Steady KeptAlone keptAlone_plainCases)

theorem keptAlone (kind : NodeKind) : ∀ column ∈ kind.decoders, column.2.KeptAlone := by
  have literal : (Decoder.optional Decoder.float).KeptAlone :=
    Steady.keptAlone (.optional fun _ => rfl) fun _ _ read => by cases read
  have number : Decoder.float.KeptAlone :=
    Steady.keptAlone (fun _ => rfl) fun _ _ read => by cases read
  have numbers : (Decoder.list Decoder.float).KeptAlone :=
    Steady.keptAlone (.list fun _ => rfl) fun _ _ read => by cases read
  have count : Decoder.size.KeptAlone :=
    Steady.keptAlone (fun _ => rfl) fun _ _ read => by cases read
  have counts : (Decoder.list Decoder.size).KeptAlone :=
    Steady.keptAlone (.list fun _ => rfl) fun _ _ read => by cases read
  have shape : (Decoder.optional (Decoder.list Decoder.size)).KeptAlone :=
    Steady.keptAlone (.optional (.list fun _ => rfl)) fun _ _ read => by cases read
  have activation : Activation.decode.KeptAlone := keptAlone_plainCases _
  have optimizer : Optimizer.decode.KeptAlone := keptAlone_plainCases _
  have loss : Loss.decode.KeptAlone := keptAlone_plainCases _
  cases kind <;> simp [decoders, literal.into, number.into, numbers.into, count.into,
    counts.into, shape.into, activation.into, optimizer.into, loss.into]

/-- A value is fit for the field under a key, and this is what the field then holds. -/
def Reads (kind : NodeKind) (key : String) (value : Json) (content : FieldValue) : Prop :=
  ∃ decode, (key, decode) ∈ kind.decoders ∧ decode.ReadsAlone value content

@[simp] theorem keys_decoders (kind : NodeKind) : (kind.decoders.map (·.1)).Nodup := by
  cases kind <;> decide +kernel

/-- There is one reader for each key. -/
theorem reads_iff {kind : NodeKind} {column : String × Decoder FieldValue}
    (listed : column ∈ kind.decoders) {value : Json} {content : FieldValue} :
    kind.Reads column.1 value content ↔ column.2.ReadsAlone value content := by
  refine ⟨fun ⟨decode, known, reads⟩ => ?_, fun reads => ⟨column.2, listed, reads⟩⟩
  rwa [← List.inj_on_of_nodup_map kind.keys_decoders known listed rfl]

/-- Nothing is fit for a field only if it can be empty. -/
theorem eq_of_reads_null {kind : NodeKind} {key : String} {content : FieldValue}
    (reads : kind.Reads key .null content) : content = .literal none ∨ content = .shape none := by
  have empty : ∀ column ∈ kind.decoders, ∀ content, column.2.ofJson .null = .ok content →
      content = .literal none ∨ content = .shape none := by
    cases kind <;> simp [decoders, Decoder.into, Decoder.ofJson, Json.draft, Decoder.optional,
      Decoder.list, Decoder.float, Decoder.size, Activation.decode, Optimizer.decode, Loss.decode,
      Decoder.oneOf, Reading.refuse, Draft.reject, Except.map]
  obtain ⟨decode, listed, read | ⟨_, same, _⟩⟩ := reads
  · exact empty _ listed content read
  · cases same

end NodeKind

end RecipeGraph
