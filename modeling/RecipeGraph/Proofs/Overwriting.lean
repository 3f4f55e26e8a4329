import RecipeGraph.Proofs.Fields
import RecipeGraph.Proofs.FiniteFields
import RecipeGraph.Proofs.Editing

/-!
# Overwriting fields

New values are laid over the written form of all fields, which is then read again as a
whole. As each field is read by itself, and as what was written is read back, this comes to
overwriting the named fields one by one.
-/

namespace RecipeGraph

namespace Json

variable {entries others : List (String × Json)}

/-- The object with the entries of another laid over it. -/
def override (entries others : List (String × Json)) : List (String × Json) :=
  others.foldl (fun done entry => insert entry.1 entry.2 done) entries

theorem Ascending.override (ascends : Ascending entries) (others : List (String × Json)) :
    Ascending (override entries others) := by
  induction others generalizing entries with
  | nil => exact ascends
  | cons entry rest ih => exact ih (ascends.insert entry.1 entry.2)

theorem keys_override (ascends : Ascending entries)
    (known : ∀ key ∈ others.map (·.1), key ∈ entries.map (·.1)) :
    (override entries others).map (·.1) = entries.map (·.1) := by
  induction others generalizing entries with
  | nil => rfl
  | cons entry rest ih =>
    obtain ⟨listed, later⟩ := List.forall_mem_cons.mp known
    have keys := @keys_insert entry.1 entry.2 entries ascends listed
    exact (ih (ascends.insert entry.1 entry.2) (keys.symm ▸ later)).trans keys

@[simp] theorem mem_keys_override_iff {key : String} :
    key ∈ (override entries others).map (·.1) ↔
      key ∈ entries.map (·.1) ∨ key ∈ others.map (·.1) := by
  induction others generalizing entries with
  | nil => simp [override]
  | cons entry rest ih =>
    refine (@ih (insert entry.1 entry.2 entries)).trans ?_
    rw [mem_keys_insert, List.map_cons, List.mem_cons]
    tauto

/-- Entries are replaced under the keys of the other object and stay under all others. -/
theorem mem_override_iff (ascends : Ascending entries) (once : (others.map (·.1)).Nodup)
    {entry : String × Json} :
    entry ∈ override entries others ↔
      entry ∈ others ∨ entry ∈ entries ∧ entry.1 ∉ others.map (·.1) := by
  induction others generalizing entries with
  | nil => simp [override]
  | cons first rest ih =>
    obtain ⟨apart, later⟩ := List.nodup_cons.mp once
    have new : entry = first → entry.1 ∉ rest.map (·.1) := by
      rintro rfl
      exact apart
    change entry ∈ override (insert first.1 first.2 entries) rest ↔ _
    rw [ih (ascends.insert first.1 first.2) later, mem_insert_iff ascends, List.mem_cons,
      List.map_cons, List.mem_cons, not_or]
    tauto

/-- Entries under the keys that are not named stay, also where keys are named twice. -/
theorem mem_override_of_unnamed (ascends : Ascending entries) {entry : String × Json}
    (unnamed : entry.1 ∉ others.map (·.1)) :
    entry ∈ override entries others ↔ entry ∈ entries := by
  induction others generalizing entries with
  | nil => rfl
  | cons first rest ih =>
    rw [List.map_cons, List.mem_cons, not_or] at unnamed
    have other : entry ≠ first := fun same => unnamed.1 (congrArg Prod.fst same)
    change entry ∈ override (insert first.1 first.2 entries) rest ↔ _
    rw [ih (ascends.insert first.1 first.2) unnamed.2, mem_insert_iff ascends]
    tauto

/-- Objects without a common key can be laid over each other in any order. -/
theorem override_comm (ascends : Ascending entries) (ascends' : Ascending others)
    (apart : ∀ key ∈ entries.map (·.1), key ∉ others.map (·.1)) :
    override entries others = override others entries := by
  refine (ascends.override others).ext (ascends'.override entries) fun entry => ?_
  rw [mem_override_iff ascends ascends'.nodup, mem_override_iff ascends' ascends.nodup]
  have left : entry ∈ entries → entry.1 ∉ others.map (·.1) :=
    fun listed => apart entry.1 (List.mem_map_of_mem listed)
  have right : entry ∈ others → entry.1 ∉ entries.map (·.1) :=
    fun listed listed' => apart entry.1 listed' (List.mem_map_of_mem listed)
  tauto

end Json

namespace NodeParams

variable {kind : NodeKind} {config fields laid : List (String × Json)}

/-- Values are laid over fields that are there, and over no others. -/
theorem overlay_eq_ok (ascends : Json.Ascending config) :
    overlay kind config fields = .ok laid ↔
      (∀ key ∈ fields.map (·.1), key ∈ config.map (·.1)) ∧ Json.override config fields = laid := by
  induction fields generalizing config with
  | nil =>
    change Except.ok config = Except.ok laid ↔ _
    simp [Json.override]
  | cons entry rest ih =>
    rw [List.map_cons, List.forall_mem_cons, overlay]
    by_cases listed : entry.1 ∈ config.map (·.1)
    · have found : (config.lookup entry.1).isSome = true := by simpa using listed
      rw [if_pos found, ih (ascends.insert entry.1 entry.2), Json.keys_insert ascends listed,
        and_iff_right listed]
      rfl
    · have missing : ¬ (config.lookup entry.1).isSome = true := by simpa using listed
      rw [if_neg missing]
      constructor
      · intro done
        cases done
      · intro done
        exact (listed done.1.1).elim

section Written

variable {params merged : NodeParams}

@[simp] theorem ascending_config (params : NodeParams) : Json.Ascending params.config := by
  cases params <;> simp only [Json.Ascending, config, List.map_cons, List.map_nil] <;>
    decide +kernel

@[simp] theorem mem_keys_config {key : String} :
    key ∈ params.config.map (·.1) ↔ key ∈ params.kind.decoders.map (·.1) := by
  cases params <;> simp [config, kind, NodeKind.decoders, or_comm, or_left_comm]

@[simp] theorem keys_fields (params : NodeParams) :
    params.fields.map (·.1) = params.kind.decoders.map (·.1) := by
  cases params <;> rfl

/-- A node has the fields of its kind and no others. -/
theorem field?_eq_none {key : String} (unknown : key ∉ params.kind.decoders.map (·.1)) :
    params.field? key = none := by
  rw [← keys_fields] at unknown
  refine List.lookup_eq_none_iff.mpr fun entry listed => bne_iff_ne.mpr ?_
  rintro rfl
  exact unknown (List.mem_map_of_mem listed)

/-- Each field of a node is what is read of its written form. -/
theorem finds_config (fits : params.isWritable = true) :
    ∀ column ∈ params.kind.decoders, ∃ content,
      column.2.Finds params.config column.1 content ∧ params.field? column.1 = some content := by
  obtain ⟨known, restores⟩ := restores_config fits
  obtain ⟨gives, given, each, _⟩ := gives_form params.kind
  have once := (ascending_config params).nodup
  have read := restores.reads once .kept _ _ (.refl _) (.refl _)
  exact ((each _ _).mp ((given.reads _ once (fun key => mem_keys_config.mpr) _).mp read)).2

/-- What is read of the written form of a field is what the node holds, unless it is a literal
that gets lost. Sizes may be too large to be read at all, and so may numbers. -/
theorem field?_of_finds (kept : params.keepsLiterals = true) :
    ∀ column ∈ params.kind.decoders, ∀ content,
      column.2.Finds params.config column.1 content → params.field? column.1 = some content := by
  cases params <;> simp only [kind, NodeKind.decoders, config, field?, fields, Decoder.Finds,
    Decoder.into, Outcome.map_eq_ok, List.lookup_cons, List.lookup_nil, List.mem_cons,
    List.not_mem_nil, Prod.mk.injEq, String.reduceEq, String.reduceBEq, BEq.rfl, or_false, or_self,
    false_or, false_and, true_and, and_imp, forall_eq, forall_eq_or_imp, forall_exists_index,
    forall_apply_eq_imp_iff₂, forall_const, Option.some.injEq, FieldValue.literal.injEq,
    FieldValue.number.injEq, FieldValue.numbers.injEq, FieldValue.count.injEq,
    FieldValue.counts.injEq, FieldValue.shape.injEq, FieldValue.activation.injEq,
    FieldValue.optimizer.injEq, FieldValue.loss.injEq]
  case value x => simp [read_literal kept]
  case multiply a b =>
    have parts := Bool.and_eq_true_iff.mp kept
    simp [read_literal parts.1, read_literal parts.2]
  case tensor values shape => exact ⟨fun _ => read_numbers, fun _ => read_sizes⟩
  case inputLayer shape => exact fun _ => read_sizes
  case denseLayer units activation inputShape =>
    have name : Activation.decode .kept (Json.str activation.name).draft = .ok activation := by
      cases activation <;> rfl
    refine ⟨fun _ => read_size, fun other read => ?_, fun _ => read_shape⟩
    exact Except.ok.inj (name.symm.trans read)
  case model optimizer loss learningRate =>
    have optimizerName : Optimizer.decode .kept (Json.str optimizer.name).draft =
        .ok optimizer := by
      cases optimizer <;> rfl
    have lossName : Loss.decode .kept (Json.str loss.name).draft = .ok loss := by
      cases loss <;> rfl
    refine ⟨fun other read => ?_, fun other read => ?_, fun other => eq_of_read_float⟩
    · exact Except.ok.inj (optimizerName.symm.trans read)
    · exact Except.ok.inj (lossName.symm.trans read)
  case trainModel epochs batchSize => exact ⟨fun _ => read_size, fun _ => read_size⟩

/-- A node is its kind and its fields. -/
theorem eq_of_field? {left right : NodeParams} (kinds : left.kind = right.kind)
    (same : ∀ key, left.field? key = right.field? key) : left = right := by
  have columns := List.map_congr_left fun key (_ : key ∈ left.kind.decoders.map (·.1)) => same key
  cases left <;> cases right <;> cases kinds <;>
    simpa [kind, NodeKind.decoders, field?, fields, List.lookup_cons] using columns

/-- The handles of a product are its fields. -/
@[simp] theorem field?_multiply {a b : Option Float} {handle : String} :
    (multiply a b).field? handle = ((multiply a b).bound? handle).map .literal := by
  simp only [field?, fields, bound?, Handle.a, Handle.b]
  by_cases first : handle = "a"
  · simp [first]
  · by_cases second : handle = "b"
    · simp [second, List.lookup_cons]
    · simp [first, second, List.lookup_cons, beq_false_of_ne first, beq_false_of_ne second]

end Written

section Merging

variable {params merged : NodeParams} {content : FieldValue}

theorem merge_iff_known : params.merge fields = .ok merged ↔
    (∀ key ∈ fields.map (·.1), key ∈ params.kind.decoders.map (·.1)) ∧
      (form params.kind).readEntries .kept
        (Json.draftEntries (Json.override params.config fields)) = .ok merged := by
  simp only [merge_eq_ok, overlay_eq_ok (ascending_config params), mem_keys_config, and_assoc,
    exists_and_left, exists_eq_left']

/-- Values laid over fields leave those alone that they do not name. -/
theorem field?_of_merge (kept : params.keepsLiterals = true)
    (fits : params.merge fields = .ok merged) {key : String} (unnamed : key ∉ fields.map (·.1)) : merged.field? key = params.field? key := by
  have ascends := ascending_config params
  have kinds := kind_of_merge fits
  by_cases field : key ∈ params.kind.decoders.map (·.1)
  · obtain ⟨column, listed, rfl⟩ := List.mem_map.mp field
    obtain ⟨gives, given, each, _⟩ := gives_form params.kind
    have covers : ∀ key ∈ params.kind.decoders.map (·.1),
        key ∈ (Json.override params.config fields).map (·.1) :=
      fun key there => Json.mem_keys_override_iff.mpr (.inl (mem_keys_config.mpr there))
    have read := (given.reads _ (ascends.override fields).nodup covers merged).mp
      (merge_iff_known.mp fits).2
    obtain ⟨content, ⟨value, there, found⟩, holds⟩ := ((each _ _).mp read).2 column listed
    have stays : column.2.Finds params.config column.1 content :=
      ⟨value, (Json.mem_override_of_unnamed ascends unnamed).mp there, found⟩
    rw [holds, field?_of_finds kept column listed content stays]
  · rw [field?_eq_none field, field?_eq_none (kinds ▸ field)]

/-- Laying nothing over fields leaves them as they are. -/
theorem eq_of_merge_nil (kept : params.keepsLiterals = true)
    (fits : params.merge [] = .ok merged) : merged = params :=
  eq_of_field? (kind_of_merge fits) fun _ => field?_of_merge kept fits List.not_mem_nil

/-- Values laid over fields leave the literals alone that they do not name. -/
theorem bound?_merge (kept : params.keepsLiterals = true) (fits : params.merge fields = .ok merged)
    {handle : String} (unnamed : handle ∉ fields.map (·.1)) :
    merged.bound? handle = params.bound? handle := by
  have kinds := kind_of_merge fits
  have same := field?_of_merge kept fits unnamed
  cases params with
  | multiply a b =>
    cases merged with
    | multiply a' b' =>
      rw [field?_multiply, field?_multiply] at same
      exact Option.map_injective (fun _ _ => FieldValue.literal.inj) same
    | _ => cases kinds
  | _ => cases merged <;> first | rfl | cases kinds

/-- What a field holds when values are laid over the fields: what is read of the value under
its key, or what it has held. -/
def Overwrites (params : NodeParams) (fields : List (String × Json)) (key : String)
    (content : FieldValue) : Prop :=
  (∃ value, (key, value) ∈ fields ∧ params.kind.Reads key value content) ∨
    key ∉ fields.map (·.1) ∧ params.field? key = some content

theorem finds_override (fits : params.isWritable = true) (once : (fields.map (·.1)).Nodup)
    {column : String × Decoder FieldValue} (listed : column ∈ params.kind.decoders) :
    column.2.Finds (Json.override params.config fields) column.1 content ↔
      params.Overwrites fields column.1 content := by
  have ascends := ascending_config params
  obtain ⟨held, ⟨value, there, read⟩, holds⟩ := finds_config fits column listed
  simp only [Decoder.Finds, Json.mem_override_iff ascends once, or_and_right, exists_or]
  refine or_congr (exists_congr fun given => and_congr_right fun _ => ?_) ⟨?_, ?_⟩
  · exact (params.kind.keptAlone column listed given content).trans
      (NodeKind.reads_iff listed).symm
  · rintro ⟨other, ⟨there', unnamed⟩, read'⟩
    obtain rfl : other = value :=
      (Prod.mk.inj (List.inj_on_of_nodup_map ascends.nodup there' there rfl)).2
    rw [read] at read'
    cases read'
    exact ⟨unnamed, holds⟩
  · rintro ⟨unnamed, holds'⟩
    rw [holds] at holds'
    cases holds'
    exact ⟨value, ⟨there, unnamed⟩, read⟩

/-- Merging reads each field by itself, be it overwritten or not. -/
theorem merge_iff_overwrites (fits : params.isWritable = true)
    (once : (fields.map (·.1)).Nodup)
    (known : ∀ key ∈ fields.map (·.1), key ∈ params.kind.decoders.map (·.1)) :
    (∀ merged, params.merge fields = .ok merged ↔ merged.kind = params.kind ∧
      ∀ key ∈ params.kind.decoders.map (·.1), ∃ content,
        params.Overwrites fields key content ∧ merged.field? key = some content) ∧
    ((∃ merged, params.merge fields = .ok merged) ↔
      ∀ key ∈ params.kind.decoders.map (·.1), ∃ content, params.Overwrites fields key content) := by
  have ascends := ascending_config params
  have keys := Json.keys_override ascends fun key named => mem_keys_config.mpr (known key named)
  have covers : ∀ key ∈ params.kind.decoders.map (·.1),
      key ∈ (Json.override params.config fields).map (·.1) :=
    fun key listed => keys ▸ mem_keys_config.mpr listed
  obtain ⟨gives, given, each, exist⟩ := gives_form params.kind
  have reads : ∀ merged, params.merge fields = .ok merged ↔
      gives (Json.override params.config fields) merged := by
    intro merged
    rw [merge_iff_known, and_iff_right known]
    exact given.reads _ (ascends.override fields).nodup covers merged
  constructor
  · intro merged
    rw [reads, each, List.forall_mem_map]
    refine and_congr_right fun _ => forall₂_congr fun column listed =>
      exists_congr fun content => ?_
    rw [finds_override fits once listed]
  · rw [exists_congr reads, exist, List.forall_mem_map]
    exact forall₂_congr fun column listed => exists_congr fun content =>
      finds_override fits once listed

theorem known_of_reads
    (each : ∀ entry ∈ fields, ∃ content, params.kind.Reads entry.1 entry.2 content) :
    ∀ key ∈ fields.map (·.1), key ∈ params.kind.decoders.map (·.1) := by
  intro key named
  obtain ⟨entry, listed, rfl⟩ := List.mem_map.mp named
  obtain ⟨_, _, known, _⟩ := each entry listed
  exact List.mem_map.mpr ⟨_, known, rfl⟩

theorem overwrites_of_mem (once : (fields.map (·.1)).Nodup) {entry : String × Json}
    (listed : entry ∈ fields) :
    params.Overwrites fields entry.1 content ↔ params.kind.Reads entry.1 entry.2 content := by
  refine ⟨?_, fun reads => .inl ⟨entry.2, listed, reads⟩⟩
  rintro (⟨value, listed', reads⟩ | ⟨unnamed, _⟩)
  · rwa [← List.inj_on_of_nodup_map once listed' listed rfl]
  · exact (unnamed (List.mem_map_of_mem listed)).elim

theorem overwrites_of_unnamed {key : String} (unnamed : key ∉ fields.map (·.1)) :
    params.Overwrites fields key content ↔ params.field? key = some content := by
  refine ⟨?_, fun held => .inr ⟨unnamed, held⟩⟩
  rintro (⟨value, listed, _⟩ | ⟨_, held⟩)
  · exact (unnamed (List.mem_map_of_mem listed)).elim
  · exact held

/-- Named fields hold what is read of the values alone, and all others stay as they are. -/
theorem merge_iff_fields (fits : params.isWritable = true) (once : (fields.map (·.1)).Nodup) :
    params.merge fields = .ok merged ↔ merged.kind = params.kind ∧
      (∀ entry ∈ fields, ∃ content,
        params.kind.Reads entry.1 entry.2 content ∧ merged.field? entry.1 = some content) ∧
      ∀ key ∉ fields.map (·.1), merged.field? key = params.field? key := by
  constructor
  · intro done
    have known := (merge_iff_known.mp done).1
    obtain ⟨kind, each⟩ := ((merge_iff_overwrites fits once known).1 merged).mp done
    refine ⟨kind, fun entry listed => ?_, fun key unnamed => ?_⟩
    · obtain ⟨content, overwrites, holds⟩ := each entry.1 (known _ (List.mem_map_of_mem listed))
      exact ⟨content, (overwrites_of_mem once listed).mp overwrites, holds⟩
    · exact field?_of_merge (keepsLiterals_of_isFinite (isFinite_of_isWritable fits)) done unnamed
  · rintro ⟨kind, named, unnamed⟩
    have known := known_of_reads fun entry listed =>
      (named entry listed).imp fun _ => And.left
    refine ((merge_iff_overwrites fits once known).1 merged).mpr ⟨kind, fun key field => ?_⟩
    by_cases given : key ∈ fields.map (·.1)
    · obtain ⟨entry, listed, rfl⟩ := List.mem_map.mp given
      obtain ⟨content, reads, holds⟩ := named entry listed
      exact ⟨content, (overwrites_of_mem once listed).mpr reads, holds⟩
    · obtain ⟨column, listed, rfl⟩ := List.mem_map.mp field
      obtain ⟨content, _, holds⟩ := finds_config fits column listed
      exact ⟨content, (overwrites_of_unnamed given).mpr holds, (unnamed _ given).trans holds⟩

theorem exists_merge_iff (fits : params.isWritable = true) (once : (fields.map (·.1)).Nodup) :
    (∃ merged, params.merge fields = .ok merged) ↔
      ∀ entry ∈ fields, ∃ content, params.kind.Reads entry.1 entry.2 content := by
  constructor
  · rintro ⟨merged, done⟩ entry listed
    obtain ⟨content, reads, _⟩ := ((merge_iff_fields fits once).mp done).2.1 entry listed
    exact ⟨content, reads⟩
  · intro each
    refine (merge_iff_overwrites fits once (known_of_reads each)).2.mpr fun key field => ?_
    by_cases given : key ∈ fields.map (·.1)
    · obtain ⟨entry, listed, rfl⟩ := List.mem_map.mp given
      obtain ⟨content, reads⟩ := each entry listed
      exact ⟨content, (overwrites_of_mem once listed).mpr reads⟩
    · obtain ⟨column, listed, rfl⟩ := List.mem_map.mp field
      obtain ⟨content, _, holds⟩ := finds_config fits column listed
      exact ⟨content, (overwrites_of_unnamed given).mpr holds⟩

@[simp] theorem merge_nil (fits : params.isWritable = true) : params.merge [] = .ok params := by
  have once : (([] : List (String × Json)).map (·.1)).Nodup := List.nodup_nil
  obtain ⟨merged, done⟩ := (exists_merge_iff fits once).mpr (List.forall_mem_nil _)
  rwa [eq_of_merge_nil (keepsLiterals_of_isFinite (isFinite_of_isWritable fits)) done] at done

/-- A number that is written as none is gone once no fields have been laid over it. -/
theorem literal_of_merge_nil (value : params.kind = .value) (lossy : params.keepsLiterals = false)
    (fits : params.merge [] = .ok merged) : merged.literal = none := by
  cases params with
  | value x =>
    cases x with
    | none => cases lossy
    | some x =>
      have infinite : x.isFinite = false := lossy
      have written : (NodeParams.value (some x)).config = (NodeParams.value none).config := by
        simp [config, Json.optional, Json.float, infinite]
      have same : (NodeParams.value (some x)).merge [] = (NodeParams.value none).merge [] := by
        unfold merge
        rw [written]
        rfl
      cases fits.symm.trans (same.trans (merge_nil rfl))
      rfl
  | _ => cases value

section Twice

variable {f g : List (String × Json)} {first second : NodeParams}

/-- Merging one object after the other is merging the first with the second laid over it. -/
theorem exists_merge_override (fits : params.isWritable = true) (ascends : Json.Ascending f)
    (once : (g.map (·.1)).Nodup) (finite : Json.finiteEntries f = true)
    (merged_f : params.merge f = .ok first) (merged_g : params.merge g = .ok second) :
    ∃ merged, first.merge g = .ok merged ∧ params.merge (Json.override f g) = .ok merged := by
  obtain ⟨kind, named, unnamed⟩ := (merge_iff_fields fits ascends.nodup).mp merged_f
  have fits' := isWritable_of_merge finite merged_f
  have reads := (exists_merge_iff fits once).mp ⟨second, merged_g⟩
  obtain ⟨merged, done⟩ := (exists_merge_iff fits' once).mpr (kind.symm ▸ reads)
  obtain ⟨kind', named', unnamed'⟩ := (merge_iff_fields fits' once).mp done
  rw [kind] at kind' named'
  refine ⟨merged, done, (merge_iff_fields fits (ascends.override g).nodup).mpr
    ⟨kind', fun entry listed => ?_, fun key away => ?_⟩⟩
  · rcases (Json.mem_override_iff ascends once).mp listed with last | ⟨before, apart⟩
    · exact named' entry last
    · obtain ⟨content, reads, holds⟩ := named entry before
      exact ⟨content, reads, (unnamed' _ apart).trans holds⟩
  · rw [Json.mem_keys_override_iff, not_or] at away
    rw [unnamed' key away.2, unnamed key away.1]

end Twice

end Merging

/-- A merge succeeds exactly if each key is one of a field of the kind and the value under it
is fit for that field, and then it gives the fields of the same kind of which the named ones
hold what is read of the values and all others are as before. A merge that fails leaves the
store as it is. Merging twice is merging once with the second object laid over the first,
and in any order if they have no key in common. Nothing can be given only to fields that can
be empty. -/
theorem merge_field_by_field {params : NodeParams} (fits : params.isWritable = true) :
    (∀ fields, Json.Ascending fields →
      ((∃ merged, params.merge fields = .ok merged) ↔
        ∀ entry ∈ fields, ∃ content, params.kind.Reads entry.1 entry.2 content) ∧
      (∀ merged, params.merge fields = .ok merged ↔ merged.kind = params.kind ∧
        (∀ entry ∈ fields, ∃ content,
          params.kind.Reads entry.1 entry.2 content ∧ merged.field? entry.1 = some content) ∧
        ∀ key ∉ fields.map (·.1), merged.field? key = params.field? key) ∧
      ∀ fault, params.merge fields = .error fault →
        ∀ (store : Store) (node : Node), store.node? node.id = some node → node.params = params →
          store.updateNode node.id { config := some fields } =
            (.error (.invalidNodeData node.id fault), store)) ∧
    (∀ f g first second, Json.Ascending f → Json.Ascending g →
      Json.finiteEntries f = true → Json.finiteEntries g = true →
      params.merge f = .ok first → params.merge g = .ok second →
        ∃ merged, first.merge g = .ok merged ∧ params.merge (Json.override f g) = .ok merged ∧
          ((∀ key ∈ f.map (·.1), key ∉ g.map (·.1)) → second.merge f = .ok merged)) ∧
    ∀ key content, params.kind.Reads key .null content →
      content = .literal none ∨ content = .shape none := by
  refine ⟨fun fields ascends => ⟨exists_merge_iff fits ascends.nodup,
    fun merged => merge_iff_fields fits ascends.nodup, ?_⟩, ?_,
    fun _ _ => NodeKind.eq_of_reads_null⟩
  · rintro fault failed store node found rfl
    have unfit : node.patched { config := some fields } = .error fault := by
      simp only [Node.patched, failed]
      rfl
    simp only [Store.updateNode, found, unfit]
  · intro f g first second ascends ascends' finite finite' merged_f merged_g
    obtain ⟨merged, done, laid⟩ :=
      exists_merge_override fits ascends ascends'.nodup finite merged_f merged_g
    refine ⟨merged, done, laid, fun apart => ?_⟩
    obtain ⟨merged', done', laid'⟩ :=
      exists_merge_override fits ascends' ascends.nodup finite' merged_g merged_f
    rw [← Json.override_comm ascends ascends' apart, laid] at laid'
    cases laid'
    exact done'

def tanhLayer : NodeParams := .denseLayer 10 .tanh (some [4])

/-- More units and another activation, and then fewer units and no shape. -/
theorem merge_tanhLayer : ∃ first merged,
    tanhLayer.merge [("activation", .str "ReLU"), ("units", Json.size 32)] = .ok first ∧
      first.merge [("inputShape", .null), ("units", Json.size 7)] = .ok merged ∧
      (merged == .denseLayer 7 .relu none) = true := by
  have whole := merge_field_by_field (show tanhLayer.isWritable = true by decide +kernel)
  obtain ⟨first, merged_f⟩ := (whole.1 [("activation", .str "ReLU"), ("units", Json.size 32)]
    (by decide +kernel)).1.mpr (by
      simp only [List.forall_mem_cons]
      exact ⟨⟨.activation .relu, _, .tail _ (.head _), .inl rfl⟩,
        ⟨.count 32, _, .head _, .inl rfl⟩, List.forall_mem_nil _⟩)
  obtain ⟨second, merged_g⟩ := (whole.1 [("inputShape", .null), ("units", Json.size 7)]
    (by decide +kernel)).1.mpr (by
      simp only [List.forall_mem_cons]
      exact ⟨⟨.shape none, _, .tail _ (.tail _ (.head _)), .inl rfl⟩,
        ⟨.count 7, _, .head _, .inl rfl⟩, List.forall_mem_nil _⟩)
  obtain ⟨merged, done, laid, _⟩ := whole.2.1 _ _ first second (by decide +kernel)
    (by decide +kernel) (by decide +kernel) (by decide +kernel) merged_f merged_g
  refine ⟨first, merged, merged_f, done, ?_⟩
  have result : (tanhLayer.merge (Json.override
      [("activation", .str "ReLU"), ("units", Json.size 32)]
      [("inputShape", .null), ("units", Json.size 7)])).toOption.map
        (· == .denseLayer 7 .relu none) = some true := by decide +kernel
  rw [laid] at result
  exact Option.some.inj result

/-- The name of a case with an empty object behind it is no choice by itself, but it is taken
for one when it is merged. -/
theorem merge_iff_alone_fails :
    ¬ ((∃ merged, tanhLayer.merge [("activation", .obj [("ReLU", .obj [])])] = .ok merged) ↔
      ∀ entry ∈ [("activation", Json.obj [("ReLU", .obj [])])], ∃ decode content,
        (entry.1, decode) ∈ tanhLayer.kind.decoders ∧ decode.ofJson entry.2 = .ok content) := by
  intro alone
  have merges : (tanhLayer.merge [("activation", .obj [("ReLU", .obj [])])]).toOption.map
      (· == .denseLayer 10 .relu (some [4])) = some true := by decide +kernel
  cases done : tanhLayer.merge [("activation", .obj [("ReLU", .obj [])])] with
  | error fault =>
    rw [done] at merges
    cases merges
  | ok merged =>
    obtain ⟨decode, content, listed, read⟩ := alone.mp ⟨merged, done⟩ _ List.mem_cons_self
    have reader : decode = Activation.decode.into .activation := by
      simpa [tanhLayer, kind, NodeKind.decoders] using listed
    rw [reader] at read
    cases read

end NodeParams

end RecipeGraph
