import RecipeGraph.Proofs.Writable

/-!
# Fields of finite numbers

Reading a draft of finite numbers gives finite fields, and what is read of a single
written field is what has been written.
-/

namespace RecipeGraph

namespace NodeParams

open Json (size float optional)

/-- Whether all numbers in the fields are finite. -/
def isFinite : NodeParams → Bool
  | .value x => x.all (·.isFinite)
  | .multiply a b => a.all (·.isFinite) && b.all (·.isFinite)
  | .tensor values _ => values.all (·.isFinite)
  | .model _ _ learningRate => learningRate.isFinite
  | _ => true

/-- Whether the fields hold no literal that is lost when they are written and read again. A
literal that is not finite is written as none. -/
def keepsLiterals : NodeParams → Bool
  | .value x => x.all (·.isFinite)
  | .multiply a b => a.all (·.isFinite) && b.all (·.isFinite)
  | _ => true

theorem keepsLiterals_of_isFinite {params : NodeParams} (finite : params.isFinite = true) :
    params.keepsLiterals = true := by
  cases params with
  | value _ | multiply _ _ => exact finite
  | _ => rfl

theorem keepsLiterals_of_numberless {params : NodeParams}
    (numberless : params.kind.producesValue = false) : params.keepsLiterals = true := by
  cases params with
  | value _ | multiply _ _ => cases numberless
  | _ => rfl

@[simp] theorem finiteEntries_config (params : NodeParams) :
    Json.finiteEntries params.config = true := by
  have sizes : ∀ shape, (Json.sizes shape).isFinite = true := Json.isFinite_list fun _ => rfl
  cases params with
  | value x => simp [config, Json.finiteEntries]
  | multiply a b => simp [config, Json.finiteEntries]
  | tensor values shape =>
    simp [config, Json.finiteEntries, sizes]
  | inputLayer shape => simp [config, Json.finiteEntries, sizes]
  | denseLayer units activation inputShape =>
    have shape : (Json.optional Json.sizes inputShape).isFinite = true := by
      cases inputShape with
      | none => rfl
      | some shape => exact sizes shape
    simp [config, Json.finiteEntries, shape, Json.isFinite, Json.size]
  | model optimizer loss learningRate =>
    simp [config, Json.finiteEntries, Json.isFinite]
  | trainModel epochs batchSize => simp [config, Json.finiteEntries, Json.isFinite, Json.size]

theorem finiteEntries_overlay {kind : NodeKind} {config fields laid : List (String × Json)}
    (finite : Json.finiteEntries config = true) (given : Json.finiteEntries fields = true)
    (overlaid : overlay kind config fields = .ok laid) : Json.finiteEntries laid = true := by
  induction fields generalizing config with
  | nil =>
    cases overlaid
    exact finite
  | cons entry rest ih =>
    obtain ⟨key, value⟩ := entry
    have parts := Bool.and_eq_true_iff.mp given
    unfold overlay at overlaid
    split at overlaid
    · exact ih (Json.finiteEntries_insert parts.1 finite) parts.2 overlaid
    · cases overlaid

theorem isFinite_of_isWritable {params : NodeParams} (fits : params.isWritable = true) :
    params.isFinite = true := by
  cases params with
  | tensor values shape => exact (Bool.and_eq_true_iff.mp fits).1
  | value _ | multiply _ _ | model _ _ _ => exact fits
  | _ => rfl

/-- Merging finite values gives fields that can be written. -/
theorem isWritable_of_merge {params merged : NodeParams} {fields : List (String × Json)}
    (given : Json.finiteEntries fields = true) (fits : params.merge fields = .ok merged) :
    merged.isWritable = true := by
  obtain ⟨config, laid, read⟩ := merge_eq_ok.mp fits
  have finite := finiteEntries_overlay (finiteEntries_config params) given laid
  rw [← Json.allEntries_isFinite, ← Json.allEntries_draftEntries] at finite
  exact (yields_form params.kind).readEntries finite read

@[simp] theorem read_float {x : Float} (finite : x.isFinite = true) (reading : Reading) :
    Decoder.float reading (float x).draft = .ok x := by
  unfold Json.float
  rw [if_pos finite]
  rfl

/-- What is read as a number has been written as one. -/
theorem eq_of_read_float {x y : Float} {reading : Reading}
    (read : Decoder.float reading (float x).draft = .ok y) : x = y := by
  by_cases finite : x.isFinite = true
  · rw [read_float finite] at read
    exact Except.ok.inj read
  · unfold Json.float at read
    rw [if_neg finite] at read
    cases read

@[simp] theorem read_literal {x : Option Float} (finite : x.all (·.isFinite) = true)
    (reading : Reading) :
    Decoder.optional Decoder.float reading (optional float x).draft = .ok x := by
  cases x with
  | none => rfl
  | some x =>
    have number : x.isFinite = true := finite
    change Decoder.optional Decoder.float reading (Json.float x).draft = _
    unfold Json.float
    rw [if_pos number]
    rfl

theorem read_items {decode : Decoder α} {encode : α → Json} {reading : Reading}
    {items found : List α}
    (each : ∀ a ∈ items, ∀ b, decode reading (encode a).draft = .ok b → a = b)
    (read : Decoder.list decode reading (Json.list encode items).draft = .ok found) :
    items = found := by
  change Decoder.items decode reading (Json.draftItems (items.map encode)) = _ at read
  induction items generalizing found with
  | nil =>
    cases read
    rfl
  | cons item rest ih =>
    obtain ⟨first, here, further⟩ := Outcome.bind_eq_ok.mp read
    obtain ⟨others, later, made⟩ := Outcome.bind_eq_ok.mp further
    cases made
    rw [each item List.mem_cons_self first here,
      ih (fun a member => each a (List.mem_cons_of_mem _ member)) later]

theorem read_numbers {xs found : List Float} {reading : Reading}
    (read : Decoder.list Decoder.float reading (Json.list float xs).draft = .ok found) :
    xs = found :=
  read_items (fun _ _ _ => eq_of_read_float) read

theorem read_size {n m : Nat} {reading : Reading}
    (read : Decoder.size reading (size n).draft = .ok m) : n = m := by
  change (if _ then Except.ok _ else _) = _ at read
  split at read
  · cases read
    rfl
  · cases read

theorem read_sizes {shape found : List Nat} {reading : Reading}
    (read : Decoder.list Decoder.size reading (Json.sizes shape).draft = .ok found) :
    shape = found :=
  read_items (fun _ _ _ => read_size) read

theorem read_shape {shape found : Option (List Nat)} {reading : Reading}
    (read : Decoder.optional (Decoder.list Decoder.size) reading
      (optional Json.sizes shape).draft = .ok found) : shape = found := by
  cases shape with
  | none =>
    cases read
    rfl
  | some shape =>
    obtain ⟨inner, there, rfl⟩ := Outcome.map_eq_ok.mp read
    rw [read_sizes there]

end NodeParams

end RecipeGraph
