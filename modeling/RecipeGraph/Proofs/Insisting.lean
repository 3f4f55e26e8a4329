import RecipeGraph.Proofs.Resent

/-!
# What a record insists on

A record is read only if each of its fields can be, so what stands under the key of a field
has a value. Positions are kept as they are, and one that is nested too deep has no value.
-/

namespace RecipeGraph

namespace Form

variable {f : Form α} {key : String} {good : Draft → Prop}

/-- What stands under the key is read with the record, and is not read unless it is good. -/
def Insists (f : Form α) (key : String) (good : Draft → Prop) : Prop :=
  ∀ reading draft state, ∃ taken, f.take reading key draft state = some taken ∧
    ∀ next, taken = .ok next → good draft

/-- The key is none of the record's. -/
def Ignores (f : Form α) (key : String) : Prop :=
  ∀ reading draft state, f.take reading key draft state = none

theorem Insists.field {others : List String} {absent : Absent α} {decode : Decoder α}
    (demands : ∀ reading draft a, decode reading draft = .ok a → good draft) :
    (Form.field key others absent decode).Insists key good := by
  intro reading draft state
  refine ⟨_, if_pos (by simp), fun next taken => ?_⟩
  cases state with
  | some _ => cases taken
  | none =>
    obtain ⟨a, read, -⟩ := Outcome.map_eq_ok.mp taken
    exact demands reading draft a read

theorem Ignores.field {name : String} {absent : Absent α} {decode : Decoder α}
    (apart : name ≠ key) : (Form.field key [] absent decode).Ignores name :=
  fun _ _ _ => if_neg (by simpa using apart)

theorem Insists.left (insists : f.Insists key good) (g : Form β) : (f.both g).Insists key good := by
  intro reading draft state
  obtain ⟨taken, same, demands⟩ := insists reading draft state.1
  refine ⟨taken.map (·, state.2), by simp only [both, same], fun next given => ?_⟩
  obtain ⟨first, read, -⟩ := Outcome.map_eq_ok.mp given
  exact demands first read

theorem Insists.right {g : Form β} (ignores : f.Ignores key) (insists : g.Insists key good) :
    (f.both g).Insists key good := by
  intro reading draft state
  obtain ⟨taken, same, demands⟩ := insists reading draft state.2
  refine ⟨taken.map (state.1, ·), ?_, fun next given => ?_⟩
  · simp only [both, ignores reading draft state.1, same]
    rfl
  · obtain ⟨second, read, -⟩ := Outcome.map_eq_ok.mp given
    exact demands second read

theorem Insists.map (insists : f.Insists key good) (h : α → β) : (f.map h).Insists key good :=
  insists

/-- Every entry is read on the way through an object. -/
theorem Insists.foldlM (insists : f.Insists key good) {reading : Reading}
    {entries : List (Option String × Draft)} {state final : f.State} {draft : Draft}
    (read : entries.foldlM (f.step reading) state = .ok final)
    (member : (some key, draft) ∈ entries) : good draft := by
  induction entries generalizing state with
  | nil => cases member
  | cons entry rest ih =>
    obtain ⟨next, first, later⟩ := Outcome.bind_eq_ok.mp read
    rcases List.mem_cons.mp member with rfl | behind
    · obtain ⟨taken, same, demands⟩ := insists reading draft state
      simp only [step, same] at first
      exact demands next first
    · exact ih later behind

theorem Insists.read (insists : f.Insists key good) {reading : Reading}
    {entries : List (Option String × Draft)} {draft : Draft} {a : α}
    (read : f.read reading (.obj entries) = .ok a) (member : (some key, draft) ∈ entries) :
    good draft := by
  obtain ⟨final, gone, -⟩ := Outcome.bind_eq_ok.mp read
  exact insists.foldlM gone member

end Form

theorem Decoder.exists_of_items {decode : Decoder α} {reading : Reading} {drafts : List Draft}
    {as : List α} (read : items decode reading drafts = .ok as) :
    ∀ draft ∈ drafts, ∃ a, decode reading draft = .ok a := by
  induction drafts generalizing as with
  | nil => exact fun _ member => nomatch member
  | cons first rest ih =>
    obtain ⟨a, here, further⟩ := Outcome.bind_eq_ok.mp read
    obtain ⟨others, later, -⟩ := Outcome.bind_eq_ok.mp further
    intro draft member
    rcases List.mem_cons.mp member with rfl | behind
    · exact ⟨a, here⟩
    · exact ih later draft behind

namespace Json

theorem scannedItems_eq_map (depth : Nat) (items : List Json) :
    scannedItems depth items = items.map (·.scanned depth) := by
  induction items with
  | nil => rfl
  | cons item rest ih => rw [scannedItems, ih, List.map_cons]

theorem scannedEntries_eq_map (depth : Nat) (entries : List (String × Json)) :
    scannedEntries depth entries =
      entries.map fun entry => (some entry.1, entry.2.scanned depth) := by
  induction entries with
  | nil => rfl
  | cons entry rest ih => rw [scannedEntries, ih, List.map_cons]

theorem ReordersItems.exists_of_mem {items others : List Json}
    (each : ReordersItems items others) {item : Json} (member : item ∈ items) :
    ∃ other ∈ others, item.Reorders other := by
  induction items generalizing others with
  | nil => cases member
  | cons first rest ih =>
    cases each with
    | cons reorders later =>
      rcases List.mem_cons.mp member with rfl | behind
      · exact ⟨_, List.mem_cons_self, reorders⟩
      · obtain ⟨other, listed, found⟩ := ih later behind
        exact ⟨other, List.mem_cons_of_mem _ listed, found⟩

/-- An entry of a scanned object comes from one of the written object. -/
theorem Reorders.exists_entry {entries : List (String × Json)} {sent : Json}
    (reorders : (Json.obj entries).Reorders sent) {key : String} {value : Json}
    (member : (key, value) ∈ entries) {depth : Nat} (above : depth < Draft.maxDepth) :
    ∃ drafts other, sent.scanned depth = .obj drafts ∧ value.Reorders other ∧
      (some key, other.scanned (depth + 1)) ∈ drafts := by
  cases reorders with
  | obj shuffled each =>
    obtain ⟨rest, split⟩ := List.append_of_mem member
    obtain ⟨behind, rfl⟩ := split
    obtain ⟨before, other, after, -, rfl, found, -⟩ :=
      ReordersEntries.exists_split (List.perm_middle.symm.trans shuffled) each
    refine ⟨scannedEntries (depth + 1) (before ++ (key, other) :: after), other, ?_, found, ?_⟩
    · rw [scanned, Draft.atDepth, if_pos above]
    · rw [scannedEntries_eq_map]
      exact List.mem_map.mpr ⟨_, List.mem_append_right _ List.mem_cons_self, rfl⟩

theorem Reorders.exists_item {encode : α → Json} {as : List α} {sent : Json}
    (reorders : (Json.list encode as).Reorders sent) {a : α} (member : a ∈ as) {depth : Nat}
    (above : depth < Draft.maxDepth) :
    ∃ drafts other, sent.scanned depth = .arr drafts ∧ (encode a).Reorders other ∧
      other.scanned (depth + 1) ∈ drafts := by
  cases reorders with
  | @arr _ others each =>
    obtain ⟨other, listed, found⟩ := each.exists_of_mem (List.mem_map_of_mem member)
    refine ⟨scannedItems (depth + 1) others, other, ?_, found, ?_⟩
    · rw [scanned, Draft.atDepth, if_pos above]
    · rw [scannedItems_eq_map]
      exact List.mem_map_of_mem listed

end Json

theorem Node.insists : form.Insists "position" fun draft => ∃ value, draft.value? = some value := by
  have demands : ∀ reading draft value, Decoder.json reading draft = .ok value →
      ∃ value, draft.value? = some value := by
    intro reading draft value read
    unfold Decoder.json at read
    split at read
    · next whole => exact ⟨_, whole⟩
    · cases read
  have position : (Form.withDefault "position" .null Decoder.json).Insists "position"
      fun draft => ∃ value, draft.value? = some value := .field demands
  exact .map (.right (.field (by decide)) (.right (.field (by decide)) (position.left _))) _

theorem Graph.insists : form.Insists "nodes" fun draft => ∀ drafts, draft = .arr drafts →
    ∀ node ∈ drafts, ∃ read : Node, ∃ reading, Node.decode reading node = .ok read := by
  have nodes : (Form.required "nodes" (Decoder.list Node.decode)).Insists "nodes"
      fun draft => ∀ drafts, draft = .arr drafts →
        ∀ node ∈ drafts, ∃ read : Node, ∃ reading, Node.decode reading node = .ok read := by
    refine .field fun reading draft found read => ?_
    rintro drafts rfl node member
    obtain ⟨a, done⟩ := Decoder.exists_of_items read node member
    exact ⟨a, reading, done⟩
  exact .map (nodes.left _) _

/-- A text of a graph is read only if no position of it is nested too deep. -/
theorem Graph.shallow_of_ofText {graph read : Graph} {sent : Json}
    (fits : graph.isWritable = true)
    (proper : ∀ node ∈ graph.nodes, node.position.all Number.Numeral.isProper = true)
    (reorders : graph.toJson.Reorders sent) (decoded : decode.ofText sent.print = .ok read) :
    ∀ node ∈ graph.nodes, node.position.depth ≤ maxPositionDepth := by
  intro node member
  have bound : ∀ node ∈ graph.nodes,
      node.position.depth ≤ (graph.nodes.map (·.position.depth)).sum + 10 := fun node listed =>
    Nat.le_add_right_of_le (List.le_sum_of_mem (List.mem_map_of_mem listed))
  have numbers := (Graph.rereads fits proper bound (Nat.le_add_left _ _)).proper
  rw [← (@Json.Reorders.kept Number.Numeral.isProper _ _ reorders).1] at numbers
  rw [Decoder.ofText, Draft.scan_print numbers] at decoded
  obtain ⟨value, found, -⟩ := Outcome.bind_eq_ok.mp decoded
  obtain ⟨drafts, nodes, object, listed, entry⟩ :=
    @Json.Reorders.exists_entry _ _ reorders "nodes" (Json.list Node.toJson graph.nodes)
      (by simp) 0 (by decide)
  rw [object] at found
  obtain ⟨items, sentNode, array, single, item⟩ :=
    @Json.Reorders.exists_item _ _ _ _ listed node member 1 (by decide)
  obtain ⟨_, reading, node'⟩ := Graph.insists.read found entry items array _ item
  obtain ⟨fields, position, record, own, field⟩ :=
    @Json.Reorders.exists_entry _ _ single "position" node.position (by simp) 2 (by decide)
  rw [record] at node'
  obtain ⟨_, whole⟩ := Node.insists.read node' field
  have deep := Json.shallow_of_value? (by decide) whole
  have kept := (@Json.Reorders.kept Number.Numeral.isProper _ _ own).2.1
  have : maxPositionDepth + 3 = Draft.maxDepth := rfl
  omega

end RecipeGraph
