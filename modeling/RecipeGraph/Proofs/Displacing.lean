import RecipeGraph.Proofs.Redrawing

/-!
# What a new edge displaces

A new edge takes the place of the edge in its handle. An edge that is drawn by hand is also
stored under an id that its ends spell, and different ends can spell the same: then the new
edge displaces one more edge, wherever that one ends.
-/

namespace RecipeGraph

/-- The handle in which an edge ends. -/
def Edge.port (edge : Edge) : String × Option String :=
  (edge.target, edge.targetHandle)

namespace Store

/-- The edges that end in another handle than this one. -/
def elsewhere (store : Store) (edge : Edge) : List Edge :=
  store.edges.filter fun other => other.port ≠ edge.port

/-- The edge came in and made room for itself in its own handle only: all other edges are
there as before and in the same order. -/
structure SparesOthers (before after : Store) (edge : Edge) : Prop where
  kept : (before.elsewhere edge).Sublist after.edges
  grown : edge.port ∉ before.edges.map Edge.port → after.edges.length = before.edges.length + 1
  replaced : edge.port ∈ before.edges.map Edge.port → after.edges.length = before.edges.length

variable {store : Store} {edge other : Edge}

@[simp] theorem mem_elsewhere :
    other ∈ store.elsewhere edge ↔ other ∈ store.edges ∧ other.port ≠ edge.port := by
  rw [elsewhere, List.mem_filter, decide_eq_true_iff]

/-- At most one edge ends in a handle. -/
theorem length_edges (sound : store.WellFormed) (edge : Edge) : store.edges.length =
    (if edge.port ∈ store.edges.map Edge.port then 1 else 0) + (store.elsewhere edge).length := by
  have once : (store.edges.map Edge.port).Nodup := sound.unshared
  rw [← once.count, List.count, List.countP_map, List.countP_eq_length_filter, elsewhere,
    List.length_eq_length_filter_add ((· == edge.port) ∘ Edge.port)]
  congr 2
  refine List.filter_congr fun other _ => ?_
  rw [Bool.eq_iff_iff]
  simp

/-- Of the edges that end elsewhere only those with the id of the new edge have gone. -/
theorem edges_place_eq (sound : store.WellFormed) (edge : Edge) (literal : Option Float) :
    (store.place edge literal).edges =
      (store.elsewhere edge).filter (fun other => other.id ≠ edge.id) ++ [edge] := by
  rw [edges_place sound.edges_once, elsewhere, List.filter_filter]
  congr 1
  refine List.filter_congr fun other _ => ?_
  simp [Edge.yieldsTo, Edge.occupies, Edge.port]

theorem sparesOthers_place_iff (sound : store.WellFormed) (edge : Edge)
    (literal : Option Float) :
    store.SparesOthers (store.place edge literal) edge ↔
      ∀ other ∈ store.elsewhere edge, other.id ≠ edge.id := by
  have edges := edges_place_eq sound edge literal
  constructor
  · rintro ⟨kept, -, -⟩ other listed same
    have still := kept.subset listed
    rw [edges] at still
    rcases List.mem_append.mp still with old | new
    · exact absurd same (by simpa using (List.mem_filter.mp old).2)
    · rw [List.mem_singleton.mp new] at listed
      exact (mem_elsewhere.mp listed).2 rfl
  · intro unnamed
    have all : (store.elsewhere edge).filter (fun other => other.id ≠ edge.id) =
        store.elsewhere edge :=
      List.filter_eq_self.mpr fun other listed => decide_eq_true (unnamed other listed)
    rw [all] at edges
    have counted := length_edges sound edge
    refine ⟨?_, fun free => ?_, fun taken => ?_⟩
    · rw [edges]
      exact List.sublist_append_left _ _
    · rw [if_neg free] at counted
      rw [edges, List.length_append, List.length_singleton]
      omega
    · rw [if_pos taken] at counted
      rw [edges, List.length_append, List.length_singleton]
      omega

/-- Wherever a connection is accepted, its edge is drawn into the handle it names or into the
default handle of its target. All other edges are spared exactly if none of those that end
elsewhere has the id which the ends of the new one spell. Otherwise such an edge goes. -/
theorem addEdge_sparesOthers_iff {operations : List Operation} {connection : Connection}
    {edge : Edge} {after : Store}
    (done : (run operations).addEdge connection = (.ok edge, after)) :
    (∃ target, (run operations).node? connection.target = some target ∧
      edge = (connection.withHandle target.kind).toEdge
        (connection.withHandle target.kind).edgeId) ∧
    after.edges = ((run operations).elsewhere edge).filter (fun other => other.id ≠ edge.id) ++
      [edge] ∧
    ((run operations).SparesOthers after edge ↔
      ∀ other ∈ (run operations).elsewhere edge, other.id ≠ edge.id) := by
  have sound := foldl_apply_wellFormed empty_wellFormed operations
  obtain ⟨source, target, _, into, drawn, _, rfl⟩ := addEdge_of_ok done
  exact ⟨⟨target, into, drawn⟩, edges_place_eq sound edge source.params.literal,
    sparesOthers_place_iff sound edge source.params.literal⟩

/-- The ends of `v`, `w-m` and `a` spell the same id as those of `v-w`, `m` and `a`. -/
def spelledAlike : List Operation := [
  .addNode { id := "v", params := .value (some 2.0) },
  .addNode { id := "v-w", params := .value (some 3.0) },
  .addNode { id := "w-m", params := .multiply none (some 5.0) },
  .addNode { id := "m", params := .multiply none (some 7.0) },
  .addEdge ⟨"v", "w-m", none, some Handle.a⟩]

/-- The second edge goes into a free handle of another node, and the first one is gone. -/
theorem addEdge_spelledAlike : ∃ edge after,
    (run spelledAlike).addEdge ⟨"v-w", "m", none, some Handle.a⟩ = (.ok edge, after) ∧
      edge.port ∉ (run spelledAlike).edges.map Edge.port ∧
      after.edges.map Edge.port = [("m", some Handle.a)] ∧
      ¬ (run spelledAlike).SparesOthers after edge := by
  have drawn : ((run spelledAlike).addEdge ⟨"v-w", "m", none, some Handle.a⟩).1.toOption =
      some ⟨"edge-v-w-ma", "v-w", "m", none, some Handle.a⟩ := by decide +kernel
  have before : (run spelledAlike).edges = [⟨"edge-v-w-ma", "v", "w-m", none, some Handle.a⟩] := by
    decide +kernel
  have left : ((run spelledAlike).addEdge ⟨"v-w", "m", none, some Handle.a⟩).2.edges.map Edge.port =
      [("m", some Handle.a)] := by decide +kernel
  cases same : (run spelledAlike).addEdge ⟨"v-w", "m", none, some Handle.a⟩ with
  | mk result after =>
    rw [same] at drawn left
    cases result with
    | error error => cases drawn
    | ok edge =>
      cases drawn
      refine ⟨_, after, rfl, by rw [before]; decide, left, fun spares => ?_⟩
      have first : ⟨"edge-v-w-ma", "v", "w-m", none, some Handle.a⟩ ∈ (run spelledAlike).edges := by
        simp [before]
      have unnamed := (addEdge_sparesOthers_iff same).2.2.mp spares
      exact unnamed _ (mem_elsewhere.mpr ⟨first, by decide⟩) rfl

end Store

end RecipeGraph
