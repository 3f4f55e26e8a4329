import RecipeGraph.Proofs.Matching

/-!
# Fingerprints and what lies further up

Graphs that give a node equal fingerprints also give equal fingerprints to all that the
node depends on.
-/

namespace RecipeGraph

open Relation (ReflTransGen)

namespace Graph

/-- The edges into a node and all it depends on. -/
def feeding (graph : Graph) (id : String) : List Edge :=
  graph.edges.filter fun edge => (graph.ancestry id).contains edge.target

/-- What the fingerprint of a node takes from a graph is the same in the other. -/
structure Matches (left right : Graph) (id : String) : Prop where
  edges : (right.edges.filter fun edge => (left.ancestry id).contains edge.target).map
    Edge.connection = (left.feeding id).map Edge.connection
  fields : ∀ member ∈ left.ancestry id, ∃ a b, left.node? member = some a ∧
    right.node? member = some b ∧ (a.params == b.params) = true

variable {left right : Graph} {id member : String}

@[simp] theorem mem_feeding {graph : Graph} {edge : Edge} :
    edge ∈ graph.feeding id ↔ edge ∈ graph.edges ∧ edge.target ∈ graph.ancestry id := by
  simp [feeding]

/-- Of edges into a few nodes, those into even fewer are found by where they end. -/
theorem filter_connections {ids fewer : List String} (inner : fewer ⊆ ids) (edges : List Edge) :
    ((edges.filter fun edge => ids.contains edge.target).map Edge.connection).filter
        (fun port => fewer.contains port.target) =
      (edges.filter fun edge => fewer.contains edge.target).map Edge.connection := by
  rw [List.filter_map, List.filter_filter]
  refine congrArg (List.map Edge.connection) (List.filter_congr fun edge _ => ?_)
  by_cases into : edge.target ∈ fewer
  · simp [Edge.connection, into, inner into]
  · simp [Edge.connection, into]

theorem ends_eq_filter (graph : Graph) (id : String) :
    graph.ends id =
      (graph.edges.filter fun edge => [id].contains edge.target).map Edge.connection := by
  unfold ends inbound
  refine congrArg (List.map Edge.connection) (List.filter_congr fun edge _ => ?_)
  simp

theorem ancestry_subset (listed : member ∈ left.ancestry id) :
    left.ancestry member ⊆ left.ancestry id := by
  intro other found
  exact mem_ancestry.mpr ((mem_ancestry.mp found).trans (mem_ancestry.mp listed))

namespace Matches

theorem ends (same : left.Matches right id) (listed : member ∈ left.ancestry id) :
    right.ends member = left.ends member := by
  have inner : [member] ⊆ left.ancestry id := by simpa using listed
  rw [ends_eq_filter, ends_eq_filter, ← filter_connections inner, same.edges, feeding,
    filter_connections inner]

theorem ancestry (same : left.Matches right id) : right.ancestry id = left.ancestry id := by
  refine (walk_congr fun member listed => ?_).symm
  have sources := congrArg (List.map Connection.source) (same.ends listed)
  simpa [Graph.ends, Function.comp_def, Edge.connection] using sources.symm

/-- What matches for a node matches for all it depends on. -/
theorem upstream (same : left.Matches right id) (listed : member ∈ left.ancestry id) :
    left.Matches right member where
  edges := by
    have inner := ancestry_subset listed
    rw [feeding, ← filter_connections inner, same.edges, feeding, filter_connections inner]
  fields other found := same.fields other (ancestry_subset listed found)

end Matches

end Graph

namespace Fingerprint

variable {left right : Graph} {id : String} {fingerprint other : Fingerprint}

theorem feeding_of_capture (captured : capture left id = .ok fingerprint) :
    fingerprint.edges = (left.feeding id).map Edge.connection := by
  obtain ⟨nodes, rfl, read⟩ := exists_of_capture captured
  rw [Graph.feeding, ← Graph.ids_of_nodesOf read]
  rfl

theorem matches_of_capture (captured : capture left id = .ok fingerprint)
    (captured' : capture right id = .ok other) (same : (fingerprint == other) = true) :
    left.Matches right id where
  edges := by
    rw [(sameUpstream_of_capture captured captured' same).ancestry]
    change (right.feeding id).map Edge.connection = _
    rw [← feeding_of_capture captured, ← feeding_of_capture captured',
      (Fingerprint.beq_iff.mp same).2]
  fields _ listed := params_of_capture captured captured' same listed

/-- Graphs that one fingerprint matches match each other. -/
theorem matches_of_isStale (current : fingerprint.isStale left id = false)
    (current' : fingerprint.isStale right id = false) : left.Matches right id := by
  obtain ⟨first, captured, equal⟩ := isStale_eq_false.mp current
  obtain ⟨second, captured', equal'⟩ := isStale_eq_false.mp current'
  exact matches_of_capture captured captured' (BEq.trans equal (BEq.symm equal'))

theorem nodesOf_beq {ids : List String} {nodes : List Node}
    (same : ∀ member ∈ ids, ∃ a b, left.node? member = some a ∧ right.node? member = some b ∧
      (a.params == b.params) = true) (read : left.nodesOf ids = .ok nodes) :
    ∃ others, right.nodesOf ids = .ok others ∧ ((nodes.map fun node => (node.id, node.params)) ==
      others.map fun node => (node.id, node.params)) = true := by
  replace read := Graph.nodesOf_eq_ok.mp read
  induction ids generalizing nodes with
  | nil =>
    rw [List.map_eq_nil_iff.mp read.symm]
    exact ⟨[], rfl, rfl⟩
  | cons id rest ih =>
    obtain ⟨a, b, here, there, equal⟩ := same id List.mem_cons_self
    cases nodes with
    | nil => cases read
    | cons node later =>
      obtain ⟨first, behind⟩ := List.cons.inj read
      cases here.symm.trans first
      obtain ⟨others, found, all⟩ := ih (fun member listed =>
        same member (List.mem_cons_of_mem _ listed)) behind
      refine ⟨b :: others, ?_, ?_⟩
      · rw [Graph.nodesOf, Graph.node_eq_ok.mpr there, found]
        rfl
      · have named := (Graph.id_of_node? here).trans (Graph.id_of_node? there).symm
        refine Bool.and_eq_true_iff.mpr ⟨Bool.and_eq_true_iff.mpr ⟨?_, equal⟩, all⟩
        rw [beq_iff_eq]
        exact named

end Fingerprint

/-- Where a fingerprint was taken from a graph, it can be taken from one that matches. -/
theorem Graph.Matches.capture {left right : Graph} {id : String} {fingerprint : Fingerprint}
    (same : left.Matches right id) (captured : Fingerprint.capture left id = .ok fingerprint) :
    ∃ other, Fingerprint.capture right id = .ok other ∧ (fingerprint == other) = true := by
  have edges := Fingerprint.feeding_of_capture captured
  obtain ⟨nodes, rfl, read⟩ := Fingerprint.exists_of_capture captured
  obtain ⟨others, found, equal⟩ := Fingerprint.nodesOf_beq same.fields read
  refine ⟨Fingerprint.ofNodes right.edges others, ?_, Fingerprint.beq_iff.mpr ⟨equal, ?_⟩⟩
  · rw [Fingerprint.capture_eq_map, Graph.connected, same.ancestry, found]
    rfl
  · rw [edges, ← same.edges, Fingerprint.ofNodes, Graph.ids_of_nodesOf found]

end RecipeGraph
