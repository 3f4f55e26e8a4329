import RecipeGraph.Proofs.Tracking
import RecipeGraph.Proofs.Upstream

/-!
# Fingerprints that match

Two fingerprints of a node match exactly when everything that the node depends on
has equal fields and the same edges in both graphs. Such graphs look the same from
the node.
-/

namespace RecipeGraph.Fingerprint

open RecipeGraph.Graph (mem_ancestry nodesOf_eq_ok ids_of_nodesOf node?_of_mem)
open Relation (ReflTransGen)

variable {left right : Graph} {id : String} {fingerprint other : Fingerprint}

/-- A fingerprint is taken from the nodes that the walk comes to. -/
theorem exists_of_capture (captured : capture left id = .ok fingerprint) :
    ∃ nodes, fingerprint = ofNodes left.edges nodes ∧
      left.nodesOf (left.ancestry id) = .ok nodes := by
  rw [capture_eq_map, Outcome.map_eq_ok] at captured
  obtain ⟨nodes, found, made⟩ := captured
  exact ⟨nodes, made.symm, found⟩

/-- Lists of ids with equal fields name the same nodes. -/
theorem nodes_of_beq {ids ids' : List String} {nodes nodes' : List Node}
    (found : left.nodesOf ids = .ok nodes) (found' : right.nodesOf ids' = .ok nodes')
    (same : ((nodes.map fun node => (node.id, node.params)) ==
      nodes'.map fun node => (node.id, node.params)) = true) :
    ids = ids' ∧ ∀ member ∈ ids, ∃ a b, left.node? member = some a ∧
      right.node? member = some b ∧ (a.params == b.params) = true := by
  replace found := nodesOf_eq_ok.mp found
  replace found' := nodesOf_eq_ok.mp found'
  have length := List.length_eq_of_beq same
  rw [List.length_map, List.length_map] at length
  induction nodes generalizing ids ids' nodes' with
  | nil =>
    rw [List.length_eq_zero_iff.mp length.symm] at found'
    rw [List.map_eq_nil_iff.mp found, List.map_eq_nil_iff.mp found']
    exact ⟨rfl, fun _ member => nomatch member⟩
  | cons node rest ih =>
    cases nodes' with
    | nil => cases length
    | cons node' rest' =>
      obtain ⟨id, ids, rfl, here, later⟩ := List.map_eq_cons_iff.mp found
      obtain ⟨id', ids', rfl, here', later'⟩ := List.map_eq_cons_iff.mp found'
      have parts := Bool.and_eq_true_iff.mp same
      have ends := Bool.and_eq_true_iff.mp parts.1
      have named : id = id' := by
        rw [← Graph.id_of_node? here, ← Graph.id_of_node? here']
        exact eq_of_beq ends.1
      obtain ⟨equal, each⟩ := ih parts.2 later later' (Nat.succ.inj length)
      refine ⟨by rw [named, equal], fun member listed => ?_⟩
      rcases List.mem_cons.mp listed with rfl | behind
      · exact ⟨node, node', here, named ▸ here', ends.2⟩
      · exact each member behind

/-- The edges into a node among those of a fingerprint. -/
theorem ends_of_capture (captured : capture left id = .ok fingerprint) {member : String}
    (found : member ∈ left.ancestry id) :
    fingerprint.edges.filter (·.target = member) = left.ends member := by
  obtain ⟨nodes, rfl, read⟩ := exists_of_capture captured
  change ((left.edges.filter fun edge => (nodes.map (·.id)).contains edge.target).map
    Edge.connection).filter _ = (left.inbound member).map Edge.connection
  rw [ids_of_nodesOf read, List.filter_map, List.filter_filter]
  refine congrArg (List.map Edge.connection) (List.filter_congr fun edge _ => ?_)
  by_cases into : edge.target = member
  · simp [Edge.connection, into, found]
  · simp [Edge.connection, into]

theorem sameUpstream_of_capture (captured : capture left id = .ok fingerprint)
    (captured' : capture right id = .ok other) (same : (fingerprint == other) = true) :
    left.SameUpstream right id := by
  have parts := Fingerprint.beq_iff.mp same
  intro member reaches
  have found := mem_ancestry.mpr reaches
  have ends := ends_of_capture captured found
  obtain ⟨nodes, made, read⟩ := exists_of_capture captured
  obtain ⟨nodes', made', read'⟩ := exists_of_capture captured'
  rw [made, made'] at parts
  obtain ⟨ids, fields⟩ := nodes_of_beq read read' parts.1
  obtain ⟨a, b, here, there, equal⟩ := fields member found
  refine ⟨?_, a, b, here, there, NodeParams.unfed_beq equal _⟩
  rw [← ends, ← ends_of_capture captured' (ids ▸ found), made, made', parts.2]

/-- Everything that a node depends on has equal fields where fingerprints match. -/
theorem params_of_capture (captured : capture left id = .ok fingerprint)
    (captured' : capture right id = .ok other) (same : (fingerprint == other) = true)
    {member : String} (found : member ∈ left.ancestry id) :
    ∃ a b, left.node? member = some a ∧ right.node? member = some b ∧
      (a.params == b.params) = true := by
  have parts := Fingerprint.beq_iff.mp same
  obtain ⟨nodes, made, read⟩ := exists_of_capture captured
  obtain ⟨nodes', made', read'⟩ := exists_of_capture captured'
  rw [made, made'] at parts
  exact (nodes_of_beq read read' parts.1).2 member found

/-- The fingerprint of nodes with these ids and fields. -/
def ofFields (edges : List Edge) (nodes : List (String × NodeParams)) : Fingerprint where
  nodes := nodes
  edges := (edges.filter fun edge => (nodes.map (·.1)).contains edge.target).map (·.connection)

theorem ofNodes_eq (edges : List Edge) (nodes : List Node) :
    ofNodes edges nodes = ofFields edges (nodes.map fun node => (node.id, node.params)) := by
  simp [ofNodes, ofFields, Function.comp_def]

theorem fields_congr {ids : List String}
    (same : ∀ member ∈ ids, ∃ a b, left.node? member = some a ∧ right.node? member = some b ∧
      b.params = a.params) :
    ∃ nodes nodes', left.nodesOf ids = .ok nodes ∧ right.nodesOf ids = .ok nodes' ∧
      nodes'.map (fun node => (node.id, node.params)) =
        nodes.map fun node => (node.id, node.params) := by
  induction ids with
  | nil => exact ⟨[], [], rfl, rfl, rfl⟩
  | cons id rest ih =>
    obtain ⟨a, b, here, there, equal⟩ := same id List.mem_cons_self
    obtain ⟨nodes, nodes', found, found', later⟩ :=
      ih fun member listed => same member (List.mem_cons_of_mem _ listed)
    refine ⟨a :: nodes, b :: nodes', ?_, ?_, ?_⟩
    · rw [Graph.nodesOf, Graph.node_eq_ok.mpr here, found]
      rfl
    · rw [Graph.nodesOf, Graph.node_eq_ok.mpr there, found']
      rfl
    · rw [List.map_cons, List.map_cons, later, equal, Graph.id_of_node? here,
        Graph.id_of_node? there]

/-- A fingerprint takes nothing but edges and the fields of what a node depends on. -/
theorem capture_congr (edges : right.edges = left.edges)
    (same : ∀ member ∈ left.ancestry id, ∃ a b, left.node? member = some a ∧
      right.node? member = some b ∧ b.params = a.params) :
    capture right id = capture left id := by
  obtain ⟨nodes, nodes', found, found', equal⟩ := fields_congr same
  have walk : right.ancestry id = left.ancestry id := Graph.ancestry_of_edges edges id
  rw [capture_eq_map, capture_eq_map, Graph.connected, Graph.connected, walk, found, found']
  apply congrArg Except.ok
  rw [ofNodes_eq, ofNodes_eq, equal, edges]

theorem capture_beq_self {graph : Graph} (finite : graph.Finite) {id : String}
    {fingerprint : Fingerprint} (captured : capture graph id = .ok fingerprint) :
    (fingerprint == fingerprint) = true := by
  obtain ⟨nodes, rfl, read⟩ := exists_of_capture captured
  refine Fingerprint.beq_iff.mpr ⟨list_beq_self fun entry member => ?_, rfl⟩
  obtain ⟨node, listed, rfl⟩ := List.mem_map.mp member
  have found : node ∈ graph.nodes := Graph.mem_of_node? (Graph.node?_of_mem_nodesOf read listed)
  exact Bool.and_eq_true_iff.mpr ⟨beq_self_eq_true node.id, NodeParams.beq_self (finite node found)⟩

theorem isStale_eq_false {graph : Graph} {id : String} {fingerprint : Fingerprint} :
    fingerprint.isStale graph id = false ↔
      ∃ now, capture graph id = .ok now ∧ (now == fingerprint) = true := by
  unfold isStale
  cases capture graph id <;> simp

end RecipeGraph.Fingerprint
