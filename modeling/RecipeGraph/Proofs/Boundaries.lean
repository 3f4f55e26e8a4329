import RecipeGraph.Proofs.Distances
import RecipeGraph.Proofs.Ordering
import RecipeGraph.Proofs.Upstream

/-!
# The boundary and the upstream

The boundary behind a handle walks on its own, past the nodes that it leaves out. It still
comes to the nodes that everything upstream of what is plugged in consists of, in the same
order, and keeps those that no edge ends in.
-/

namespace RecipeGraph.Graph

variable {graph : Graph} {id handle : String}

/-- Where no cycle leads to a node, going back from it comes to a node that no edge ends in. -/
theorem exists_origin (free : ¬ graph.Loops (graph.ancestry id)) :
    ∃ last ∈ graph.ancestry id, graph.inbound last = [] := by
  have grounded : Acc (Linked (graph.upstream id)) id :=
    acc_of_not_behindCycle fun ⟨looped, loop, _⟩ => free ⟨looped, loop⟩
  -- The induction goes back over the edges upstream, and every edge that matters is one.
  have back : ∀ member, Acc (Linked (graph.upstream id)) member → member ∈ graph.ancestry id →
      ∃ last ∈ graph.ancestry id, graph.inbound last = [] := by
    intro member grounded
    induction grounded with
    | intro member _ ih =>
      intro listed
      by_cases bare : graph.inbound member = []
      · exact ⟨member, listed, bare⟩
      · obtain ⟨edge, inbound⟩ := List.exists_mem_of_ne_nil _ bare
        have parts := List.mem_filter.mp inbound
        have feeds : graph.Feeds edge.source member :=
          ⟨edge, parts.1, rfl, of_decide_eq_true parts.2⟩
        exact ih edge.source (linked_upstream feeds listed) (mem_ancestry_of_feeds feeds listed)
  exact back id grounded (mem_ancestry_self graph id)

/-- The boundary behind an edge, by everything upstream of the edge: its output is where the
edge comes from, and its inputs are the nodes upstream that no edge ends in, in their order.
Unless a cycle leads to the output there are such nodes. -/
structure BoundedBy (graph : Graph) (edge : Edge) (boundary : Boundary) : Prop where
  output : graph.node? edge.source = some boundary.output
  inputs : ∃ upstream, graph.connected edge.source = .ok upstream ∧
    boundary.inputs = upstream.filter fun node => (graph.inbound node.id).isEmpty
  nonempty : ¬ graph.Loops (graph.ancestry edge.source) → boundary.inputs ≠ []

/-- Behind an edge there is a boundary. -/
theorem exists_boundedBy (sound : graph.WellFormed) (known : graph.contains id = true)
    {edge : Edge} (drawn : edge ∈ graph.edges) (here : edge.occupies id (some handle) = true) :
    ∃ boundary, graph.boundary id handle = .ok (some boundary) ∧
      graph.BoundedBy edge boundary := by
  obtain ⟨rfl, port⟩ := Edge.occupies_iff.mp here
  have plugged := plugged_of_edge sound drawn port
  have stored := contains_of_reaches sound known (.single (feeds_of_plugged plugged))
  obtain ⟨node, found⟩ := contains_iff.mp known
  obtain ⟨output, there⟩ := contains_iff.mp stored
  have into : graph.inputNode? edge.target handle = some output := by
    rw [inputNode?_eq_bind, plugged]
    exact there
  obtain ⟨upstream, collected, ids⟩ := exists_connected sound stored
  have inputs := nodesOf_filter collected fun id => (graph.inbound id).isEmpty
  have walked : graph.origins [edge.source] [edge.source] =
      (graph.ancestry edge.source).filter fun id => (graph.inbound id).isEmpty :=
    origins_eq_filter graph _ _
  rw [← walked, ← id_of_node? there] at inputs
  refine ⟨_, boundary_of_plugged found into inputs, there, ⟨upstream, collected, rfl⟩, ?_⟩
  intro free
  obtain ⟨last, listed, bare⟩ := exists_origin free
  rw [← ids] at listed
  obtain ⟨origin, member, rfl⟩ := List.mem_map.mp listed
  apply List.ne_nil_of_mem (a := origin)
  exact List.mem_filter.mpr ⟨member, List.isEmpty_iff.mpr bare⟩

/-- Asking for the boundary behind a handle of an existing node never fails. There is none
exactly if no edge ends in the handle, and otherwise one edge does, which bounds it. -/
theorem boundary_agrees_with_upstream (sound : graph.WellFormed)
    (known : graph.contains id = true) (handle : String) :
    (∃ found, graph.boundary id handle = .ok found) ∧
    (graph.boundary id handle = .ok none ↔
      ∀ edge ∈ graph.edges, edge.occupies id (some handle) = false) ∧
    ∀ edge ∈ graph.edges, edge.occupies id (some handle) = true →
      (∀ other ∈ graph.edges, other.occupies id (some handle) = true → other = edge) ∧
      ∃ boundary, graph.boundary id handle = .ok (some boundary) ∧
        graph.BoundedBy edge boundary := by
  obtain ⟨node, found⟩ := contains_iff.mp known
  have behind : ∀ edge ∈ graph.edges, edge.occupies id (some handle) = true →
      ∃ boundary, graph.boundary id handle = .ok (some boundary) ∧ graph.BoundedBy edge boundary :=
    fun edge drawn here => exists_boundedBy sound known drawn here
  have nothing : (∀ edge ∈ graph.edges, edge.occupies id (some handle) = false) →
      graph.boundary id handle = .ok none :=
    fun away => boundary_of_unplugged found <| by
      rw [inputNode?_eq_bind, plugged_eq_none_iff.mpr away]
      rfl
  refine ⟨?_, ⟨?_, nothing⟩, fun edge drawn here => ⟨?_, behind edge drawn here⟩⟩
  · by_cases away : ∀ edge ∈ graph.edges, edge.occupies id (some handle) = false
    · exact ⟨none, nothing away⟩
    · push Not at away
      obtain ⟨edge, drawn, here⟩ := away
      obtain ⟨boundary, bounded, _⟩ := behind edge drawn (Bool.eq_true_of_not_eq_false here)
      exact ⟨some boundary, bounded⟩
  · intro unbounded edge drawn
    by_contra here
    obtain ⟨boundary, bounded, _⟩ := behind edge drawn (Bool.eq_true_of_not_eq_false here)
    cases unbounded.symm.trans bounded
  · exact fun other drawn' here' => eq_of_occupies sound drawn drawn' here here'

end RecipeGraph.Graph

namespace RecipeGraph.Store

/-- What is plugged in comes out of a cycle, behind which there is a number all the same. -/
theorem boundary_agrees_with_upstream_entwined :
    entwined.WellFormed ∧ entwined.contains "r" = true ∧
      ∃ boundary, entwined.boundary "r" Handle.a = .ok (some boundary) ∧
        boundary.output.id = "q" ∧ boundary.inputs.map (·.id) = ["v"] := by
  have sound : entwined.WellFormed := foldl_apply_wellFormed empty_wellFormed _
  have known : entwined.contains "r" = true := by decide +kernel
  obtain ⟨-, -, behind⟩ := Graph.boundary_agrees_with_upstream sound known Handle.a
  obtain ⟨-, boundary, bounded, output, ⟨upstream, collected, inputs⟩, -⟩ :=
    behind ⟨"q-r", "q", "r", none, some Handle.a⟩ (by decide +kernel) (by decide +kernel)
  have walked : entwined.ancestry "q" = ["q", "p", "v"] := by decide +kernel
  refine ⟨sound, known, boundary, bounded, Graph.id_of_node? output, ?_⟩
  calc boundary.inputs.map (·.id)
      = (upstream.map (·.id)).filter fun id => (entwined.inbound id).isEmpty := by
        rw [inputs, List.filter_map]
        rfl
    _ = ["v"] := by
        rw [Graph.ids_of_nodesOf collected, walked]
        decide +kernel

end RecipeGraph.Store
