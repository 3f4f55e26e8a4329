import RecipeGraph.Proofs.Loading

/-!
# Loading what was saved

A load draws every edge anew. A graph that editing has led to is taken as it is: no
edge of it is refused or makes room for another, and only the fields of handles in use
are written, with the literals of what is plugged in. What a load has led to is
therefore loaded again without any change.
-/

namespace RecipeGraph

/-- What has come to a handle already makes no difference when it comes again. -/
@[simp] theorem NodeParams.supplied_again (params : NodeParams)
    {arrived arriving : String → Option (Option Float)}
    (known : ∀ handle literal, arriving handle = some literal → arrived handle = some literal) :
    (params.supplied arrived).supplied arriving = params.supplied arrived := by
  have same : ∀ handle held,
      (arriving handle).getD ((arrived handle).getD held) = (arrived handle).getD held := by
    intro handle held
    cases next : arriving handle with
    | none => rfl
    | some literal => rw [known handle literal next]; rfl
  cases params with
  | multiply a b => simp [supplied, same]
  | _ => rfl

@[simp] theorem Edge.undisplaced_eq_self {edges : List Edge}
    (stay : edges.Pairwise fun edge later => edge.yieldsTo later = false) :
    undisplaced edges = edges := by
  induction edges with
  | nil => rfl
  | cons edge later ih =>
    obtain ⟨stays, others⟩ := List.pairwise_cons.mp stay
    have unmoved : later.any edge.yieldsTo = false := by simpa using stays
    simp [undisplaced, unmoved, ih others]

namespace Graph

/-- The literal of the node that is plugged into a handle, if there is one. -/
def arriving (graph : Graph) : Arrivals :=
  fun id handle => (graph.plugged id handle).bind graph.literal?

/-- The graph as a load leaves it: with nothing on its nodes, and with the literal of
what is plugged in in every field of a handle in use. -/
def reloaded (graph : Graph) : Graph where
  nodes := graph.nodes.map (Node.supplied graph.arriving)
  edges := graph.edges

variable {graph : Graph}

theorem drawn_of_wellFormed (sound : graph.WellFormed) : graph.drawn = graph.edges := by
  refine (List.map_congr_left fun edge listed => ?_).trans (List.map_id _)
  obtain ⟨handle, named⟩ := Option.isSome_iff_exists.mp (sound.handled edge listed)
  have unchanged : (edge.targetHandle <|> (graph.kind? edge.target).bind NodeKind.defaultHandle) =
      edge.targetHandle := by
    rw [named]
    rfl
  rw [normal, unchanged]
  rfl

/-- None of the edges of a graph makes room for a later one. -/
theorem kept_of_wellFormed (sound : graph.WellFormed) : graph.kept = graph.edges := by
  have ids := List.pairwise_map.mp sound.edges_once
  have ports := List.pairwise_map.mp sound.unshared
  rw [kept, drawn_of_wellFormed sound]
  refine Edge.undisplaced_eq_self ((ids.and ports).imp fun apart => ?_)
  simpa [Edge.yieldsTo, Edge.occupies] using apart

theorem brought_of_wellFormed (sound : graph.WellFormed) : graph.brought = graph.arriving := by
  funext id handle
  unfold brought arriving plugged inputEdge?
  rw [kept_of_wellFormed sound, drawn_of_wellFormed sound, ← List.isSome_find?]
  cases graph.edges.find? (·.occupies id (some handle)) <;> rfl

theorem settled_of_wellFormed (sound : graph.WellFormed) : graph.settled = graph.reloaded := by
  rw [settled, reloaded, kept_of_wellFormed sound, brought_of_wellFormed sound]

end Graph

namespace Store

open RecipeGraph.Graph (WellFormed)

variable {store : Store} {given : List Node}

/-- A well-formed graph can be loaded, and only fields of handles in use are written. -/
theorem build_of_wellFormed {graph : Graph} (sound : graph.WellFormed) :
    ∃ built, build graph = (.ok (), built) ∧ built.toGraph = graph.reloaded := by
  obtain ⟨built, done⟩ := exists_build sound.nodes_once sound.carried
  exact ⟨built, done, (build_of_ok done).2.2.trans (Graph.settled_of_wellFormed sound)⟩

/-- The nodes are as given, and the literal that has come to a handle in use is the one
of what is plugged in. -/
def Supplied (given : List Node) (store : Store) : Prop :=
  ∃ arrivals, store.nodes = given.map (Node.supplied arrivals) ∧
    ∀ edge ∈ store.edges, ∀ handle, edge.targetHandle = some handle →
      arrivals edge.target handle = Graph.literal? ⟨given, []⟩ edge.source

theorem supplied_of_build {graph : Graph} {built : Store} (done : build graph = (.ok (), built)) :
    built.Supplied graph.nodes := by
  obtain ⟨_, _, settled⟩ := build_of_ok done
  refine ⟨graph.brought, congrArg Graph.nodes settled, fun edge drawn handle named => ?_⟩
  rw [settled] at drawn
  have here : edge.occupies edge.target (some handle) = true := by simp [Edge.occupies, named]
  exact Graph.brought_of_mem drawn here

/-- Nothing changes when the literals in use come once more. -/
theorem Supplied.reloaded (supplied : store.Supplied given) :
    store.toGraph.reloaded = store.toGraph := by
  obtain ⟨arrivals, nodes, held⟩ := supplied
  have known : ∀ id handle literal, store.arriving id handle = some literal →
      arrivals id handle = some literal := by
    intro id handle literal arrives
    obtain ⟨source, plugged, given_literal⟩ := Option.bind_eq_some_iff.mp arrives
    obtain ⟨edge, drawn, rfl, into, port⟩ := Graph.exists_edge_of_plugged plugged
    rw [← into, held edge drawn handle port,
      ← Graph.literal?_supplied nodes, given_literal]
  have again : store.nodes.map (Node.supplied store.arriving) = store.nodes := by
    rw [nodes, List.map_map]
    refine List.map_congr_left fun node _ => ?_
    have fields := node.params.supplied_again (known node.id)
    simp only [Function.comp_apply, Node.supplied, Node.fresh] at fields ⊢
    rw [fields]
  simp only [Graph.reloaded, again]

/-- Whatever editing has led to can be loaded into any store. The edges stay as they are,
in their order, and so do the nodes, but that nothing is left on them and that fields of
handles in use hold the literals of what is plugged in. What a load has led to is
therefore loaded again without any change. -/
theorem load_saved :
    (∀ (operations : List Operation) (receiver : Store),
      ∃ after, receiver.load (run operations).toGraph = (.ok (), after) ∧
        after.edges = (run operations).edges ∧
        after.nodes = (run operations).nodes.map fun node => {
          id := node.id
          params := node.params.supplied fun handle =>
            ((run operations).inputNode? node.id handle).map (·.params.literal)
          position := node.position
          data := {} }) ∧
    ∀ (graph : Graph) (receiver built : Store), receiver.load graph = (.ok (), built) →
      ∀ other : Store, ∃ again, other.load built.toGraph = (.ok (), again) ∧
        again.toGraph = built.toGraph := by
  constructor
  · intro operations receiver
    have sound : (run operations).WellFormed :=
      foldl_apply_wellFormed empty_wellFormed operations
    obtain ⟨built, done, same⟩ := build_of_wellFormed sound
    obtain ⟨after, loaded, equal⟩ := load_of_build done receiver
    have reloaded : after.toGraph = (run operations).toGraph.reloaded := equal.trans same
    have nodes : after.nodes = (run operations).nodes.map (Node.supplied
        (run operations).toGraph.arriving) := by
      rw [reloaded]
      rfl
    refine ⟨after, loaded, by rw [reloaded]; rfl, nodes.trans ?_⟩
    refine List.map_congr_left fun node _ => ?_
    have arriving : Graph.arriving (run operations).toGraph node.id = fun handle =>
        ((run operations).inputNode? node.id handle).map (·.params.literal) := by
      funext handle
      rw [Graph.inputNode?_eq_bind, Option.map_bind]
      rfl
    simp only [Node.supplied, Node.fresh, arriving]
  · intro graph receiver built loaded other
    obtain ⟨first, done, same⟩ := load_of_ok loaded
    have sound : built.WellFormed := by
      have built_sound := build_wellFormed graph
      rw [done] at built_sound
      rw [same]
      exact built_sound
    obtain ⟨second, done', same'⟩ := build_of_wellFormed sound
    obtain ⟨again, loaded', equal⟩ := load_of_build done' other
    refine ⟨again, loaded', ?_⟩
    rw [equal, same', same]
    exact (supplied_of_build done).reloaded

/-- A product that has been given another number than the one plugged into it. -/
def outdated : Store := run [
  .load {
    nodes := [
      { id := "v", params := .value (some 4.0) },
      { id := "m", params := .multiply none (some 2.0) }]
    edges := [⟨"vm", "v", "m", none, some Handle.a⟩] },
  .updateNode "m" { config := some [("a", .num (.int 9))] }]

/-- The number is taken from the plug again, and then it stays. -/
theorem load_saved_outdated :
    (outdated.node? "m").map (·.params == .multiply (some 9.0) (some 2.0)) = some true ∧
    ∃ first, empty.load outdated.toGraph = (.ok (), first) ∧
      (first.node? "m").map (·.params == .multiply (some 4.0) (some 2.0)) = some true ∧
      ∃ again, empty.load first.toGraph = (.ok (), again) ∧ again.toGraph = first.toGraph := by
  have supplied : ((empty.load outdated.toGraph).2.node? "m").map
      (·.params == .multiply (some 4.0) (some 2.0)) = some true := by decide +kernel
  obtain ⟨first, loaded, _, _⟩ := load_saved.1 _ empty
  refine ⟨by decide +kernel, first, loaded, ?_, load_saved.2 _ _ _ loaded empty⟩
  rw [show (empty.load outdated.toGraph).2 = first from congrArg Prod.snd loaded] at supplied
  exact supplied

end Store

end RecipeGraph
