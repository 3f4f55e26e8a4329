import RecipeGraph.Proofs.Lasting
import RecipeGraph.Proofs.Rewiring

/-!
# Taking a node away

With a node go the edges at it. Every node in which one of them ended loses its result and
what it remembers for the handle, the node that goes no less than those it fed. Everything
else stays as it is, and where it is.
-/

namespace RecipeGraph

/-- To forget the literal of a handle is to treat the handle as one in use. -/
@[simp]
theorem NodeParams.unfed_bind_none (params : NodeParams) (handle : String) (fed : String → Bool) :
    (params.bind handle none).unfed fed =
      params.unfed fun other => decide (handle = other) || fed other := by
  cases params with
  | multiply a b =>
    have apart : Handle.a ≠ Handle.b := by decide
    simp only [bind]
    split_ifs with first second
    · simp [unfed, first, apart]
    · simp [unfed, second, apart.symm]
    · simp [unfed, first, second]
  | _ => rfl

@[simp]
theorem NodeParams.unfed_nothing (params : NodeParams) : params.unfed (fun _ => false) = params := by
  cases params <;> rfl

namespace Node

/-- The node without those of the edges that end in it: nothing is remembered for their handles,
and if there are any, the result is gone. -/
def severed (edges : List Edge) (node : Node) : Node :=
  { node with
    params := node.params.unfed fun handle => edges.any (·.occupies node.id (some handle))
    data := if edges.any (·.target = node.id) then node.uncompiled.data else node.data }

variable {node : Node} {edges others : List Edge} {handle : String}

@[simp] theorem severed_unplugged (node : Node) (edge : Edge) (rest : List Edge) :
    (node.unplugged edge).severed rest = node.severed (edge :: rest) := by
  by_cases into : edge.target = node.id
  · have ends : (edge :: rest).any (·.target = node.id) = true := by simp [into]
    have again : (if rest.any (·.target = node.id) then node.uncompiled.data
        else node.uncompiled.data) = node.uncompiled.data := ite_self _
    have ports : (fun port => (edge :: rest).any (·.occupies node.id (some port))) =
        fun port => decide (edge.targetHandle = some port) ||
          rest.any (·.occupies node.id (some port)) := by
      simp [Edge.occupies, into]
    rw [unplugged, if_pos into, severed, severed, ports, if_pos ends]
    cases named : edge.targetHandle with
    | none => exact congrArg _ again
    | some handle =>
      have fields := NodeParams.unfed_bind_none node.params handle fun port =>
        rest.any (·.occupies node.id (some port))
      simp only [Option.some.injEq]
      rw [← fields]
      exact congrArg _ again
  · simp [unplugged, severed, Edge.occupies, into]

/-- Edges that go one after the other leave the node without all of them. -/
@[simp] theorem foldl_unplugged (node : Node) (edges : List Edge) :
    edges.foldl unplugged node = node.severed edges := by
  induction edges generalizing node with
  | nil => simp [severed]
  | cons edge rest ih => rw [List.foldl_cons, ih, severed_unplugged]

@[simp]
theorem severed_id (edges : List Edge) (node : Node) : (node.severed edges).id = node.id :=
  rfl

@[simp] theorem severed_of_spared (spared : ∀ edge ∈ edges, edge.target ≠ node.id) :
    node.severed edges = node := by
  rw [← foldl_unplugged, foldl_unplugged_of_spared spared]

/-- Only the edges that end in the node matter. -/
theorem severed_congr (same : ∀ edge, edge.target = node.id → (edge ∈ edges ↔ edge ∈ others)) :
    node.severed edges = node.severed others := by
  have any : ∀ p : Edge → Bool, (∀ edge, p edge = true → edge.target = node.id) →
      edges.any p = others.any p := by
    intro p into
    rw [Bool.eq_iff_iff, List.any_eq_true, List.any_eq_true]
    exact exists_congr fun edge => and_congr_left fun holds => same edge (into edge holds)
  have ports : ∀ handle : String, edges.any (·.occupies node.id (some handle)) =
      others.any (·.occupies node.id (some handle)) :=
    fun handle => any _ fun edge here => (Edge.occupies_iff.mp here).1
  have ends : edges.any (·.target = node.id) = others.any (·.target = node.id) :=
    any _ fun edge here => of_decide_eq_true here
  simp only [severed, ports, ends]

@[simp] theorem bound?_severed (node : Node) (edges : List Edge) (handle : String) :
    (node.severed edges).params.bound? handle =
      if edges.any (·.occupies node.id (some handle)) then
        (node.params.bound? handle).map fun _ => none
      else node.params.bound? handle := by
  rw [← foldl_unplugged, bound?_foldl_unplugged]

/-- Where one of the edges ended, nothing is remembered, and there is no result. -/
theorem forgets_severed {edge : Edge} (gone : edge ∈ edges)
    (here : edge.occupies node.id (some handle) = true) :
    (∀ held ∈ (node.severed edges).params.bound? handle, held = none) ∧
      (node.severed edges).data.output = none ∧ (node.severed edges).data.compiled = false := by
  have ends : edges.any (·.target = node.id) = true :=
    List.any_eq_true.mpr ⟨edge, gone, decide_eq_true (Edge.occupies_iff.mp here).1⟩
  refine ⟨fun held remembered => ?_, ?_, ?_⟩
  · rw [bound?_severed, if_pos (List.any_eq_true.mpr ⟨edge, gone, here⟩)] at remembered
    obtain ⟨_, _, rfl⟩ := Option.map_eq_some_iff.mp remembered
    rfl
  · rw [severed, if_pos ends, uncompiled]
  · rw [severed, if_pos ends, uncompiled]

end Node

namespace Graph

/-- The graph without a node and the edges at it. -/
def without (graph : Graph) (id : String) : Graph where
  nodes := (graph.nodes.filter (·.id ≠ id)).map
    (Node.severed (graph.edges.filter (·.source = id)))
  edges := graph.edges.filter fun edge => edge.source ≠ id ∧ edge.target ≠ id

variable {graph : Graph} {id other : String}

@[simp] theorem mem_edges_without {edge : Edge} : edge ∈ (graph.without id).edges ↔
    edge ∈ graph.edges ∧ edge.source ≠ id ∧ edge.target ≠ id := by
  simp [without]

@[simp]
theorem node?_without_self (graph : Graph) (id : String) : (graph.without id).node? id = none := by
  rw [node?, List.find?_eq_none]
  intro node left
  obtain ⟨old, kept, rfl⟩ := List.mem_map.mp left
  exact fun same => of_decide_eq_true (List.mem_filter.mp kept).2 (of_decide_eq_true same)

theorem node?_without (graph : Graph) (apart : other ≠ id) : (graph.without id).node? other =
    (graph.node? other).map (Node.severed (graph.edges.filter (·.source = id))) := by
  unfold node? without
  rw [List.find?_map, List.find?_filter]
  congr 2
  funext node
  by_cases same : node.id = other <;> simp [same, apart]

/-- A node into which no edge leads from the node that goes is as before. -/
theorem node?_without_of_spared (apart : other ≠ id)
    (away : ∀ edge ∈ graph.edges, edge.source = id → edge.target ≠ other) :
    (graph.without id).node? other = graph.node? other := by
  rw [node?_without graph apart]
  cases there : graph.node? other with
  | none => rfl
  | some node =>
    rw [Option.map_some, Node.severed_of_spared]
    intro edge leaves
    obtain ⟨drawn, source⟩ := List.mem_filter.mp leaves
    rw [id_of_node? there]
    exact away edge drawn (of_decide_eq_true source)

/-- Where an edge ended that came from the node that goes, nothing is left of it. -/
theorem forgets_without (sound : graph.WellFormed) {edge : Edge} (drawn : edge ∈ graph.edges)
    (source : edge.source = id) : ∃ handle target, edge.targetHandle = some handle ∧
      (graph.without id).node? edge.target = some target ∧
      (∀ held ∈ target.params.bound? handle, held = none) ∧
      target.data.output = none ∧ target.data.compiled = false := by
  obtain ⟨apart, _, target, _, there, _⟩ := sound.carried edge drawn
  obtain ⟨handle, named⟩ := Option.isSome_iff_exists.mp (sound.handled edge drawn)
  have leaves : edge ∈ graph.edges.filter (·.source = id) :=
    List.mem_filter.mpr ⟨drawn, decide_eq_true source⟩
  have here : edge.occupies target.id (some handle) = true :=
    Edge.occupies_iff.mpr ⟨(id_of_node? there).symm, named⟩
  refine ⟨handle, target.severed (graph.edges.filter (·.source = id)), named, ?_,
    Node.forgets_severed leaves here⟩
  rw [node?_without graph fun same => apart (source.trans same.symm), there, Option.map_some]

end Graph

namespace Store

variable {store : Store} {id : String} {node : Node}

theorem nodes_reset_eq (store : Store) (id : String) : (store.reset id).nodes =
    store.nodes.map fun node => if node.id = id then node.uncompiled else node := by
  unfold reset
  split
  · rfl
  · next absent =>
    refine (List.map_id _).symm.trans (List.map_congr_left fun node stored => ?_)
    have apart : node.id ≠ id := by
      rintro rfl
      exact absent (Graph.contains_iff.mpr (Graph.node?_isSome_of_mem stored))
    exact (if_neg apart).symm

@[simp] theorem nodes_detach (store : Store) (edge : Edge) :
    (store.detach edge).nodes = store.nodes.map (·.unplugged edge) := by
  have freed : (store.detach edge).nodes = ((store.dropEdge edge.id).bindHandle edge none).nodes.map
      fun node => if node.id = edge.target then node.uncompiled else node :=
    nodes_reset_eq _ _
  rw [freed]
  cases named : edge.targetHandle with
  | none =>
    simp only [bindHandle, named]
    refine List.map_congr_left fun node _ => ?_
    simp only [Node.unplugged, named, eq_comm]
  | some handle =>
    simp only [bindHandle, named, modifyNode, List.map_map]
    refine List.map_congr_left fun node _ => ?_
    by_cases into : node.id = edge.target
    · simp [Node.unplugged, named, into, Node.bind]
    · simp [Node.unplugged, into, Ne.symm into]

theorem nodes_detachAll_eq (store : Store) (edges : List Edge) :
    (store.detachAll edges).nodes = store.nodes.map (Node.severed edges) := by
  have each : (store.detachAll edges).nodes = store.nodes.map (edges.foldl Node.unplugged) := by
    induction edges generalizing store with
    | nil => simp [detachAll]
    | cons edge rest ih =>
      change ((store.detach edge).detachAll rest).nodes = _
      rw [ih, nodes_detach, List.map_map]
      rfl
  simpa only [Node.foldl_unplugged] using each

theorem severed_touching {other : Node} (apart : other.id ≠ id) (edges : List Edge) :
    other.severed (edges.filter (·.touches id)) = other.severed (edges.filter (·.source = id)) := by
  refine Node.severed_congr fun edge into => ?_
  rw [List.mem_filter, List.mem_filter]
  simp [Edge.touches, into, apart]

/-- A node that is there is removed, and it is given back without the edges that ended in it. -/
theorem removeNode_eq (sound : store.WellFormed) (found : store.node? id = some node) :
    ∃ after, store.removeNode id = (.ok (node.severed (store.inbound id)), after) ∧
      after.toGraph = store.toGraph.without id := by
  generalize taken : store.edges.filter (·.touches id) = edges
  have cleared : (store.detachAll edges).node? id = some (node.severed edges) := by
    rw [node?_detachAll, found, Option.map_some, Node.foldl_unplugged]
  have returned : node.severed edges = node.severed (store.inbound id) := by
    rw [← taken]
    refine Node.severed_congr fun edge into => ?_
    rw [Graph.inbound, List.mem_filter, List.mem_filter]
    simp [Edge.touches, into, Graph.id_of_node? found]
  have edges_left : (store.detachAll edges).edges = (store.toGraph.without id).edges := by
    rw [← taken]
    refine (edges_detachAll_filter sound.edges_once _).trans (List.filter_congr fun edge _ => ?_)
    simp [Edge.touches]
  have nodes_left : (store.detachAll edges).nodes.filter (·.id ≠ id) =
      (store.toGraph.without id).nodes := by
    rw [nodes_detachAll_eq, List.filter_map]
    refine List.map_congr_left fun other kept => ?_
    have apart : other.id ≠ id := of_decide_eq_true (List.mem_filter.mp kept).2
    rw [← taken, severed_touching apart]
  refine ⟨((store.detachAll edges).dropNode id).emit (.nodeRemoved id), ?_, ?_⟩
  · have known : store.contains id = true := Graph.contains_iff.mpr ⟨node, found⟩
    simp only [removeNode, known, if_true, taken, cleared, returned]
  · exact congrArg₂ Graph.mk nodes_left edges_left

/-- What the removal of a node gives back and what it leaves. -/
structure Removes (before : Store) (id : String) (node removed : Node) (after : Store) : Prop where
  /-- The node is given back without the edges that ended in it. -/
  given_back : removed = node.severed (before.inbound id)
  /-- All nodes and edges that are left, in the order in which they were. -/
  left : after.toGraph = before.toGraph.without id
  gone : after.node? id = none
  unmentioned : ∀ edge ∈ after.edges, edge.touches id = false
  /-- Where an edge from the node ended, nothing is remembered, and there is no result. -/
  forgotten : ∀ edge ∈ before.edges, edge.source = id → ∃ handle target,
    edge.targetHandle = some handle ∧ after.node? edge.target = some target ∧
    (∀ held ∈ target.params.bound? handle, held = none) ∧
    target.data.output = none ∧ target.data.compiled = false
  spared : ∀ other, other ≠ id →
    (∀ edge ∈ before.edges, edge.source = id → edge.target ≠ other) →
      after.node? other = before.node? other
  /-- The id is free again, and a node that takes it comes without edges. -/
  free : ∀ again : Node, again.id = id → ∃ final, after.addNode again = (.ok (), final) ∧
    final.node? id = some again.fresh ∧ ∀ edge ∈ final.edges, edge.touches id = false

/-- Every node of a store that operations lead to can be removed. -/
theorem removeNode_removes {operations : List Operation}
    (found : (run operations).node? id = some node) : ∃ removed after,
      (run operations).removeNode id = (.ok removed, after) ∧
        (run operations).Removes id node removed after := by
  have sound := foldl_apply_wellFormed empty_wellFormed operations
  obtain ⟨after, done, left⟩ := removeNode_eq sound found
  have gone : after.node? id = none := by rw [left, Graph.node?_without_self]
  have unmentioned : ∀ edge ∈ after.edges, edge.touches id = false := by
    intro edge drawn
    rw [left, Graph.mem_edges_without] at drawn
    simpa [Edge.touches] using drawn.2
  refine ⟨_, after, done, rfl, left, gone, unmentioned, ?_, ?_, ?_⟩
  · rw [left]
    exact fun edge drawn source => Graph.forgets_without sound drawn source
  · rw [left]
    exact fun other apart away => Graph.node?_without_of_spared apart away
  · rintro again rfl
    have unused : after.contains again.id ≠ true := by simp [Graph.contains, gone]
    refine ⟨_, if_neg unused, ?_, unmentioned⟩
    change (after.nodes ++ [again.fresh]).find? (fun node => node.id = again.id) = _
    unfold Graph.node? at gone
    rw [List.find?_append, gone]
    simp [Node.fresh]

/-- A number goes into two products, one of which goes twice into a third. All are compiled. -/
def chained : List Operation := [
  .load {
    nodes := [
      { id := "v", params := .value (some 2.0) },
      { id := "m", params := .multiply none (some 3.0) },
      { id := "n", params := .multiply none none },
      { id := "p", params := .multiply none (some 5.0) }]
    edges := [
      ⟨"vm", "v", "m", none, some Handle.a⟩,
      ⟨"mn", "m", "n", none, some Handle.a⟩,
      ⟨"vp", "v", "p", none, some Handle.a⟩,
      ⟨"mn'", "m", "n", none, some Handle.b⟩] },
  .compile Registry.standard ["v", "m", "n", "p"]]

/-- Without the product in the middle the third one has lost its result, the other has not. -/
theorem removeNode_chained :
    (∀ id ∈ ["m", "n", "p"], ((run chained).node? id).map (·.data.compiled) = some true) ∧
    ∃ removed after target, (run chained).removeNode "m" = (.ok removed, after) ∧
      removed.data.compiled = false ∧ (removed.params == .multiply none (some 3.0)) = true ∧
      after.ids = ["v", "n", "p"] ∧ after.edges = [⟨"vp", "v", "p", none, some Handle.a⟩] ∧
      after.node? "n" = some target ∧ target.data.compiled = false ∧
      after.node? "p" = (run chained).node? "p" := by
  have compiled : ∀ id ∈ ["m", "n", "p"],
      ((run chained).node? id).map (·.data.compiled) = some true := by decide +kernel
  obtain ⟨node, found, _⟩ := Option.map_eq_some_iff.mp (compiled "m" (by decide))
  obtain ⟨removed, after, done, removes⟩ := removeNode_removes found
  have returned : ((run chained).node? "m").map (fun node =>
      let removed := node.severed ((run chained).inbound "m")
      !removed.data.compiled && removed.params == .multiply none (some 3.0)) = some true := by
    decide +kernel
  rw [found, Option.map_some, ← removes.given_back] at returned
  obtain ⟨dropped, fields⟩ := Bool.and_eq_true_iff.mp (Option.some.inj returned)
  have leaves : (⟨"mn", "m", "n", none, some Handle.a⟩ : Edge) ∈ (run chained).edges := by
    decide +kernel
  obtain ⟨_, target, _, into, _, _, lost⟩ := removes.forgotten _ leaves rfl
  refine ⟨compiled, removed, after, target, done, by simpa using dropped, fields, ?_, ?_, into,
    lost, removes.spared "p" (by decide) (by decide +kernel)⟩
  · rw [removes.left]
    decide +kernel
  · rw [removes.left]
    decide +kernel

end Store

end RecipeGraph
