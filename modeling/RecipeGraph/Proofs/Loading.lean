import RecipeGraph.Proofs.Lasting
import RecipeGraph.Proofs.Upstream

/-!
# What a load accepts and keeps

A load draws the edges of a graph one after the other, as if by hand. Whether an edge is
allowed depends on the nodes alone, so each one is judged by itself. An edge makes room for
every later one that has its id or ends in its handle, and it stays gone if that one has to
make room in turn. What is left is what no later edge of the graph displaces.
-/

namespace RecipeGraph

/-- The literals that have come to the handles of nodes, where anything has. -/
abbrev Arrivals := String → String → Option (Option Float)

/-- The literal has come to the handle in which the edge ends. -/
def Arrivals.set (arrivals : Arrivals) (edge : Edge) (literal : Option Float) : Arrivals :=
  fun id handle => if edge.occupies id (some handle) then some literal else arrivals id handle

/-- Nothing is left to remember where an edge ended that is gone. -/
@[simp]
theorem Arrivals.foldl_set_none (gone : List Edge) (arrivals : Arrivals) (id handle : String) :
    gone.foldl (fun reached edge => reached.set edge none) arrivals id handle =
      if gone.any (·.occupies id (some handle)) then some none else arrivals id handle := by
  induction gone generalizing arrivals with
  | nil => rfl
  | cons edge rest ih =>
    rw [List.foldl_cons, ih, Arrivals.set, List.any_cons]
    by_cases here : edge.occupies id (some handle) = true <;> simp [here]

namespace NodeParams

/-- The fields with the literals that have come to their handles. -/
def supplied (params : NodeParams) (arrived : String → Option (Option Float)) : NodeParams :=
  match params with
  | .multiply a b => .multiply ((arrived Handle.a).getD a) ((arrived Handle.b).getD b)
  | other => other

@[simp]
theorem kind_supplied (params : NodeParams) (arrived : String → Option (Option Float)) :
    (params.supplied arrived).kind = params.kind := by
  cases params <;> rfl

@[simp]
theorem literal_supplied (params : NodeParams) (arrived : String → Option (Option Float)) :
    (params.supplied arrived).literal = params.literal := by
  cases params <;> rfl

@[simp]
theorem supplied_nothing (params : NodeParams) : params.supplied (fun _ => none) = params := by
  cases params <;> rfl

@[simp]
theorem literal_bind (params : NodeParams) (handle : String) (literal : Option Float) :
    (params.bind handle literal).literal = params.literal := by
  cases params with
  | multiply a b =>
    simp only [bind]
    split
    · rfl
    · split <;> rfl
  | _ => rfl

@[simp] theorem bind_supplied (params : NodeParams) (arrived : String → Option (Option Float))
    (handle : String) (literal : Option Float) :
    (params.supplied arrived).bind handle literal =
      params.supplied fun other => if handle = other then some literal else arrived other := by
  cases params with
  | multiply a b =>
    have apart : Handle.b ≠ Handle.a := by decide
    by_cases first : handle = Handle.a
    · simp [supplied, bind, first, apart.symm]
    · by_cases second : handle = Handle.b
      · simp [supplied, bind, second, apart]
      · simp [supplied, bind, first, second]
  | _ => rfl

end NodeParams

namespace Node

/-- The node with nothing left on it and the literals that have come to its handles. -/
def supplied (arrivals : Arrivals) (node : Node) : Node :=
  { node.fresh with params := node.params.supplied (arrivals node.id) }

@[simp]
theorem id_supplied (arrivals : Arrivals) (node : Node) : (node.supplied arrivals).id = node.id :=
  rfl

@[simp]
theorem kind_supplied (arrivals : Arrivals) (node : Node) :
    (node.supplied arrivals).kind = node.kind :=
  NodeParams.kind_supplied _ _

/-- Another literal comes to a handle. -/
theorem bind_supplied (arrivals : Arrivals) {node : Node} {edge : Edge} {handle : String}
    (named : edge.targetHandle = some handle) (into : node.id = edge.target)
    (literal : Option Float) :
    (node.supplied arrivals).bind handle literal = node.supplied (arrivals.set edge literal) := by
  have fields := NodeParams.bind_supplied node.params (arrivals node.id) handle literal
  have set : (fun other => if handle = other then some literal else arrivals node.id other) =
      arrivals.set edge literal node.id := by
    funext other
    simp [Arrivals.set, Edge.occupies, named, into]
  rw [set] at fields
  simp only [Node.bind, Node.supplied, fields]

@[simp] theorem supplied_of_away (arrivals : Arrivals) {node : Node} {edge : Edge}
    (away : node.id ≠ edge.target) (literal : Option Float) :
    node.supplied (arrivals.set edge literal) = node.supplied arrivals := by
  have set : arrivals.set edge literal node.id = arrivals node.id := by
    funext other
    simp [Arrivals.set, Edge.occupies, Ne.symm away]
  simp [supplied, set]

end Node

namespace Edge

/-- The edges that none of the later ones displaces. -/
def undisplaced : List Edge → List Edge
  | [] => []
  | edge :: later =>
    if later.any edge.yieldsTo then undisplaced later else edge :: undisplaced later

/-- One more edge displaces some of those that were left and is left itself. -/
@[simp] theorem undisplaced_append (edges : List Edge) (last : Edge) :
    undisplaced (edges ++ [last]) =
      (undisplaced edges).filter (fun edge => !edge.yieldsTo last) ++ [last] := by
  induction edges with
  | nil => rfl
  | cons edge later ih =>
    by_cases displaced : later.any edge.yieldsTo = true
    · simp [undisplaced, displaced, ih]
    · by_cases yields : edge.yieldsTo last = true <;> simp [undisplaced, displaced, yields, ih]

@[simp] theorem undisplaced_sublist (edges : List Edge) : (undisplaced edges).Sublist edges := by
  induction edges with
  | nil => exact List.Sublist.refl _
  | cons edge later ih =>
    unfold undisplaced
    split
    · exact ih.cons edge
    · exact ih.cons_cons edge

theorem pairwise_undisplaced (edges : List Edge) :
    (undisplaced edges).Pairwise fun edge later => edge.yieldsTo later = false := by
  induction edges with
  | nil => exact List.Pairwise.nil
  | cons edge later ih =>
    unfold undisplaced
    split
    · exact ih
    · next stays =>
      refine List.pairwise_cons.mpr ⟨fun other left => ?_, ih⟩
      have listed := (undisplaced_sublist later).subset left
      exact Bool.eq_false_iff.mpr fun yields => stays (List.any_eq_true.mpr ⟨other, listed, yields⟩)

@[simp] theorem ids_undisplaced (edges : List Edge) : ((undisplaced edges).map (·.id)).Nodup := by
  refine List.pairwise_map.mpr ((pairwise_undisplaced edges).imp fun stays same => ?_)
  simp [yieldsTo, same] at stays

section Occupants

variable {edges : List Edge} {edge : Edge} {id : String} {handle : Option String}

/-- At most one of the edges that are left ends in a handle. -/
theorem find?_undisplaced_eq_some_iff {left : List Edge}
    (among : left.Sublist (undisplaced edges)) :
    left.find? (·.occupies id handle) = some edge ↔
      edge ∈ left ∧ edge.occupies id handle = true := by
  have ports : (left.map fun edge => (edge.target, edge.targetHandle)).Nodup := by
    have apart := (pairwise_undisplaced edges).sublist among
    refine List.pairwise_map.mpr (apart.imp fun stays same => ?_)
    obtain ⟨into, named⟩ := Prod.mk.inj same
    simp [yieldsTo, occupies, into, named] at stays
  constructor
  · intro found
    have here := List.find?_some found
    exact ⟨List.mem_of_find?_eq_some found, here⟩
  · rintro ⟨member, here⟩
    cases found : left.find? (·.occupies id handle) with
    | none => exact absurd here (List.find?_eq_none.mp found edge member)
    | some other =>
      have here' := List.find?_some found
      obtain ⟨into, named⟩ := occupies_iff.mp here
      obtain ⟨into', named'⟩ := occupies_iff.mp here'
      exact congrArg some (List.inj_on_of_nodup_map ports (List.mem_of_find?_eq_some found) member
        (Prod.ext (into'.trans into.symm) (named'.trans named.symm)))

@[simp] theorem find?_undisplaced_filter (stays : Edge → Bool) :
    ((undisplaced edges).filter stays).find? (·.occupies id handle) =
      ((undisplaced edges).find? (·.occupies id handle)).filter stays := by
  refine Option.ext fun edge => ?_
  rw [find?_undisplaced_eq_some_iff List.filter_sublist, List.mem_filter, Option.filter_eq_some_iff,
    find?_undisplaced_eq_some_iff (List.Sublist.refl _)]
  exact and_right_comm

end Occupants

end Edge

namespace Graph

/-- The number that a node of the graph hands on. -/
def literal? (graph : Graph) (id : String) : Option (Option Float) :=
  (graph.node? id).map (·.params.literal)

theorem node?_supplied {graph : Graph} {given : List Node} {arrivals : Arrivals}
    (same : graph.nodes = given.map (Node.supplied arrivals)) (id : String) :
    graph.node? id = (node? ⟨given, []⟩ id).map (Node.supplied arrivals) := by
  unfold node?
  rw [same, List.find?_map]
  rfl

theorem literal?_supplied {graph : Graph} {given : List Node} {arrivals : Arrivals}
    (same : graph.nodes = given.map (Node.supplied arrivals)) (id : String) :
    graph.literal? id = literal? ⟨given, []⟩ id := by
  unfold literal?
  rw [node?_supplied same, Option.map_map]
  congr 1
  funext node
  exact NodeParams.literal_supplied _ _

/-- The edge with the default handle of its target, if it names none. -/
def normal (graph : Graph) (edge : Edge) : Edge :=
  { edge with
    targetHandle := edge.targetHandle <|> (graph.kind? edge.target).bind NodeKind.defaultHandle }

/-- All edges as a load draws them. -/
def drawn (graph : Graph) : List Edge :=
  graph.edges.map graph.normal

def kept (graph : Graph) : List Edge :=
  Edge.undisplaced graph.drawn

/-- What a load brings to the handles: the literal of what is plugged in when all edges are
drawn, and nothing to remember where only edges ended that have been displaced. -/
def brought (graph : Graph) : Arrivals := fun id handle =>
  match graph.kept.find? (·.occupies id (some handle)) with
  | some edge => graph.literal? edge.source
  | none => if graph.drawn.any (·.occupies id (some handle)) then some none else none

theorem brought_of_mem {graph : Graph} {edge : Edge} {id handle : String}
    (left : edge ∈ graph.kept) (here : edge.occupies id (some handle) = true) :
    graph.brought id handle = graph.literal? edge.source := by
  have found : graph.kept.find? (·.occupies id (some handle)) = some edge :=
    (Edge.find?_undisplaced_eq_some_iff (List.Sublist.refl _)).mpr ⟨left, here⟩
  unfold brought
  rw [found]

/-- The graph as a load leaves it. -/
def settled (graph : Graph) : Graph where
  nodes := graph.nodes.map (Node.supplied graph.brought)
  edges := graph.kept

section Brought

variable {nodes : List Node} {earlier : List Edge} {edge : Edge} {id handle : String}

theorem drawn_append : drawn ⟨nodes, earlier ++ [edge]⟩ =
    drawn ⟨nodes, earlier⟩ ++ [normal ⟨nodes, earlier⟩ edge] := by
  simp only [drawn, List.map_append]
  rfl

theorem kept_append : kept ⟨nodes, earlier ++ [edge]⟩ =
    (kept ⟨nodes, earlier⟩).filter
      (fun other => !other.yieldsTo (normal ⟨nodes, earlier⟩ edge)) ++
        [normal ⟨nodes, earlier⟩ edge] := by
  rw [kept, drawn_append, Edge.undisplaced_append]
  rfl

/-- What one more edge brings, and what goes with the edges that make room for it. -/
theorem brought_append {literal : Option Float}
    (source : literal? ⟨nodes, earlier⟩ edge.source = some literal) :
    brought ⟨nodes, earlier ++ [edge]⟩ =
      (((kept ⟨nodes, earlier⟩).filter (·.yieldsTo (normal ⟨nodes, earlier⟩ edge))).foldl
        (fun reached gone => reached.set gone none) (brought ⟨nodes, earlier⟩)).set
          (normal ⟨nodes, earlier⟩ edge) literal := by
  generalize named : normal ⟨nodes, earlier⟩ edge = last
  have source' : literal? ⟨nodes, earlier ++ [edge]⟩ last.source = some literal := by
    rw [← named]
    exact source
  funext id handle
  have gone : ((kept ⟨nodes, earlier⟩).filter (·.yieldsTo last)).any (·.occupies id (some handle)) =
      (((kept ⟨nodes, earlier⟩).find? (·.occupies id (some handle))).filter
        (·.yieldsTo last)).isSome := by
    rw [← List.isSome_find?]
    exact congrArg _ (Edge.find?_undisplaced_filter _)
  have stayed : ((kept ⟨nodes, earlier⟩).filter fun other => !other.yieldsTo last).find?
      (·.occupies id (some handle)) =
        ((kept ⟨nodes, earlier⟩).find? (·.occupies id (some handle))).filter
          fun other => !other.yieldsTo last :=
    Edge.find?_undisplaced_filter _
  rw [Arrivals.set, Arrivals.foldl_set_none, gone]
  unfold brought
  rw [kept_append, drawn_append, List.any_append, List.find?_append, named, stayed]
  cases found : (kept ⟨nodes, earlier⟩).find? (·.occupies id (some handle)) with
  | none =>
    by_cases here : last.occupies id (some handle) = true
    · simp [here, source']
    · simp [here]
  | some other =>
    have listed := (Edge.undisplaced_sublist _).subset (List.mem_of_find?_eq_some found)
    have occupies := List.find?_some found
    have used : (drawn ⟨nodes, earlier⟩).any (·.occupies id (some handle)) = true :=
      List.any_eq_true.mpr ⟨other, listed, occupies⟩
    by_cases here : last.occupies id (some handle) = true
    · -- Both end in the handle, so the one that was there makes room.
      have yields : other.yieldsTo last = true := by
        have ends := Edge.occupies_iff.mp occupies
        have ends' := Edge.occupies_iff.mp here
        simp [Edge.yieldsTo, Edge.occupies, ends, ends']
      simp [here, yields, Option.filter_some, source']
    · by_cases yields : other.yieldsTo last = true
      · simp [here, yields, used, Option.filter_some]
      · simp [here, yields, Option.filter_some]
        rfl

end Brought

end Graph

namespace Store

open RecipeGraph.Graph (WellFormed)

variable {store : Store} {given : List Node} {arrivals : Arrivals}

theorem nodes_reset (same : store.nodes = given.map (Node.supplied arrivals)) (id : String) :
    (store.reset id).nodes = given.map (Node.supplied arrivals) := by
  unfold reset
  split
  · simp only [emit, modifyNode, same, List.map_map]
    refine List.map_congr_left fun node _ => ?_
    by_cases here : node.id = id <;> simp [here, Node.uncompiled, Node.supplied, Node.fresh]
  · exact same

/-- A literal comes to a handle, and the node is not compiled any longer. -/
theorem nodes_bindHandle_reset (same : store.nodes = given.map (Node.supplied arrivals))
    (edge : Edge) (literal : Option Float) :
    ((store.bindHandle edge literal).reset edge.target).nodes =
      given.map (Node.supplied (arrivals.set edge literal)) := by
  apply nodes_reset
  cases named : edge.targetHandle with
  | none =>
    have set : arrivals.set edge literal = arrivals := by
      funext id handle
      simp [Arrivals.set, Edge.occupies, named]
    simp only [bindHandle, named, set, same]
  | some handle =>
    simp only [bindHandle, named, modifyNode, same, List.map_map]
    refine List.map_congr_left fun node _ => ?_
    by_cases into : node.id = edge.target
    · simp [into, Node.bind_supplied arrivals named into]
    · simp [into, Node.supplied_of_away arrivals into]

theorem nodes_detachAll (same : store.nodes = given.map (Node.supplied arrivals))
    (gone : List Edge) : (store.detachAll gone).nodes = given.map
      (Node.supplied (gone.foldl (fun reached edge => reached.set edge none) arrivals)) := by
  induction gone generalizing store arrivals with
  | nil => exact same
  | cons edge rest ih =>
    have dropped : (store.dropEdge edge.id).nodes = given.map (Node.supplied arrivals) := same
    have detached : (store.detach edge).nodes =
        given.map (Node.supplied (arrivals.set edge none)) :=
      nodes_bindHandle_reset dropped edge none
    exact ih detached

/-- Edges that make room take their literals along, and the new one brings its own. -/
theorem nodes_place (same : store.nodes = given.map (Node.supplied arrivals)) (edge : Edge)
    (literal : Option Float) :
    (store.place edge literal).nodes = given.map (Node.supplied
      (((store.edges.filter (·.yieldsTo edge)).foldl (fun reached gone => reached.set gone none)
        arrivals).set edge literal)) :=
  nodes_bindHandle_reset (nodes_detachAll same _) edge literal
theorem exists_addNodes {nodes : List Node} (once : (store.ids ++ nodes.map (·.id)).Nodup) :
    ∃ after, store.addNodes nodes = (.ok (), after) := by
  induction nodes generalizing store with
  | nil => exact ⟨store, rfl⟩
  | cons node rest ih =>
    have apart := List.nodup_append.mp once
    have absent : store.contains node.id = false := by
      apply Bool.eq_false_iff.mpr
      intro known
      obtain ⟨other, found⟩ := Graph.contains_iff.mp known
      have listed : node.id ∈ store.ids :=
        List.mem_map.mpr ⟨other, Graph.mem_of_node? found, Graph.id_of_node? found⟩
      exact apart.2.2 _ listed _ List.mem_cons_self rfl
    simp only [addNodes, addNode, absent]
    apply ih
    simpa [Graph.ids, emit, Node.fresh] using once

theorem addNodes_of_ok {nodes : List Node} {after : Store}
    (done : store.addNodes nodes = (.ok (), after)) :
    after.nodes = store.nodes ++ nodes.map Node.fresh ∧ after.edges = store.edges := by
  induction nodes generalizing store with
  | nil =>
    cases done
    simp
  | cons node rest ih =>
    simp only [addNodes, addNode] at done
    split at done
    · next added =>
      split at added
      · cases added
      · cases added
        obtain ⟨nodes, edges⟩ := ih done
        refine ⟨?_, edges⟩
        rw [nodes]
        simp [emit]
    · cases done

theorem nodes_of_addNodes {nodes : List Node} {after : Store}
    (done : empty.addNodes nodes = (.ok (), after)) :
    after.nodes = nodes.map (Node.supplied fun _ _ => none) ∧ after.edges = [] := by
  obtain ⟨listed, edges⟩ := addNodes_of_ok done
  refine ⟨?_, edges⟩
  rw [listed]
  simp [empty, Node.supplied, Node.fresh]

theorem kind?_supplied (same : store.nodes = given.map (Node.supplied arrivals)) (id : String) :
    store.kind? id = Graph.kind? ⟨given, []⟩ id := by
  rw [Graph.kind?, Graph.kind?, Graph.node?_supplied same, Option.map_map]
  congr 1
  funext node
  exact Node.kind_supplied _ _

section Drawing

variable {earlier rest : List Edge} {edge drawn : Edge} {after : Store}

/-- An edge that is drawn was allowed by the nodes that were given, and the store behind it is
settled again. -/
theorem connect_settled (settled : store.toGraph = Graph.settled ⟨given, earlier⟩)
    (done : store.connect edge.connection (some edge.id) = (.ok drawn, after)) :
    Graph.Carries ⟨given, []⟩ edge ∧ after.toGraph = Graph.settled ⟨given, earlier ++ [edge]⟩ := by
  have nodes : store.nodes = given.map (Node.supplied (Graph.brought ⟨given, earlier⟩)) :=
    congrArg Graph.nodes settled
  have edges : store.edges = Graph.kept ⟨given, earlier⟩ := congrArg Graph.edges settled
  obtain ⟨source, target, sourced, targeted, feeds, rfl, rfl⟩ := connect_of_ok done
  have carries : store.Carries edge := Graph.carries_of_mayFeed sourced targeted feeds
  refine ⟨carries.congr (kind?_supplied nodes _).symm (kind?_supplied nodes _).symm, ?_⟩
  have literal : Graph.literal? ⟨given, earlier⟩ edge.source = some source.params.literal :=
    (Graph.literal?_supplied nodes edge.source).symm.trans (congrArg (Option.map _) sourced)
  have kind : Graph.kind? ⟨given, earlier⟩ edge.target = some target.kind :=
    (kind?_supplied nodes edge.target).symm.trans (congrArg (Option.map _) targeted)
  have normal : (edge.connection.withHandle target.kind).toEdge edge.id =
      Graph.normal ⟨given, earlier⟩ edge := by
    rw [Graph.normal, kind]
    rfl
  have once : (store.edges.map (·.id)).Nodup := by
    rw [edges]
    exact Edge.ids_undisplaced _
  have placed := nodes_place nodes (Graph.normal ⟨given, earlier⟩ edge) source.params.literal
  have room := edges_place once (Graph.normal ⟨given, earlier⟩ edge) source.params.literal
  rw [edges, ← Graph.brought_append literal] at placed
  rw [edges, ← Graph.kept_append] at room
  rw [Option.getD_some, normal]
  exact congrArg₂ Graph.mk placed room

/-- An edge that the given nodes allow is drawn. -/
theorem exists_connect (settled : store.toGraph = Graph.settled ⟨given, earlier⟩)
    (carries : Graph.Carries ⟨given, []⟩ edge) :
    ∃ drawn after, store.connect edge.connection (some edge.id) = (.ok drawn, after) := by
  have nodes : store.nodes = given.map (Node.supplied (Graph.brought ⟨given, earlier⟩)) :=
    congrArg Graph.nodes settled
  obtain ⟨_, source, target, sourced, targeted, feeds⟩ :=
    carries.congr (kind?_supplied nodes _) (kind?_supplied nodes _)
  simp only [connect, Edge.connection, sourced, targeted, feeds, if_true]
  exact ⟨_, _, rfl⟩

theorem addEdges_settled (settled : store.toGraph = Graph.settled ⟨given, earlier⟩)
    (done : store.addEdges rest = (.ok (), after)) :
    (∀ edge ∈ rest, Graph.Carries ⟨given, []⟩ edge) ∧
      after.toGraph = Graph.settled ⟨given, earlier ++ rest⟩ := by
  induction rest generalizing store earlier with
  | nil =>
    cases done
    exact ⟨fun _ member => (List.not_mem_nil member).elim, by simpa using settled⟩
  | cons edge rest ih =>
    unfold addEdges at done
    split at done
    · next drawn next connected =>
      obtain ⟨carries, settled'⟩ := connect_settled settled connected
      obtain ⟨carried, left⟩ := ih settled' done
      exact ⟨List.forall_mem_cons.mpr ⟨carries, carried⟩, by simpa using left⟩
    · cases done

theorem exists_addEdges (settled : store.toGraph = Graph.settled ⟨given, earlier⟩)
    (carried : ∀ edge ∈ rest, Graph.Carries ⟨given, []⟩ edge) :
    ∃ after, store.addEdges rest = (.ok (), after) := by
  induction rest generalizing store earlier with
  | nil => exact ⟨store, rfl⟩
  | cons edge rest ih =>
    obtain ⟨carries, others⟩ := List.forall_mem_cons.mp carried
    obtain ⟨drawn, next, connected⟩ := exists_connect settled carries
    simp only [addEdges, connected]
    exact ih (connect_settled settled connected).2 others

end Drawing

variable {graph : Graph} {built : Store}

theorem bare_settled {bare : Store} (added : empty.addNodes graph.nodes = (.ok (), bare)) :
    bare.toGraph = Graph.settled ⟨graph.nodes, []⟩ := by
  obtain ⟨nodes, edges⟩ := nodes_of_addNodes added
  exact congrArg₂ Graph.mk nodes edges

theorem build_of_ok (done : build graph = (.ok (), built)) :
    graph.ids.Nodup ∧ (∀ edge ∈ graph.edges, graph.Carries edge) ∧
      built.toGraph = graph.settled := by
  unfold build at done
  split at done
  · next bare added =>
    have once : bare.ids.Nodup := by
      have sound := addNodes_wellFormed empty_wellFormed graph.nodes
      rw [added] at sound
      exact sound.nodes_once
    have same : bare.ids = graph.ids := by
      have settled := bare_settled added
      simp only [Graph.ids, settled, Graph.settled, List.map_map]
      rfl
    obtain ⟨carried, settled⟩ := addEdges_settled (bare_settled added) done
    exact ⟨same ▸ once, carried, settled⟩
  · cases done

theorem exists_build (once : graph.ids.Nodup) (carried : ∀ edge ∈ graph.edges, graph.Carries edge) :
    ∃ built, build graph = (.ok (), built) := by
  obtain ⟨bare, added⟩ := @exists_addNodes empty graph.nodes (by
    simpa [Graph.ids, empty] using once)
  simp only [build, added]
  exact exists_addEdges (bare_settled added) carried

theorem load_of_build (done : build graph = (.ok (), built)) (receiver : Store) :
    ∃ after, receiver.load graph = (.ok (), after) ∧ after.toGraph = built.toGraph := by
  simp only [load, done]
  exact ⟨_, rfl, rfl⟩

/-- A load succeeds exactly if no two nodes share an id and each edge, taken by itself, names
two nodes of the graph that may be joined by its handles. The edges, each with its own id and
into the default handle where it names none, then stay in their order, but for those that a
later one displaces. Nodes are as given, with nothing left on them, and fields remember the
literal of what is plugged in, or none where all edges have been displaced. -/
theorem load_iff_and_keeps_undisplaced (store : Store) (graph : Graph) :
    ((∃ after, store.load graph = (.ok (), after)) ↔
      graph.ids.Nodup ∧ ∀ edge ∈ graph.edges, ∃ source target,
        graph.node? edge.source = some source ∧ graph.node? edge.target = some target ∧
          source.mayFeed target edge.sourceHandle edge.targetHandle = true) ∧
    ∀ after, store.load graph = (.ok (), after) →
      after.edges = Edge.undisplaced (graph.edges.map graph.normal) ∧
        after.nodes = graph.nodes.map fun node => {
          id := node.id
          params := node.params.supplied (graph.brought node.id)
          position := node.position
          data := {} } := by
  refine ⟨⟨?_, ?_⟩, ?_⟩
  · rintro ⟨after, done⟩
    obtain ⟨built, made, _⟩ := load_of_ok done
    obtain ⟨once, carried, _⟩ := build_of_ok made
    exact ⟨once, fun edge listed => (carried edge listed).2⟩
  · rintro ⟨once, allowed⟩
    obtain ⟨built, made⟩ := exists_build once fun edge listed => by
      obtain ⟨source, target, sourced, targeted, feeds⟩ := allowed edge listed
      exact Graph.carries_of_mayFeed sourced targeted feeds
    obtain ⟨after, done, _⟩ := load_of_build made store
    exact ⟨after, done⟩
  · intro after done
    obtain ⟨built, made, same⟩ := load_of_ok done
    obtain ⟨_, _, settled⟩ := build_of_ok made
    rw [same, settled]
    exact ⟨rfl, rfl⟩

/-- The first edge has to make room for the second, which shares its id with the third, and
that one's handle is taken by the last. -/
def contested : Graph where
  nodes := [
    { id := "v", params := .value (some 2.0) },
    { id := "w", params := .value (some 3.0) },
    { id := "m", params := .multiply (some 5.0) (some 7.0) },
    { id := "n", params := .multiply (some 5.0) (some 7.0) }]
  edges := [
    ⟨"e", "v", "m", none, some Handle.a⟩,
    ⟨"f", "w", "m", none, some Handle.a⟩,
    ⟨"f", "w", "n", none, some Handle.b⟩,
    ⟨"g", "v", "n", none, some Handle.b⟩]

/-- Only the last edge is left. -/
theorem load_contested (store : Store) :
    ∃ after, store.load contested = (.ok (), after) ∧
      after.edges = [⟨"g", "v", "n", none, some Handle.b⟩] ∧
      (after.node? "m").map (·.params == .multiply none (some 7.0)) = some true ∧
      (after.node? "n").map (·.params == .multiply (some 5.0) (some 2.0)) = some true := by
  have allowed : ∀ edge ∈ contested.edges, ∃ source target,
      contested.node? edge.source = some source ∧ contested.node? edge.target = some target ∧
        source.mayFeed target edge.sourceHandle edge.targetHandle = true := by
    have joins : ∀ edge ∈ contested.edges,
        ((contested.node? edge.source).bind fun source =>
          (contested.node? edge.target).map fun target =>
            source.mayFeed target edge.sourceHandle edge.targetHandle) = some true := by
      decide +kernel
    intro edge listed
    obtain ⟨source, sourced, joined⟩ := Option.bind_eq_some_iff.mp (joins edge listed)
    obtain ⟨target, targeted, feeds⟩ := Option.map_eq_some_iff.mp joined
    exact ⟨source, target, sourced, targeted, feeds⟩
  obtain ⟨after, done⟩ := (load_iff_and_keeps_undisplaced store contested).1.mpr
    ⟨by decide +kernel, allowed⟩
  obtain ⟨edges, nodes⟩ := (load_iff_and_keeps_undisplaced store contested).2 after done
  refine ⟨after, done, edges.trans (by decide +kernel), ?_, ?_⟩
  · rw [Graph.node?, nodes]
    decide +kernel
  · rw [Graph.node?, nodes]
    decide +kernel

end Store

end RecipeGraph
