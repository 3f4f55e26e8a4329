import RecipeGraph.Ancestry.Boundary
import RecipeGraph.Proofs.WellFormed
import Mathlib.Logic.Relation

/-!
# What the walk finds

The walk backwards from a node comes to exactly the nodes from which that node
can be reached. At every round the nodes that are marked and no longer in the
queue have all their sources marked, so nothing is left out at the end.
-/

namespace RecipeGraph

open Relation (ReflTransGen)

/-- One of the edges leads from the one node to the other. -/
def Linked (edges : List Edge) (source target : String) : Prop :=
  ∃ edge ∈ edges, edge.source = source ∧ edge.target = target

@[simp] theorem mem_newSources {marked : List String} {edges : List Edge} {id : String} :
    id ∈ newSources marked edges ↔ id ∉ marked ∧ ∃ edge ∈ edges, edge.source = id := by
  constructor
  · intro found
    exact ⟨not_mem_of_mem_newSources found, exists_edge_of_mem_newSources found⟩
  · rintro ⟨fresh, edge, member, rfl⟩
    revert fresh
    induction edges generalizing marked with
    | nil => cases member
    | cons first rest ih =>
      intro fresh
      unfold newSources
      by_cases old : first.source ∈ marked
      · rw [if_pos (List.contains_iff_mem.mpr old)]
        rcases List.mem_cons.mp member with rfl | later
        · exact (fresh old).elim
        · exact ih later fresh
      · rw [if_neg (fun again => old (List.contains_iff_mem.mp again))]
        by_cases same : edge.source = first.source
        · rw [same]
          exact List.mem_cons_self
        · rcases List.mem_cons.mp member with rfl | later
          · exact (same rfl).elim
          · refine List.mem_cons_of_mem _ (ih later ?_)
            exact fun again => (List.mem_cons.mp again).elim same fresh

/-- Only the sources of the edges matter. -/
theorem newSources_congr {left right : List Edge}
    (same : left.map (·.source) = right.map (·.source)) (marked : List String) :
    newSources marked left = newSources marked right := by
  induction left generalizing marked right with
  | nil =>
    cases right with
    | nil => rfl
    | cons edge rest => simp at same
  | cons edge rest ih =>
    cases right with
    | nil => simp at same
    | cons other others =>
      have source : edge.source = other.source := (List.cons.inj same).1
      have later := (List.cons.inj same).2
      unfold newSources
      rw [source, ih later, ih later]

namespace Graph

def Feeds (graph : Graph) : String → String → Prop :=
  Linked graph.edges

@[simp] theorem mem_newSources_inbound {graph : Graph} {marked : List String} {id source : String} :
    source ∈ newSources marked (graph.inbound id) ↔
      source ∉ marked ∧ graph.Feeds source id := by
  rw [mem_newSources]
  refine and_congr_right fun _ => ?_
  constructor
  · rintro ⟨edge, member, rfl⟩
    have into := List.mem_filter.mp member
    exact ⟨edge, into.1, rfl, by simpa using into.2⟩
  · rintro ⟨edge, member, rfl, into⟩
    exact ⟨edge, List.mem_filter.mpr ⟨member, by simpa using into⟩, rfl⟩

theorem exists_reaches_of_mem_walk {graph : Graph} {marked queue : List String} {id : String}
    (found : id ∈ graph.walk marked queue) :
    ∃ last ∈ queue, ReflTransGen graph.Feeds id last := by
  fun_induction walk graph marked queue with
  | case1 => cases found
  | case2 marked first rest sources ih =>
    rcases List.mem_cons.mp found with rfl | later
    · exact ⟨id, List.mem_cons_self, .refl⟩
    · obtain ⟨last, queued, reaches⟩ := ih later
      rcases List.mem_append.mp queued with old | new
      · exact ⟨last, List.mem_cons_of_mem _ old, reaches⟩
      · have feeds := (mem_newSources_inbound.mp new).2
        exact ⟨first, List.mem_cons_self, reaches.tail feeds⟩

/-- The walk comes to the queue and to nodes that were not marked. -/
theorem mem_queue_or_fresh_of_mem_walk {graph : Graph} {marked queue : List String} {id : String}
    (found : id ∈ graph.walk marked queue) : id ∈ queue ∨ id ∉ marked := by
  fun_induction walk graph marked queue with
  | case1 => cases found
  | case2 marked first rest sources ih =>
    rcases List.mem_cons.mp found with rfl | later
    · exact .inl List.mem_cons_self
    · rcases ih later with queued | fresh
      · rcases List.mem_append.mp queued with old | new
        · exact .inl (List.mem_cons_of_mem _ old)
        · exact .inr (mem_newSources_inbound.mp new).1
      · exact .inr fun old => fresh (List.mem_append_left _ old)

theorem nodup_walk {graph : Graph} {marked queue : List String} (once : queue.Nodup)
    (queued : ∀ id ∈ queue, id ∈ marked) : (graph.walk marked queue).Nodup := by
  fun_induction walk graph marked queue with
  | case1 => exact List.nodup_nil
  | case2 marked first rest sources ih =>
    obtain ⟨apart, rest_once⟩ := List.nodup_cons.mp once
    have fresh : ∀ id ∈ sources, id ∉ marked := fun id new =>
      (mem_newSources_inbound.mp new).1
    refine List.nodup_cons.mpr ⟨?_, ih ?_ ?_⟩
    · intro again
      rcases mem_queue_or_fresh_of_mem_walk again with queue | unmarked
      · rcases List.mem_append.mp queue with old | new
        · exact apart old
        · exact fresh first new (queued first List.mem_cons_self)
      · exact unmarked (List.mem_append_left _ (queued first List.mem_cons_self))
    · refine List.nodup_append.mpr ⟨rest_once, nodup_newSources _ _, ?_⟩
      rintro id old _ new rfl
      exact fresh id new (queued id (List.mem_cons_of_mem _ old))
    · intro id member
      rcases List.mem_append.mp member with old | new
      · exact List.mem_append_left _ (queued id (List.mem_cons_of_mem _ old))
      · exact List.mem_append_right _ new

theorem mem_walk_of_mem_queue {graph : Graph} {marked queue : List String} {id : String}
    (queued : id ∈ queue) : id ∈ graph.walk marked queue := by
  fun_induction walk graph marked queue with
  | case1 => cases queued
  | case2 marked first rest sources ih =>
    rcases List.mem_cons.mp queued with rfl | later
    · exact List.mem_cons_self
    · exact List.mem_cons_of_mem _ (ih (List.mem_append_left _ later))

/-- Nodes that are marked but no longer queued have all their sources marked. -/
def Explored (graph : Graph) (marked queue : List String) : Prop :=
  ∀ source target, graph.Feeds source target → target ∈ marked → target ∉ queue →
    source ∈ marked

theorem Explored.round {graph : Graph} {marked : List String} {id : String} {rest : List String}
    (explored : graph.Explored marked (id :: rest)) :
    graph.Explored (marked ++ newSources marked (graph.inbound id))
      (rest ++ newSources marked (graph.inbound id)) := by
  intro source target feeds known unqueued
  rw [List.mem_append] at known unqueued
  rw [not_or] at unqueued
  have old : target ∈ marked := known.resolve_right unqueued.2
  by_cases here : target = id
  · subst here
    by_cases before : source ∈ marked
    · exact List.mem_append_left _ before
    · exact List.mem_append_right _ (mem_newSources_inbound.mpr ⟨before, feeds⟩)
  · refine List.mem_append_left _ (explored source target feeds old fun queued => ?_)
    exact (List.mem_cons.mp queued).elim here unqueued.1

/-- What is marked, or found by the walk, contains the sources of its edges. -/
theorem closed_of_explored {graph : Graph} {marked queue : List String}
    (explored : graph.Explored marked queue) (queued : ∀ id ∈ queue, id ∈ marked)
    {source target : String} (feeds : graph.Feeds source target)
    (known : target ∈ marked ∨ target ∈ graph.walk marked queue) :
    source ∈ marked ∨ source ∈ graph.walk marked queue := by
  fun_induction walk graph marked queue with
  | case1 marked =>
    rcases known with old | found
    · exact .inl (explored source target feeds old (by simp))
    · cases found
  | case2 marked first rest sources ih =>
    have further := ih explored.round (by
      intro id member
      rcases List.mem_append.mp member with old | new
      · exact List.mem_append_left _ (queued id (List.mem_cons_of_mem _ old))
      · exact List.mem_append_right _ new) (by
      rcases known with old | found
      · exact .inl (List.mem_append_left _ old)
      · rcases List.mem_cons.mp found with rfl | later
        · exact .inl (List.mem_append_left _ (queued target List.mem_cons_self))
        · exact .inr later)
    rcases further with old | found
    · rcases List.mem_append.mp old with before | new
      · exact .inl before
      · refine .inr (List.mem_cons_of_mem _ (mem_walk_of_mem_queue ?_))
        exact List.mem_append_right _ new
    · exact .inr (List.mem_cons_of_mem _ found)

/-- The ancestry of a node are the nodes from which it can be reached. -/
theorem mem_ancestry {graph : Graph} {id member : String} :
    member ∈ graph.ancestry id ↔ ReflTransGen graph.Feeds member id := by
  constructor
  · intro found
    obtain ⟨last, queued, reaches⟩ := exists_reaches_of_mem_walk found
    rw [List.mem_singleton.mp queued] at reaches
    exact reaches
  · intro reaches
    have self : id ∈ graph.ancestry id := mem_walk_of_mem_queue List.mem_cons_self
    have explored : graph.Explored [id] [id] := fun _ _ _ known unqueued =>
      (unqueued known).elim
    induction reaches using Relation.ReflTransGen.head_induction_on with
    | refl => exact self
    | head feeds _ found =>
      rcases closed_of_explored explored (fun _ queued => queued) feeds (.inr found) with old | new
      · rw [List.mem_singleton.mp old]
        exact self
      · exact new

@[simp] theorem nodup_ancestry (graph : Graph) (id : String) : (graph.ancestry id).Nodup :=
  nodup_walk (List.nodup_singleton id) fun _ queued => queued

@[simp] theorem mem_ancestry_self (graph : Graph) (id : String) : id ∈ graph.ancestry id :=
  mem_ancestry.mpr .refl

theorem mem_ancestry_of_feeds {graph : Graph} {id source target : String}
    (feeds : graph.Feeds source target) (member : target ∈ graph.ancestry id) :
    source ∈ graph.ancestry id :=
  mem_ancestry.mpr (.head feeds (mem_ancestry.mp member))

theorem ancestry_eq_cons (graph : Graph) (id : String) :
    ∃ others, graph.ancestry id = id :: others := by
  unfold ancestry walk
  exact ⟨_, rfl⟩

/-- The walk sees nothing of the graph but the sources at each node it visits. -/
theorem walk_congr {left right : Graph} {marked queue : List String}
    (same : ∀ id ∈ left.walk marked queue,
      (left.inbound id).map (·.source) = (right.inbound id).map (·.source)) :
    left.walk marked queue = right.walk marked queue := by
  fun_induction walk left marked queue with
  | case1 => rw [walk]
  | case2 marked first rest sources ih =>
    have here : sources = newSources marked (right.inbound first) :=
      newSources_congr (same first List.mem_cons_self) marked
    rw [ih fun id found => same id (List.mem_cons_of_mem _ found)]
    conv_rhs => rw [walk]
    rw [here]

/-- The origins are the nodes of the walk that no edge ends in. -/
theorem origins_eq_filter (graph : Graph) (marked queue : List String) :
    graph.origins marked queue =
      (graph.walk marked queue).filter fun id => (graph.inbound id).isEmpty := by
  fun_induction origins graph marked queue with
  | case1 => rw [walk, List.filter_nil]
  | case2 marked first rest bare ih =>
    have nothing : newSources marked (graph.inbound first) = [] := by
      rw [List.isEmpty_iff.mp bare]
      rfl
    rw [walk, List.filter_cons, if_pos bare, nothing, List.append_nil, List.append_nil, ih]
  | case3 marked first rest bare sources ih =>
    rw [walk, List.filter_cons, if_neg bare, ih]

@[simp] theorem node_eq_ok {graph : Graph} {id : String} {node : Node} :
    graph.node id = .ok node ↔ graph.node? id = some node := by
  unfold Graph.node
  cases graph.node? id <;> simp

theorem nodesOf_eq_ok {graph : Graph} {ids : List String} {nodes : List Node} :
    graph.nodesOf ids = .ok nodes ↔ ids.map graph.node? = nodes.map some := by
  induction ids generalizing nodes with
  | nil => cases nodes <;> simp [nodesOf]
  | cons id rest ih =>
    unfold nodesOf
    rw [Outcome.bind_eq_ok]
    constructor
    · rintro ⟨node, found, read⟩
      obtain ⟨others, reached, made⟩ := Outcome.bind_eq_ok.mp read
      cases made
      rw [List.map_cons, List.map_cons, node_eq_ok.mp found, ih.mp reached]
    · intro same
      cases nodes with
      | nil => simp at same
      | cons node others =>
        obtain ⟨found, later⟩ := List.cons.inj same
        refine ⟨node, node_eq_ok.mpr found, ?_⟩
        rw [ih.mpr later]
        rfl

theorem ids_of_nodesOf {graph : Graph} {ids : List String} {nodes : List Node}
    (found : graph.nodesOf ids = .ok nodes) : nodes.map (·.id) = ids := by
  have same := nodesOf_eq_ok.mp found
  clear found
  induction ids generalizing nodes with
  | nil => cases nodes <;> simp at same ⊢
  | cons id rest ih =>
    cases nodes with
    | nil => simp at same
    | cons node others =>
      obtain ⟨here, later⟩ := List.cons.inj same
      rw [List.map_cons, ih later, id_of_node? here]

/-- The nodes are collected as they are stored. -/
theorem node?_of_mem_nodesOf {graph : Graph} {ids : List String} {nodes : List Node}
    (collected : graph.nodesOf ids = .ok nodes) {node : Node} (listed : node ∈ nodes) :
    graph.node? node.id = some node := by
  have there : some node ∈ ids.map graph.node? := by
    rw [nodesOf_eq_ok.mp collected]
    exact List.mem_map_of_mem listed
  obtain ⟨id, _, found⟩ := List.mem_map.mp there
  rw [id_of_node? found]
  exact found

/-- Fewer ids lead to fewer nodes, in the same order. -/
theorem nodesOf_filter {graph : Graph} {ids : List String} {nodes : List Node}
    (collected : graph.nodesOf ids = .ok nodes) (keep : String → Bool) :
    graph.nodesOf (ids.filter keep) = .ok (nodes.filter fun node => keep node.id) := by
  apply nodesOf_eq_ok.mpr
  rw [← ids_of_nodesOf collected, List.filter_map, List.map_map]
  refine List.map_congr_left fun node listed => ?_
  exact node?_of_mem_nodesOf collected (List.mem_filter.mp listed).1

theorem exists_nodesOf {graph : Graph} {ids : List String}
    (known : ∀ id ∈ ids, graph.contains id = true) :
    ∃ nodes, graph.nodesOf ids = .ok nodes := by
  refine ⟨ids.filterMap graph.node?, nodesOf_eq_ok.mpr ?_⟩
  induction ids with
  | nil => rfl
  | cons id rest ih =>
    obtain ⟨node, found⟩ := contains_iff.mp (known id List.mem_cons_self)
    rw [List.filterMap_cons_some found, List.map_cons, List.map_cons, found,
      ih fun id member => known id (List.mem_cons_of_mem _ member)]

theorem boundary_of_unplugged {graph : Graph} {id handle : String} {node : Node}
    (found : graph.node? id = some node) (nothing : graph.inputNode? id handle = none) :
    graph.boundary id handle = .ok none := by
  unfold boundary
  rw [node_eq_ok.mpr found, nothing]
  rfl

theorem boundary_of_plugged {graph : Graph} {id handle : String} {node output : Node}
    {inputs : List Node} (found : graph.node? id = some node)
    (plugged : graph.inputNode? id handle = some output)
    (collected : graph.nodesOf (graph.origins [output.id] [output.id]) = .ok inputs) :
    graph.boundary id handle = .ok (some ⟨inputs, output⟩) := by
  unfold boundary
  rw [node_eq_ok.mpr found, plugged]
  simp only [collected]
  rfl

/-- Whatever feeds a node of a well-formed graph is one of its nodes. -/
theorem contains_of_reaches {graph : Graph} (sound : graph.WellFormed) {id member : String}
    (known : graph.contains id = true) (reaches : ReflTransGen graph.Feeds member id) :
    graph.contains member = true := by
  cases reaches using Relation.ReflTransGen.head_induction_on with
  | refl => exact known
  | head feeds _ =>
    obtain ⟨edge, drawn, rfl, _⟩ := feeds
    obtain ⟨_, source, _, found, _⟩ := sound.carried edge drawn
    exact contains_iff.mpr ⟨source, found⟩

theorem exists_connected {graph : Graph} (sound : graph.WellFormed) {id : String}
    (known : graph.contains id = true) :
    ∃ nodes, graph.connected id = .ok nodes ∧ nodes.map (·.id) = graph.ancestry id := by
  have all : ∀ member ∈ graph.ancestry id, graph.contains member = true :=
    fun member found => contains_of_reaches sound known (mem_ancestry.mp found)
  obtain ⟨nodes, found⟩ := exists_nodesOf all
  exact ⟨nodes, found, ids_of_nodesOf found⟩

/-- In a well-formed graph everything that an existing node depends on is found. -/
theorem connectedIds_eq_ok {graph : Graph} (sound : graph.WellFormed) {id : String}
    (known : graph.contains id = true) : graph.connectedIds id = .ok (graph.ancestry id) := by
  obtain ⟨nodes, found, ids⟩ := exists_connected sound known
  unfold connectedIds
  rw [found]
  exact congrArg Except.ok ids

theorem connectedIds_of_missing {graph : Graph} {id : String} (missing : graph.node? id = none) :
    graph.connectedIds id = .error (.nodeNotFound id) := by
  obtain ⟨others, start⟩ := ancestry_eq_cons graph id
  unfold connectedIds connected
  rw [start, nodesOf, node, missing]
  rfl

end Graph

end RecipeGraph
