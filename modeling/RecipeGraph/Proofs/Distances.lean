import RecipeGraph.Proofs.Editing
import RecipeGraph.Proofs.Reachability
import Mathlib.Order.Bounds.Basic

/-!
# The walk goes from near to far

The queue of the walk holds nodes at one distance and, behind them, nodes that are one
step further away. By the time the nearer ones are gone, everything at their distance has
been marked, so the walk lists what leads to a node in the order of distance.
-/

namespace RecipeGraph.Graph

open Relation (ReflTransGen)

variable {graph : Graph} {root id source target : String} {distance steps : Nat}
  {marked near far : List String}

/-- So many edges lead from the node to the root, each from where the one before it ends. -/
inductive LeadsIn (graph : Graph) (root : String) : Nat → String → Prop
  | here : LeadsIn graph root 0 root
  | further {steps : Nat} {source target : String} (feeds : graph.Feeds source target)
      (later : LeadsIn graph root steps target) : LeadsIn graph root (steps + 1) source

/-- Number of edges on a shortest way from the node to the root. -/
def IsDistance (graph : Graph) (root id : String) : Nat → Prop :=
  IsLeast { steps | graph.LeadsIn root steps id }

@[simp] theorem isDistance_root (graph : Graph) (root : String) : graph.IsDistance root root 0 :=
  ⟨.here, fun _ _ => Nat.zero_le _⟩

/-- The walk stands between two distances: its queue are nodes at the one and then nodes at
the next, and it has marked all that is no further away than the first. -/
structure Level (graph : Graph) (root : String) (distance : Nat) (marked near far : List String) :
    Prop where
  close : ∀ id ∈ near, graph.IsDistance root id distance
  beyond : ∀ id ∈ far, graph.IsDistance root id (distance + 1)
  within : ∀ steps id, graph.LeadsIn root steps id → steps ≤ distance → id ∈ marked
  explored : graph.Explored marked (near ++ far)

namespace Level

theorem start (graph : Graph) (root : String) : graph.Level root 0 [root] [root] [] where
  close id queued := by
    rw [List.mem_singleton.mp queued]
    exact isDistance_root graph root
  beyond _ none := nomatch none
  within steps id leads few := by
    cases leads with
    | here => exact List.mem_singleton_self root
    | further => exact (Nat.not_succ_le_zero _ few).elim
  explored _ _ _ known unqueued := (unqueued known).elim

/-- What an edge leads from that nothing had marked is one step further away. -/
theorem isDistance_of_fresh (level : graph.Level root distance marked (target :: near) far)
    (feeds : graph.Feeds source target) (fresh : source ∉ marked) :
    graph.IsDistance root source (distance + 1) := by
  have here := level.close target List.mem_cons_self
  refine ⟨.further feeds here.1, fun steps leads => ?_⟩
  by_contra fewer
  exact fresh (level.within steps source leads (by omega))

/-- A round takes the first node off the queue and leaves its unmarked sources behind. -/
theorem round (level : graph.Level root distance marked (id :: near) far) :
    graph.Level root distance (marked ++ newSources marked (graph.inbound id)) near
      (far ++ newSources marked (graph.inbound id)) where
  close other queued := level.close other (List.mem_cons_of_mem _ queued)
  beyond other queued := by
    rcases List.mem_append.mp queued with old | new
    · exact level.beyond other old
    · obtain ⟨fresh, feeds⟩ := mem_newSources_inbound.mp new
      exact level.isDistance_of_fresh feeds fresh
  within steps other leads few := List.mem_append_left _ (level.within steps other leads few)
  explored := by
    rw [← List.append_assoc]
    exact level.explored.round

/-- With no nodes left at the one distance, all nodes at the next are marked. -/
theorem next (level : graph.Level root distance marked [] far) :
    graph.Level root (distance + 1) marked far [] where
  close := level.beyond
  beyond _ none := nomatch none
  within steps id leads few := by
    by_cases nearer : steps ≤ distance
    · exact level.within steps id leads nearer
    · cases leads with
      | here => exact (nearer (Nat.zero_le _)).elim
      | @further steps _ target feeds later =>
        have known : target ∈ marked := level.within steps target later (by omega)
        refine level.explored id target feeds known fun queued => ?_
        have least := (level.beyond target queued).2 later
        omega
  explored := by
    rw [List.append_nil]
    exact level.explored

end Level

/-- The distances of the nodes, in their order, do not fall, and start at no less than this. -/
def RisesFrom (graph : Graph) (root : String) (least : Nat) (ids : List String) : Prop :=
  ∃ distances, List.Forall₂ (graph.IsDistance root) ids distances ∧
    distances.Pairwise (· ≤ ·) ∧ ∀ distance ∈ distances, least ≤ distance

theorem RisesFrom.cons {ids : List String} (here : graph.IsDistance root id distance)
    (rises : graph.RisesFrom root distance ids) : graph.RisesFrom root distance (id :: ids) := by
  obtain ⟨distances, each, sorted, above⟩ := rises
  refine ⟨distance :: distances, .cons here each, List.pairwise_cons.mpr ⟨above, sorted⟩, ?_⟩
  intro other listed
  rcases List.mem_cons.mp listed with rfl | later
  · exact le_rfl
  · exact above other later

theorem RisesFrom.mono {ids : List String} {least : Nat} (rises : graph.RisesFrom root distance ids)
    (below : least ≤ distance) : graph.RisesFrom root least ids := by
  obtain ⟨distances, each, sorted, above⟩ := rises
  exact ⟨distances, each, sorted, fun other listed => below.trans (above other listed)⟩

theorem risesFrom_walk {queue : List String} (level : graph.Level root distance marked near far)
    (queued : queue = near ++ far) : graph.RisesFrom root distance (graph.walk marked queue) := by
  fun_induction walk graph marked queue generalizing distance near far with
  | case1 => exact ⟨[], .nil, .nil, fun _ listed => absurd listed List.not_mem_nil⟩
  | case2 marked first rest sources =>
    rename_i ih
    -- While there is a nearest node, it is the first of the queue.
    have front : ∀ {distance : Nat} {near far : List String},
        graph.Level root distance marked (first :: near) far → rest = near ++ far →
          graph.RisesFrom root distance
            (first :: graph.walk (marked ++ sources) (rest ++ sources)) := by
      intro distance near far level split
      refine .cons (level.close first List.mem_cons_self) (ih level.round ?_)
      rw [split, List.append_assoc]
    cases near with
    | cons _ near =>
      obtain ⟨rfl, split⟩ := List.cons.inj queued
      exact front level split
    | nil =>
      rw [List.nil_append] at queued
      subst queued
      exact (front level.next (List.append_nil rest).symm).mono (Nat.le_succ distance)

theorem risesFrom_ancestry (graph : Graph) (root : String) :
    graph.RisesFrom root 0 (graph.ancestry root) :=
  risesFrom_walk (Level.start graph root) (List.append_nil _).symm

/-- These are the nodes from which a node can be reached: itself first, each once, and none
before a nearer one. -/
structure ListsUpstream (graph : Graph) (id : String) (nodes : List Node) : Prop where
  first : nodes.head? = graph.node? id
  once : (nodes.map (·.id)).Nodup
  mem_iff : ∀ node, node ∈ nodes ↔
    node ∈ graph.nodes ∧ ReflTransGen graph.Feeds node.id id
  nearest_first : ∃ distances,
    List.Forall₂ (fun node distance => graph.IsDistance id node.id distance) nodes distances ∧
      distances.Pairwise (· ≤ ·)
  closed : ∀ edge ∈ graph.edges, edge.target ∈ nodes.map (·.id) →
    edge.source ∈ nodes.map (·.id)

/-- In a well-formed graph, with cycles or without, everything that leads to an existing
node is found, from near to far. -/
theorem connected_lists_upstream (sound : graph.WellFormed) (known : graph.contains id = true) :
    ∃ nodes, graph.connected id = .ok nodes ∧
      graph.connectedIds id = .ok (nodes.map (·.id)) ∧ graph.ListsUpstream id nodes := by
  obtain ⟨nodes, collected, ids⟩ := exists_connected sound known
  refine ⟨nodes, collected, by rw [ids, connectedIds_eq_ok sound known], ?_, ?_, ?_, ?_, ?_⟩
  · obtain ⟨others, start⟩ := ancestry_eq_cons graph id
    have stored := nodesOf_eq_ok.mp collected
    rw [start, List.map_cons] at stored
    cases nodes with
    | nil => cases stored
    | cons node _ => exact (List.cons.inj stored).1.symm
  · rw [ids]
    exact nodup_ancestry graph id
  · intro node
    constructor
    · intro listed
      have stored := node?_of_mem_nodesOf collected listed
      have found : node.id ∈ graph.ancestry id := ids ▸ List.mem_map_of_mem listed
      exact ⟨mem_of_node? stored, mem_ancestry.mp found⟩
    · rintro ⟨member, reaches⟩
      have found : node.id ∈ nodes.map (·.id) := ids ▸ mem_ancestry.mpr reaches
      obtain ⟨other, listed, named⟩ := List.mem_map.mp found
      have stored := node?_of_mem_nodesOf collected listed
      rw [named, node?_of_mem sound.nodes_once member] at stored
      exact Option.some.inj stored ▸ listed
  · obtain ⟨distances, each, sorted, _⟩ := risesFrom_ancestry graph id
    rw [← ids, List.forall₂_map_left_iff] at each
    exact ⟨distances, each, sorted⟩
  · rw [ids]
    exact fun edge drawn into => mem_ancestry_of_feeds ⟨edge, drawn, rfl, rfl⟩ into

end RecipeGraph.Graph

namespace RecipeGraph.Store

/-- Two products that feed each other, the one over two edges at once, and a number that
feeds both of them. -/
def entwined : Store := run [.load {
  nodes := [⟨"v", .value (some 2.0), .null, {}⟩, ⟨"p", .multiply none none, .null, {}⟩,
    ⟨"q", .multiply none none, .null, {}⟩, ⟨"r", .multiply none none, .null, {}⟩]
  edges := [⟨"v-p", "v", "p", none, some Handle.a⟩, ⟨"q-p", "q", "p", none, some Handle.b⟩,
    ⟨"p-q", "p", "q", none, some Handle.a⟩, ⟨"p-q'", "p", "q", none, some Handle.b⟩,
    ⟨"q-r", "q", "r", none, some Handle.a⟩, ⟨"v-r", "v", "r", none, some Handle.b⟩] }]

/-- The number is two edges away from the product that it leads to over the cycle. -/
theorem connected_lists_upstream_entwined :
    entwined.WellFormed ∧ entwined.contains "q" = true ∧
      ∃ nodes, entwined.connected "q" = .ok nodes ∧
        entwined.connectedIds "q" = .ok (nodes.map (·.id)) ∧ nodes.map (·.id) = ["q", "p", "v"] ∧
        entwined.ListsUpstream "q" nodes := by
  have sound : entwined.WellFormed := foldl_apply_wellFormed empty_wellFormed _
  have known : entwined.contains "q" = true := by decide +kernel
  obtain ⟨nodes, collected, ids, upstream⟩ := Graph.connected_lists_upstream sound known
  have walked : entwined.ancestry "q" = ["q", "p", "v"] := by decide +kernel
  refine ⟨sound, known, nodes, collected, ids, ?_, upstream⟩
  rw [Graph.ids_of_nodesOf collected, walked]

end RecipeGraph.Store
