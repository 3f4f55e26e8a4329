import RecipeGraph.Failure
import RecipeGraph.Graph

/-!
Walking edges backwards from a node.

The walk goes breadth first, over the edges into a node in the order in which
they were drawn, and comes to every node once. Each round either shortens the
queue or marks a source that no edge had marked before, which ends it.
-/

namespace RecipeGraph

/-- Sources that are not marked yet, each once, in the order of the edges. -/
def newSources (marked : List String) : List Edge → List String
  | [] => []
  | edge :: rest =>
    if marked.contains edge.source then newSources marked rest
    else edge.source :: newSources (edge.source :: marked) rest

namespace Graph

/-- Edges whose source is not marked. -/
def unmarked (graph : Graph) (marked : List String) : List Edge :=
  graph.edges.filter fun edge => !marked.contains edge.source

end Graph

theorem not_mem_of_mem_newSources {marked : List String} {edges : List Edge} {id : String}
    (found : id ∈ newSources marked edges) : id ∉ marked := by
  induction edges generalizing marked with
  | nil => simp [newSources] at found
  | cons edge rest ih =>
    unfold newSources at found
    split at found
    · exact ih found
    · next fresh =>
      rcases List.mem_cons.mp found with rfl | later
      · simpa using fresh
      · exact fun old => ih later (List.mem_cons_of_mem _ old)

@[simp] theorem nodup_newSources (marked : List String) (edges : List Edge) :
    (newSources marked edges).Nodup := by
  induction edges generalizing marked with
  | nil => simp [newSources]
  | cons edge rest ih =>
    unfold newSources
    split
    · exact ih marked
    · exact List.nodup_cons.mpr
        ⟨fun again => not_mem_of_mem_newSources again List.mem_cons_self, ih _⟩

theorem exists_edge_of_mem_newSources {marked : List String} {edges : List Edge} {id : String}
    (found : id ∈ newSources marked edges) : ∃ edge ∈ edges, edge.source = id := by
  induction edges generalizing marked with
  | nil => simp [newSources] at found
  | cons edge rest ih =>
    unfold newSources at found
    split at found
    · obtain ⟨e, member, source⟩ := ih found
      exact ⟨e, List.mem_cons_of_mem _ member, source⟩
    · rcases List.mem_cons.mp found with rfl | later
      · exact ⟨edge, List.mem_cons_self, rfl⟩
      · obtain ⟨e, member, source⟩ := ih later
        exact ⟨e, List.mem_cons_of_mem _ member, source⟩

namespace Graph

/-- Marking one more source leaves fewer edges unmarked. -/
theorem unmarked_cons_lt {graph : Graph} {marked : List String} {edge : Edge}
    (member : edge ∈ graph.edges) (fresh : edge.source ∉ marked) :
    (graph.unmarked (marked ++ [edge.source])).length < (graph.unmarked marked).length := by
  have keep : graph.unmarked (marked ++ [edge.source]) =
      (graph.unmarked marked).filter fun e => e.source ≠ edge.source := by
    simp only [unmarked, List.filter_filter]
    congr 1
    funext e
    by_cases old : e.source ∈ marked <;> by_cases same : e.source = edge.source <;>
      simp [old, same]
  rw [keep]
  refine List.length_filter_lt_length_iff_exists.mpr ⟨edge, ?_, by simp⟩
  simp [unmarked, member, fresh]

/-- Marking sources of edges leaves as many edges fewer unmarked, at least. -/
theorem unmarked_append_le {graph : Graph} {marked ids : List String} (once : ids.Nodup)
    (fresh : ∀ id ∈ ids, id ∉ marked)
    (sources : ∀ id ∈ ids, ∃ edge ∈ graph.edges, edge.source = id) :
    (graph.unmarked (marked ++ ids)).length + ids.length ≤ (graph.unmarked marked).length := by
  induction ids generalizing marked with
  | nil => simp
  | cons id rest ih =>
    obtain ⟨edge, member, rfl⟩ := sources id List.mem_cons_self
    have first := unmarked_cons_lt member (fresh _ List.mem_cons_self)
    have later := @ih (marked ++ [edge.source]) (List.nodup_cons.mp once).2
      (fun id found old => by
        rcases List.mem_append.mp old with old | old
        · exact fresh id (List.mem_cons_of_mem _ found) old
        · rw [List.mem_singleton] at old
          exact (List.nodup_cons.mp once).1 (old ▸ found))
      (fun id found => sources id (List.mem_cons_of_mem _ found))
    rw [List.append_assoc] at later
    simp only [List.singleton_append] at later
    simp only [List.length_cons]
    omega

theorem mem_inbound {graph : Graph} {id : String} {edge : Edge} (member : edge ∈ graph.inbound id) :
    edge ∈ graph.edges :=
  (List.mem_filter.mp member).1

/-- What a round of the walk leaves to do is less than what was there. -/
theorem round_lt (graph : Graph) (marked : List String) (id : String) (rest : List String) :
    2 * (graph.unmarked (marked ++ newSources marked (graph.inbound id))).length +
        (rest ++ newSources marked (graph.inbound id)).length <
      2 * (graph.unmarked marked).length + (id :: rest).length := by
  have fewer := @unmarked_append_le graph marked _
    (nodup_newSources marked (graph.inbound id))
    (fun _ found => not_mem_of_mem_newSources found)
    (fun _ found => by
      obtain ⟨edge, member, source⟩ := exists_edge_of_mem_newSources found
      exact ⟨edge, mem_inbound member, source⟩)
  simp only [List.length_append, List.length_cons]
  omega

/-- The nodes of the queue and everything behind them that is not marked, in
the order of the walk. -/
def walk (graph : Graph) (marked : List String) : List String → List String
  | [] => []
  | id :: rest =>
    let found := newSources marked (graph.inbound id)
    id :: walk graph (marked ++ found) (rest ++ found)
termination_by queue => 2 * (graph.unmarked marked).length + queue.length
decreasing_by exact round_lt graph marked id rest

/-- A node and all nodes from which it can be reached. -/
def ancestry (graph : Graph) (id : String) : List String :=
  graph.walk [id] [id]

def node (graph : Graph) (id : String) : Except GraphError Node :=
  match graph.node? id with
  | some node => .ok node
  | none => .error (.nodeNotFound id)

/-- The nodes with these ids, or the first id that names none. -/
def nodesOf (graph : Graph) : List String → Except GraphError (List Node)
  | [] => .ok []
  | id :: rest => do
    let node ← graph.node id
    let nodes ← graph.nodesOf rest
    return node :: nodes

/-- Everything a node depends on, itself first. -/
def connected (graph : Graph) (id : String) : Except GraphError (List Node) :=
  graph.nodesOf (graph.ancestry id)

def connectedIds (graph : Graph) (id : String) : Except GraphError (List String) :=
  (graph.connected id).map fun nodes => nodes.map (·.id)

end Graph

end RecipeGraph
