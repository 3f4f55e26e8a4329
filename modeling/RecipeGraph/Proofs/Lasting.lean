import RecipeGraph.Proofs.Editing

/-!
# What editing leaves on nodes

Editing does little to a node: it takes its result away, and it makes it remember
the literals of other nodes or forget them. A property of nodes that stands all
of this stands every edit.
-/

namespace RecipeGraph

/-- The property stays when a result goes, and when literals come and go. -/
structure Node.Lasting (holds : Node → Prop) : Prop where
  uncompiled : ∀ node, holds node → holds node.uncompiled
  unbound : ∀ node handle, holds node → holds (node.bind handle none)
  bound : ∀ node handle source, holds node → holds source →
    holds (node.bind handle source.params.literal)

/-- All nodes of the graph have the property. -/
def Graph.Every (graph : Graph) (holds : Node → Prop) : Prop :=
  ∀ node ∈ graph.nodes, holds node

namespace Store

open RecipeGraph.Graph (Every)

variable {store : Store} {holds : Node → Prop}

theorem every_modifyNode {id : String} {change : Node → Node} (each : store.Every holds)
    (keeps : ∀ node, holds node → holds (change node)) :
    (store.modifyNode id change).Every holds := by
  intro node member
  obtain ⟨old, stored, made⟩ := List.mem_map.mp member
  rw [← made]
  split
  · exact keeps old (each old stored)
  · exact each old stored

theorem every_reset (lasting : Node.Lasting holds) (each : store.Every holds) (id : String) :
    (store.reset id).Every holds := by
  unfold reset
  split
  · exact every_modifyNode each lasting.uncompiled
  · exact each

theorem every_bindHandle {literal : Option Float} (each : store.Every holds) (edge : Edge)
    (keeps : ∀ node handle, holds node → holds (node.bind handle literal)) :
    (store.bindHandle edge literal).Every holds := by
  unfold bindHandle
  split
  · next handle _ => exact every_modifyNode each fun node => keeps node handle
  · exact each

theorem every_detach (lasting : Node.Lasting holds) (each : store.Every holds) (edge : Edge) :
    (store.detach edge).Every holds :=
  every_reset lasting (@every_bindHandle (store.dropEdge edge.id) _ _ each edge lasting.unbound) _

theorem every_detachAll (lasting : Node.Lasting holds) (each : store.Every holds)
    (edges : List Edge) : (store.detachAll edges).Every holds := by
  induction edges generalizing store with
  | nil => exact each
  | cons edge rest ih => exact ih (every_detach lasting each edge)

theorem every_removeNode (lasting : Node.Lasting holds) (each : store.Every holds) (id : String) :
    (store.removeNode id).2.Every holds := by
  unfold removeNode
  split
  · have cleared := every_detachAll lasting each (store.edges.filter (·.touches id))
    simp only
    split
    · exact fun node member => cleared node (List.mem_of_mem_filter member)
    · exact cleared
  · exact each

theorem every_removeEdge (lasting : Node.Lasting holds) (each : store.Every holds) (id : String) :
    (store.removeEdge id).2.Every holds := by
  unfold removeEdge
  split
  · exact every_detach lasting each _
  · exact each

theorem every_addNode (each : store.Every holds) {node : Node} (fresh : holds node.fresh) :
    (store.addNode node).2.Every holds := by
  unfold addNode
  split
  · exact each
  · intro other member
    rcases List.mem_append.mp member with old | new
    · exact each other old
    · rw [List.mem_singleton.mp new]
      exact fresh

theorem every_addError (each : store.Every holds) {message : String} {clear : Bool} (id : String)
    (keeps : ∀ node, holds node → holds (node.addError message clear)) :
    (store.addError id message clear).2.Every holds := by
  unfold addError
  split
  · exact every_modifyNode each keeps
  · exact each

theorem every_passLiteral (lasting : Node.Lasting holds) {source : Node} (given : holds source)
    (each : store.Every holds) (edge : Edge) :
    (passLiteral source.params.literal store edge).Every holds := by
  unfold passLiteral
  split
  · split
    · split
      · exact each
      · refine every_reset lasting (every_bindHandle each edge fun node handle had => ?_) _
        exact lasting.bound node handle source had given
    · exact each
  · exact each

theorem every_passLiterals (lasting : Node.Lasting holds) {source : Node} (given : holds source)
    (each : store.Every holds) (id : String) :
    (store.passLiterals id source.params.literal).Every holds := by
  unfold passLiterals
  induction store.edges.filter (·.source = id) generalizing store with
  | nil => exact each
  | cons edge rest ih => exact ih (every_passLiteral lasting given each edge)

theorem every_updateNode (lasting : Node.Lasting holds) (each : store.Every holds) (id : String)
    {patch : NodePatch}
    (keeps : ∀ node patched, holds node → node.patched patch = .ok patched → holds patched) :
    (store.updateNode id patch).2.Every holds := by
  unfold updateNode
  split
  · exact each
  · next node found =>
    split
    · exact each
    · next patched fits =>
      have given := keeps node patched (each node (Graph.mem_of_node? found)) fits
      have written : (store.modifyNode id fun _ => patched).Every holds :=
        every_modifyNode each fun _ _ => given
      simp only
      split
      · exact every_passLiterals lasting given
          (show ((store.modifyNode id fun _ => patched).emit (.nodeUpdated id)).Every holds
            from written) id
      · exact written

theorem every_place (lasting : Node.Lasting holds) {source : Node} (given : holds source)
    (each : store.Every holds) (edge : Edge) :
    (store.place edge source.params.literal).Every holds := by
  have cleared := every_detachAll lasting each (store.edges.filter (·.yieldsTo edge))
  refine every_reset lasting (every_bindHandle cleared edge fun node handle had => ?_) edge.target
  exact lasting.bound node handle source had given

theorem every_connect (lasting : Node.Lasting holds) (each : store.Every holds)
    (connection : Connection) (id : Option String) :
    (store.connect connection id).2.Every holds := by
  unfold connect
  split
  · exact each
  · exact each
  · next source target sourced targeted =>
    split
    · exact every_place lasting (each source (Graph.mem_of_node? sourced)) each _
    · exact each

theorem every_addNodes (each : store.Every holds) {nodes : List Node}
    (fresh : ∀ node ∈ nodes, holds node.fresh) : (store.addNodes nodes).2.Every holds := by
  induction nodes generalizing store with
  | nil => exact each
  | cons node rest ih =>
    have added := every_addNode each (fresh node List.mem_cons_self)
    unfold addNodes
    split
    · next same =>
      rw [same] at added
      exact ih added fun other member => fresh other (List.mem_cons_of_mem _ member)
    · next same =>
      rw [same] at added
      exact added

theorem every_addEdges (lasting : Node.Lasting holds) (each : store.Every holds)
    (edges : List Edge) : (store.addEdges edges).2.Every holds := by
  induction edges generalizing store with
  | nil => exact each
  | cons edge rest ih =>
    have drawn := every_connect lasting each edge.connection (some edge.id)
    unfold addEdges
    split
    · next same =>
      rw [same] at drawn
      exact ih drawn
    · next same =>
      rw [same] at drawn
      exact drawn

/-- What is built has the property, if the given nodes have it with nothing left
on them. -/
theorem every_build (lasting : Node.Lasting holds) {graph : Graph}
    (fresh : ∀ node ∈ graph.nodes, holds node.fresh) : (build graph).2.Every holds := by
  have nodes := every_addNodes (show empty.Every holds from fun _ member => nomatch member) fresh
  unfold build
  split
  · next same =>
    rw [same] at nodes
    exact every_addEdges lasting nodes graph.edges
  · next same =>
    rw [same] at nodes
    exact nodes

theorem every_built (lasting : Node.Lasting holds) {graph : Graph} {built after : Store}
    (done : build graph = (.ok (), built)) (same : after.toGraph = built.toGraph)
    (fresh : ∀ node ∈ graph.nodes, holds node.fresh) : after.Every holds := by
  have every := every_build lasting fresh
  rwa [done, Every, ← same] at every

theorem every_load (lasting : Node.Lasting holds) (each : store.Every holds) {graph : Graph}
    (fresh : ∀ node ∈ graph.nodes, holds node.fresh) : (store.load graph).2.Every holds := by
  have built := every_build lasting fresh
  unfold load
  split
  · next same =>
    rw [same] at built
    exact built
  · exact each

section Failing

variable {error : GraphError} {after : Store}

theorem removeNode_of_error {id : String} (failed : store.removeNode id = (.error error, after)) :
    after = store := by
  unfold removeNode at failed
  split at failed
  · next known =>
    have kinds := (thins_detachAll store (store.edges.filter (·.touches id))).kind? id
    obtain ⟨node, found⟩ := Graph.contains_iff.mp known
    simp only at failed
    split at failed
    · cases failed
    · next gone =>
      rw [Graph.kind?, Graph.kind?, gone, found] at kinds
      cases kinds
  · exact (Prod.mk.inj failed).2.symm

theorem updateNode_of_error {id : String} {patch : NodePatch}
    (failed : store.updateNode id patch = (.error error, after)) : after = store := by
  unfold updateNode at failed
  split at failed
  · exact (Prod.mk.inj failed).2.symm
  · split at failed
    · exact (Prod.mk.inj failed).2.symm
    · split at failed <;> cases failed

theorem load_of_ok {graph : Graph} (done : store.load graph = (.ok (), after)) :
    ∃ built, build graph = (.ok (), built) ∧ after.toGraph = built.toGraph := by
  unfold load at done
  split at done
  · next built success =>
    refine ⟨built, success, ?_⟩
    rw [← (Prod.mk.inj done).2]
    rfl
  · cases done

theorem load_of_error {graph : Graph} (failed : store.load graph = (.error error, after)) :
    after = store := by
  unfold load at failed
  split at failed
  · cases failed
  · exact (Prod.mk.inj failed).2.symm

theorem removeEdge_of_error {id : String} (failed : store.removeEdge id = (.error error, after)) :
    after = store := by
  unfold removeEdge at failed
  split at failed
  · cases failed
  · exact (Prod.mk.inj failed).2.symm

theorem connect_of_error {connection : Connection} {id : Option String}
    (failed : store.connect connection id = (.error error, after)) : after = store := by
  unfold connect at failed
  split at failed
  · exact (Prod.mk.inj failed).2.symm
  · exact (Prod.mk.inj failed).2.symm
  · split at failed
    · cases failed
    · exact (Prod.mk.inj failed).2.symm

end Failing

/-- What drawing an edge has put in place, if it was allowed. -/
theorem connect_of_ok {connection : Connection} {id : Option String} {after : Store} {edge : Edge}
    (done : store.connect connection id = (.ok edge, after)) : ∃ source target,
      store.node? connection.source = some source ∧ store.node? connection.target = some target ∧
      source.mayFeed target connection.sourceHandle connection.targetHandle = true ∧
      edge = (connection.withHandle target.kind).toEdge
        (id.getD (connection.withHandle target.kind).edgeId) ∧
      after = store.place edge source.params.literal := by
  unfold connect at done
  split at done
  · cases done
  · cases done
  · next source target found into =>
    split at done
    · next feeds =>
      cases done
      exact ⟨source, target, found, into, feeds, rfl, rfl⟩
    · cases done

theorem addEdge_of_ok {connection : Connection} {after : Store} {edge : Edge}
    (done : store.addEdge connection = (.ok edge, after)) : ∃ source target,
      store.node? connection.source = some source ∧ store.node? connection.target = some target ∧
      edge = (connection.withHandle target.kind).toEdge
        (connection.withHandle target.kind).edgeId ∧
      edge.targetHandle.isSome = true ∧ after = store.place edge source.params.literal := by
  obtain ⟨source, target, found, into, feeds, rfl, rfl⟩ := connect_of_ok done
  exact ⟨source, target, found, into, rfl,
    handled_of_accepts (Bool.and_eq_true_iff.mp feeds).2, rfl⟩

theorem node?_of_removeNode {id : String} {removed : Node} {after : Store}
    (done : store.removeNode id = (.ok removed, after)) : after.node? id = none := by
  unfold removeNode at done
  split at done
  · simp only at done
    split at done
    · rw [← (Prod.mk.inj done).2]
      exact node?_dropNode_self _ id
    · cases done
  · cases done

@[simp]
theorem node?_addNode {node found : Node} {id : String} (there : store.node? id = some found) :
    (store.addNode node).2.node? id = some found := by
  unfold addNode
  split
  · exact there
  · change Graph.node? ⟨store.nodes ++ [node.fresh], store.edges⟩ id = some found
    unfold Graph.node? at there ⊢
    rw [List.find?_append, there]
    rfl

@[simp] theorem edges_addNode (store : Store) (node : Node) :
    (store.addNode node).2.edges = store.edges := by
  unfold addNode
  split <;> rfl

end Store

end RecipeGraph
