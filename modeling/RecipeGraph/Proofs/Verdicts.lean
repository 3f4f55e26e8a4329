import RecipeGraph.Proofs.Determining

/-!
# What a compile decides

A run comes to a node behind everything that leads to it, so what it makes of the node
follows from fields, edges, and what nodes without a compiler hold. Results and errors
that earlier runs have left on the other nodes do not count.
-/

namespace RecipeGraph

open Relation (TransGen)

namespace Graph

/-- The graphs hold the same result at a node. -/
def Shares (left right : Graph) (id : String) : Prop :=
  ∃ node other, left.node? id = some node ∧ right.node? id = some other ∧
    node.data.output = other.data.output

theorem origins_of_edges {left right : Graph} (same : left.edges = right.edges)
    (marked queue : List String) : left.origins marked queue = right.origins marked queue := by
  have inbound : left.inbound = right.inbound := by
    funext id
    rw [Graph.inbound, Graph.inbound, same]
  rw [origins_eq_filter, origins_eq_filter, inbound]
  rw [walk_congr fun id _ => congrArg (List.map Edge.source) (congrFun inbound id)]

theorem topoSort_of_edges {left right : Graph} (same : left.edges = right.edges) (id : String) :
    left.topoSort (left.ancestry id) = right.topoSort (right.ancestry id) := by
  rw [ancestry_of_edges same, topoSort, topoSort, same]

theorem kind_of_blank {left right : Graph} (same : left.blank = right.blank) {id : String}
    {node other : Node} (found : left.node? id = some node) (found' : right.node? id = some other) :
    other.kind = node.kind := by
  obtain ⟨twin, there, params⟩ := params_of_blank same found
  cases found'.symm.trans there
  rw [Node.kind, Node.kind, params]

/-- Graphs are the same if their nodes are, and the order of these. -/
theorem eq_of_blank {left right : Graph} (same : left.blank = right.blank)
    (once : left.ids.Nodup) (nodes : ∀ id, left.node? id = right.node? id) : left = right := by
  have ids : left.ids = right.ids := by
    rw [ids_eq_outline, ids_eq_outline, outline_of_blank same]
  have listed : ∀ graph : Graph, graph.ids.Nodup →
      graph.ids.map graph.node? = graph.nodes.map some := by
    intro graph unique
    rw [Graph.ids, List.map_map]
    exact List.map_congr_left fun node member => node?_of_mem unique member
  have all : left.nodes.map some = right.nodes.map some := by
    rw [← listed left once, ← listed right (ids ▸ once), ids]
    exact List.map_congr_left fun id _ => nodes id
  have parts := List.map_injective_iff.mpr (Option.some_injective Node) all
  exact congr (congrArg Graph.mk parts) (edges_of_blank same)

end Graph

namespace Node

variable {left right : Graph} {id : String}

theorem layerOutput_congr {source other : Node} (named : other.id = source.id)
    (same : source.data.output = other.data.output) : source.layerOutput = other.layerOutput := by
  unfold layerOutput
  rw [same, named]

theorem layerOutputs_congr {ids : List String} (shared : ∀ id ∈ ids, left.Shares right id) :
    ∃ sources others, left.nodesOf ids = .ok sources ∧ right.nodesOf ids = .ok others ∧
      layerOutputs sources = layerOutputs others := by
  induction ids with
  | nil => exact ⟨[], [], rfl, rfl, rfl⟩
  | cons first rest ih =>
    obtain ⟨node, other, here, there, same⟩ := shared first List.mem_cons_self
    obtain ⟨sources, others, found, found', equal⟩ :=
      ih fun id member => shared id (List.mem_cons_of_mem _ member)
    have named := (Graph.id_of_node? there).trans (Graph.id_of_node? here).symm
    refine ⟨node :: sources, other :: others, ?_, ?_, ?_⟩
    · rw [Graph.nodesOf, Graph.node_eq_ok.mpr here, found]
      rfl
    · rw [Graph.nodesOf, Graph.node_eq_ok.mpr there, found']
      rfl
    · rw [layerOutputs, layerOutputs, layerOutput_congr named same, equal]

/-- Both graphs have nothing at the handle, or the same node with the same result. -/
theorem inputNode?_shared (edges : left.edges = right.edges)
    (shared : ∀ member, TransGen left.Feeds member id → left.Shares right member)
    (handle : String) :
    (left.inputNode? id handle = none ∧ right.inputNode? id handle = none) ∨
    ∃ source other, left.inputNode? id handle = some source ∧
      right.inputNode? id handle = some other ∧ other.id = source.id ∧
      source.data.output = other.data.output ∧ left.Feeds source.id id := by
  rw [Graph.inputNode?_eq_bind, Graph.inputNode?_eq_bind, ← Graph.plugged_of_edges edges]
  cases there : left.plugged id handle with
  | none => exact .inl ⟨rfl, rfl⟩
  | some source =>
    have feeds := Graph.feeds_of_plugged there
    obtain ⟨node, other, found, found', same⟩ := shared source (.single feeds)
    have named := Graph.id_of_node? found
    exact .inr ⟨node, other, found, found', (Graph.id_of_node? found').trans named.symm, same,
      named ▸ feeds⟩

/-- Behind a handle both graphs have nothing, or the same layers. -/
theorem boundary_shared (edges : left.edges = right.edges)
    (shared : ∀ member, TransGen left.Feeds member id → left.Shares right member) {node other : Node}
    (found : left.node? id = some node) (found' : right.node? id = some other) (handle : String) :
    (left.boundary id handle = .ok none ∧ right.boundary id handle = .ok none) ∨
    ∃ boundary twin, left.boundary id handle = .ok (some boundary) ∧
      right.boundary id handle = .ok (some twin) ∧
      layerOutputs boundary.inputs = layerOutputs twin.inputs ∧
      boundary.output.layerOutput = twin.output.layerOutput := by
  rcases inputNode?_shared edges shared handle with ⟨nothing, nothing'⟩ |
    ⟨source, twin, plugged, plugged', named, output, feeds⟩
  · exact .inl ⟨Graph.boundary_of_unplugged found nothing,
      Graph.boundary_of_unplugged found' nothing'⟩
  · right
    have each : ∀ member ∈ left.origins [source.id] [source.id], left.Shares right member := by
      intro member origin
      rw [Graph.origins_eq_filter] at origin
      have reaches := Graph.mem_ancestry.mp (List.mem_filter.mp origin).1
      exact shared member (TransGen.tail' reaches feeds)
    obtain ⟨sources, others, collected, collected', layers⟩ := layerOutputs_congr each
    rw [Graph.origins_of_edges edges, ← named] at collected'
    exact ⟨_, _, Graph.boundary_of_plugged found plugged collected,
      Graph.boundary_of_plugged found' plugged' collected', layers, layerOutput_congr named output⟩

theorem inputOutput?_shared (edges : left.edges = right.edges)
    (shared : ∀ member, TransGen left.Feeds member id → left.Shares right member)
    (handle : String) : left.inputOutput? id handle = right.inputOutput? id handle := by
  unfold Graph.inputOutput?
  rcases inputNode?_shared edges shared handle with ⟨nothing, nothing'⟩ |
    ⟨_, _, plugged, plugged', _, output, _⟩
  · rw [nothing, nothing']
  · rw [plugged, plugged']
    exact output

/-- A compiler reads nothing of the node itself but its id and its fields. -/
theorem compileAs_of_params {node other : Node} (named : other.id = node.id)
    (fields : other.params = node.params) (compiler : NodeKind) (graph : Graph) :
    other.compileAs compiler graph = node.compileAs compiler graph := by
  obtain ⟨_, _, _, _⟩ := node
  obtain ⟨_, _, _, _⟩ := other
  cases named
  cases fields
  cases compiler <;> rfl

/-- Compilers read fields, edges, and what the nodes hold that lead to a node. -/
theorem compileAs_congr (edges : left.edges = right.edges)
    (shared : ∀ member, TransGen left.Feeds member id → left.Shares right member) {node other : Node}
    (found : left.node? id = some node) (found' : right.node? id = some other)
    (fields : other.params = node.params) (compiler : NodeKind) :
    node.compileAs compiler left = other.compileAs compiler right := by
  have here : node.id = id := Graph.id_of_node? found
  have there : other.id = node.id := (Graph.id_of_node? found').trans here.symm
  rw [compileAs_of_params there fields compiler right]
  have outputs := inputOutput?_shared edges shared
  cases compiler with
  | value => rfl
  | tensor => rfl
  | inputLayer => rfl
  | multiply => simp only [compileAs, compileMultiply, operand, here, outputs]
  | trainModel =>
    simp only [compileAs, compileTraining, trainingData, trainingModel, here, outputs]
  | denseLayer =>
    simp only [compileAs, compileDense, here]
    rcases inputNode?_shared edges shared Handle.input with ⟨nothing, nothing'⟩ |
      ⟨source, twin, plugged, plugged', named, output, _⟩
    · rw [nothing, nothing']
    · simp only [plugged, plugged', layerOutput_congr named output]
  | model =>
    simp only [compileAs, compileModel, here]
    rcases boundary_shared edges shared found found' Handle.input with ⟨nothing, nothing'⟩ |
      ⟨boundary, twin, behind, behind', inputs, output⟩
    · rw [nothing, nothing']
    · simp only [behind, behind', inputs, output]

end Node

/-- What a run does to a node that it comes to. -/
inductive Effect where
  /-- No compiler serves the node, and it keeps what it holds. -/
  | kept (output : Option Artifact)
  | settled (artifact : Artifact)
  | failed (fault : CompileFault)

namespace Effect

def ofResult : Except CompileFault Artifact → Effect
  | .ok artifact => .settled artifact
  | .error fault => .failed fault

def on : Effect → Node → Node
  | .kept _, node => node
  | .settled artifact, node => node.settled artifact
  | .failed fault, node => node.failed fault

/-- What nodes further down find on the node. -/
def output : Effect → Option Artifact
  | .kept output => output
  | .settled artifact => some artifact
  | .failed _ => none

def passes : Effect → Bool
  | .failed _ => false
  | _ => true

@[simp]
theorem on_on (effect : Effect) (node : Node) : effect.on (effect.on node) = effect.on node := by
  cases effect <;> rfl

end Effect

/-- What any run does to the node when it comes to it: all that leads to the node has
passed by then, and holds what it got. -/
inductive Verdict (registry : Registry) (graph : Graph) : String → Effect → Prop
  | skipped {id : String} {node : Node} (found : graph.node? id = some node)
      (unserved : registry node.kind = none) : Verdict registry graph id (.kept node.data.output)
  | reached {id : String} {filled : Graph} {node : Node} {compiler : NodeKind}
      {effects : String → Effect} {effect : Effect} (blank : filled.blank = graph.blank)
      (found : filled.node? id = some node) (served : registry node.kind = some compiler)
      (inputs : ∀ member, TransGen graph.Feeds member id →
        Verdict registry graph member (effects member))
      (passed : ∀ member, TransGen graph.Feeds member id → (effects member).passes = true)
      (stored : ∀ member, TransGen graph.Feeds member id → ∃ source,
        filled.node? member = some source ∧ source.data.output = (effects member).output)
      (made : Effect.ofResult (node.compileAs compiler filled) = effect) :
      Verdict registry graph id effect

/-- Graphs that differ only in what runs have left on their nodes. -/
structure Registry.Resembles (registry : Registry) (left right : Graph) : Prop where
  blank : left.blank = right.blank
  unserved : ∀ id node, left.node? id = some node → registry node.kind = none →
    right.node? id = some node

namespace Verdict

variable {registry : Registry} {graph left right : Graph} {id : String} {effect other : Effect}

theorem exists_node (verdict : Verdict registry graph id effect) :
    ∃ node, graph.node? id = some node := by
  cases verdict with
  | skipped found _ => exact ⟨_, found⟩
  | reached blank found =>
    obtain ⟨node, there, _⟩ := Graph.params_of_blank blank found
    exact ⟨node, there⟩

/-- A node that has passed holds what the verdict says. -/
theorem output (verdict : Verdict registry graph id effect) (passes : effect.passes = true)
    {node : Node} (found : graph.node? id = some node) :
    (effect.on node).data.output = effect.output := by
  cases verdict with
  | skipped found' _ =>
    cases found.symm.trans found'
    rfl
  | @reached _ filled twin compiler _ _ _ _ _ _ _ _ made =>
    cases result : twin.compileAs compiler filled with
    | ok artifact =>
      rw [← made, result]
      rfl
    | error fault =>
      rw [← made, result] at passes
      cases passes

theorem transfer (verdict : Verdict registry left id effect)
    (alike : registry.Resembles left right) : Verdict registry right id effect := by
  induction verdict with
  | skipped found unserved => exact .skipped (alike.unserved _ _ found unserved) unserved
  | reached blank found served _ passed stored made ih =>
    rw [Graph.feeds_of_blank alike.blank] at passed stored ih
    exact .reached (blank.trans alike.blank) found served ih passed stored made

theorem unique (verdict : Verdict registry graph id effect)
    (verdict' : Verdict registry graph id other) : effect = other := by
  induction verdict generalizing other with
  | skipped found unserved =>
    cases verdict' with
    | skipped found' _ =>
      cases found.symm.trans found'
      rfl
    | reached blank found' served =>
      rw [← Graph.kind_of_blank blank found' found, unserved] at served
      cases served
  | reached blank found served _ _ stored made ih =>
    cases verdict' with
    | skipped found' unserved =>
      rw [← Graph.kind_of_blank blank found found', unserved] at served
      cases served
    | reached blank' found' served' inputs' _ stored' made' =>
      have same := blank.trans blank'.symm
      rw [← Graph.kind_of_blank same found found', served'] at served
      cases served
      rw [← made, ← made']
      obtain ⟨twin, there, params⟩ := Graph.params_of_blank same found
      cases found'.symm.trans there
      refine congrArg Effect.ofResult (Node.compileAs_congr (Graph.edges_of_blank same)
        (fun member leads => ?_) found found' params _)
      rw [Graph.feeds_of_blank blank] at leads
      obtain ⟨source, known, holds⟩ := stored member leads
      obtain ⟨source', known', holds'⟩ := stored' member leads
      refine ⟨source, source', known, known', ?_⟩
      rw [holds, holds', ih member leads (inputs' member leads)]

end Verdict

/-- The node gets past a run: it has no compiler, or its compiler gives a result. -/
def Registry.Passes (registry : Registry) (graph : Graph) (id : String) : Prop :=
  ∃ effect, Verdict registry graph id effect ∧ effect.passes = true

namespace Store

open RecipeGraph.Graph (Ordered)

/-- The run has passed these nodes. Each is as its verdict says, and the others are as
they were. -/
structure Along (registry : Registry) (graph : Graph) (passed : List String) (store : Store) :
    Prop where
  blank : store.blank = graph.blank
  decided : ∀ id ∈ passed, ∃ effect, Verdict registry graph id effect ∧ effect.passes = true ∧
    store.node? id = (graph.node? id).map effect.on
  others : ∀ id, id ∉ passed → store.node? id = graph.node? id

namespace Along

variable {registry : Registry} {graph : Graph} {passed rest : List String} {store final : Store}
  {id : String}

theorem start (registry : Registry) (store : Store) (event : Event) :
    Along registry store.toGraph [] (store.emit event) :=
  ⟨rfl, fun _ listed => (nomatch listed), fun _ _ => rfl⟩

theorem verdict (along : Along registry graph passed store)
    (ordered : graph.Ordered (passed ++ id :: rest)) {node : Node} {compiler : NodeKind}
    (found : store.node? id = some node) (served : registry node.kind = some compiler) :
    Verdict registry graph id (.ofResult (node.compileAs compiler store.toGraph)) := by
  have before : ∀ member, ∃ effect, TransGen graph.Feeds member id →
      Verdict registry graph member effect ∧ effect.passes = true ∧
        store.node? member = (graph.node? member).map effect.on := by
    intro member
    by_cases leads : TransGen graph.Feeds member id
    · obtain ⟨effect, known⟩ := along.decided member (ordered.ancestors_before rfl leads)
      exact ⟨effect, fun _ => known⟩
    · exact ⟨.kept none, fun again => (leads again).elim⟩
  choose effects before using before
  refine .reached along.blank found served (fun member leads => (before member leads).1)
    (fun member leads => (before member leads).2.1) (fun member leads => ?_) rfl
  obtain ⟨verdict, passes, left⟩ := before member leads
  obtain ⟨source, there⟩ := verdict.exists_node
  rw [there] at left
  exact ⟨_, left, verdict.output passes there⟩

/-- One more node has passed. -/
theorem next (along : Along registry graph passed store) (fresh : id ∉ passed) {effect : Effect}
    (verdict : Verdict registry graph id effect) (passes : effect.passes = true)
    (blank : final.blank = store.blank)
    (here : final.node? id = (store.node? id).map effect.on)
    (others : ∀ other, other ≠ id → final.node? other = store.node? other) :
    Along registry graph (passed ++ [id]) final where
  blank := blank.trans along.blank
  decided member listed := by
    rcases List.mem_append.mp listed with old | new
    · obtain ⟨earlier, known, went, left⟩ := along.decided member old
      refine ⟨earlier, known, went, ?_⟩
      rw [others member fun same => fresh (same ▸ old)]
      exact left
    · rw [List.mem_singleton.mp new]
      refine ⟨effect, verdict, passes, ?_⟩
      rw [here, along.others id fresh]
  others member unlisted := by
    rw [List.mem_append, List.mem_singleton, not_or] at unlisted
    rw [others member unlisted.2]
    exact along.others member unlisted.1

theorem stage (along : Along registry graph passed store)
    (ordered : graph.Ordered (passed ++ id :: rest)) (stage : Stage registry store id final) :
    Along registry graph (passed ++ [id]) final := by
  have fresh : id ∉ passed := fun again =>
    (List.nodup_append.mp ordered.once).2.2 id again id List.mem_cons_self rfl
  have blank := stage.blank
  have others := fun other => @Stage.others registry store final id other stage
  cases stage with
  | @settled node compiler artifact found served result =>
    obtain ⟨_, named, rfl⟩ := Registry.serving_eq_some.mp served
    have verdict := along.verdict ordered found named
    rw [result] at verdict
    refine along.next fresh verdict rfl blank ?_ others
    rw [node?_settle, if_pos rfl]
    rfl
  | skipped found unserved =>
    have there := (along.others id fresh).symm.trans found
    refine along.next fresh (.skipped there (Registry.serving_eq_none.mp unserved)) rfl blank ?_
      others
    rw [found]
    rfl

theorem stages {later : List String} (along : Along registry graph passed store)
    (stages : Stages registry store later final)
    (ordered : graph.Ordered (passed ++ (later ++ rest))) :
    Along registry graph (passed ++ later) final := by
  induction stages generalizing passed with
  | nil =>
    rw [List.append_nil]
    exact along
  | @cons store middle final first others stage _ ih =>
    have parts : passed ++ (first :: others ++ rest) = (passed ++ [first]) ++ (others ++ rest) := by
      simp
    have further := ih (along.stage ordered stage) (parts ▸ ordered)
    rw [List.append_assoc] at further
    exact further

end Along

end Store

namespace Graph

variable {registry : Registry} {graph left right : Graph} {id member : String}

/-- A run of what the node depends on comes to the member: everything that stands before
it passes. -/
def Comes (registry : Registry) (graph : Graph) (id member : String) : Prop :=
  ∃ front back, graph.topoSort (graph.ancestry id) = .ok (front ++ member :: back) ∧
    ∀ earlier ∈ front, registry.Passes graph earlier

/-- What compiling the node with everything it depends on makes of a node. -/
inductive Touches (registry : Registry) (graph : Graph) (id member : String) :
    (Node → Node) → Prop
  | touched {effect : Effect} (comes : graph.Comes registry id member)
      (verdict : Verdict registry graph member effect) :
      Touches registry graph id member effect.on
  | untouched (spared : ¬ graph.Comes registry id member) :
      Touches registry graph id member (fun node => node)

/-- How compiling the node with everything it depends on ends. -/
inductive Decides (registry : Registry) (graph : Graph) (id : String) :
    Except GraphError CompileReport → Prop
  | cyclic {error : GraphError} (unsorted : graph.topoSort (graph.ancestry id) = .error error) :
      Decides registry graph id (.error error)
  | finished {order : List String} (sorted : graph.topoSort (graph.ancestry id) = .ok order)
      (all : ∀ member ∈ order, registry.Passes graph member) :
      Decides registry graph id (.ok {
        order
        compiled := order.filter (registry.compilers.serves graph)
        skipped := order.filter fun id => !registry.compilers.serves graph id })
  | failed {member : String} {fault : CompileFault} (comes : graph.Comes registry id member)
      (verdict : Verdict registry graph member (.failed fault)) :
      Decides registry graph id (.error (.compileFailure member fault))

end Graph

theorem Registry.Passes.transfer {registry : Registry} {left right : Graph} {id : String}
    (passes : registry.Passes left id) (alike : registry.Resembles left right) :
    registry.Passes right id := by
  obtain ⟨effect, verdict, went⟩ := passes
  exact ⟨effect, verdict.transfer alike, went⟩

/-- A node that fails does not pass. -/
theorem Verdict.not_passes {registry : Registry} {graph : Graph} {id : String}
    {fault : CompileFault} (verdict : Verdict registry graph id (.failed fault)) :
    ¬ registry.Passes graph id := by
  rintro ⟨effect, passing, passes⟩
  cases passing.unique verdict
  cases passes

namespace Registry.Resembles

variable {registry : Registry} {left right : Graph} {id member : String}

theorem symm (alike : registry.Resembles left right) : registry.Resembles right left where
  blank := alike.blank.symm
  unserved id node found unserved := by
    obtain ⟨other, there, params⟩ := Graph.params_of_blank alike.blank.symm found
    have kind := Graph.kind_of_blank alike.blank.symm found there
    have same := alike.unserved id other there (kind ▸ unserved)
    cases found.symm.trans same
    exact there

theorem comes (alike : registry.Resembles left right) (comes : left.Comes registry id member) :
    right.Comes registry id member := by
  obtain ⟨front, back, sorted, passed⟩ := comes
  rw [Graph.topoSort_of_edges (Graph.edges_of_blank alike.blank)] at sorted
  exact ⟨front, back, sorted, fun earlier listed => (passed earlier listed).transfer alike⟩

theorem touches (alike : registry.Resembles left right) {change : Node → Node}
    (touches : left.Touches registry id member change) :
    right.Touches registry id member change := by
  cases touches with
  | touched comes verdict => exact .touched (alike.comes comes) (verdict.transfer alike)
  | untouched spared => exact .untouched fun comes => spared (alike.symm.comes comes)

theorem decides (alike : registry.Resembles left right)
    {result : Except GraphError CompileReport} (decides : left.Decides registry id result) :
    right.Decides registry id result := by
  have sorting := Graph.topoSort_of_edges (Graph.edges_of_blank alike.blank) id
  cases decides with
  | cyclic unsorted => exact .cyclic (sorting ▸ unsorted)
  | finished sorted all =>
    rw [registry.compilers.serves_of_blank alike.blank]
    exact .finished (sorting ▸ sorted) fun member listed => (all member listed).transfer alike
  | failed comes verdict => exact .failed (alike.comes comes) (verdict.transfer alike)

end Registry.Resembles

namespace Graph

variable {registry : Registry} {graph : Graph} {id member : String}

theorem mem_front {front back before rest : List String} {next : String}
    (same : front ++ member :: back = before ++ next :: rest) (unlisted : member ∉ before)
    (apart : member ≠ next) : next ∈ front := by
  rcases List.append_eq_append_iff.mp same with ⟨between, rfl, parts⟩ | ⟨between, rfl, parts⟩
  · cases between with
    | nil => exact (apart (List.cons.inj parts).1).elim
    | cons first _ =>
      rw [(List.cons.inj parts).1] at unlisted
      exact (unlisted (by simp)).elim
  · cases between with
    | nil => exact (apart (List.cons.inj parts).1.symm).elim
    | cons first _ =>
      rw [(List.cons.inj parts).1]
      simp

/-- Only one node can be the first that does not pass. -/
theorem eq_of_first {passes : String → Prop} {front back front' back' : List String}
    {first first' : String} (same : front ++ first :: back = front' ++ first' :: back')
    (before : ∀ id ∈ front, passes id) (before' : ∀ id ∈ front', passes id)
    (stops : ¬ passes first) (stops' : ¬ passes first') : first = first' := by
  by_contra apart
  exact stops' (before _ (mem_front same (fun listed => stops (before' _ listed)) apart))

theorem Decides.unique {result other : Except GraphError CompileReport}
    (decides : graph.Decides registry id result) (decides' : graph.Decides registry id other) :
    result = other := by
  have clash : ∀ {order : List String} {member : String} {fault : CompileFault},
      graph.topoSort (graph.ancestry id) = .ok order →
      (∀ member ∈ order, registry.Passes graph member) → graph.Comes registry id member →
      Verdict registry graph member (.failed fault) → False := by
    rintro order member fault sorted all ⟨front, back, sorted', _⟩ verdict
    cases sorted.symm.trans sorted'
    exact verdict.not_passes (all member (by simp))
  cases decides with
  | cyclic unsorted =>
    cases decides' with
    | cyclic unsorted' =>
      cases unsorted.symm.trans unsorted'
      rfl
    | finished sorted _ => cases unsorted.symm.trans sorted
    | failed comes _ =>
      obtain ⟨_, _, sorted, _⟩ := comes
      cases unsorted.symm.trans sorted
  | finished sorted all =>
    cases decides' with
    | cyclic unsorted => cases unsorted.symm.trans sorted
    | finished sorted' _ =>
      cases sorted.symm.trans sorted'
      rfl
    | failed comes verdict => exact (clash sorted all comes verdict).elim
  | failed comes verdict =>
    cases decides' with
    | cyclic unsorted =>
      obtain ⟨_, _, sorted, _⟩ := comes
      cases unsorted.symm.trans sorted
    | finished sorted all => exact (clash sorted all comes verdict).elim
    | failed comes' verdict' =>
      obtain ⟨front, back, sorted, passed⟩ := comes
      obtain ⟨front', back', sorted', passed'⟩ := comes'
      have same := Except.ok.inj (sorted.symm.trans sorted')
      cases eq_of_first same passed passed' verdict.not_passes verdict'.not_passes
      cases verdict.unique verdict'
      rfl

namespace Touches

variable {change other : Node → Node}

theorem unique (touches : graph.Touches registry id member change)
    (touches' : graph.Touches registry id member other) : change = other := by
  cases touches with
  | touched comes verdict =>
    cases touches' with
    | touched _ verdict' => rw [verdict.unique verdict']
    | untouched spared => exact (spared comes).elim
  | untouched spared =>
    cases touches' with
    | touched comes _ => exact (spared comes).elim
    | untouched => rfl

theorem twice (touches : graph.Touches registry id member change) (node : Node) :
    change (change node) = change node := by
  cases touches with
  | touched => exact Effect.on_on _ node
  | untouched => rfl

/-- Two compiles do the same to a node or leave it to each other. -/
theorem commute {target : String} (touches : graph.Touches registry id member change)
    (touches' : graph.Touches registry target member other) (node : Node) :
    other (change node) = change (other node) := by
  cases touches with
  | untouched => rfl
  | touched _ verdict =>
    cases touches' with
    | untouched => rfl
    | touched _ verdict' => rw [verdict.unique verdict']

theorem unserved (touches : graph.Touches registry id member change) {node : Node}
    (found : graph.node? member = some node) (unserved : registry node.kind = none) :
    change node = node := by
  cases touches with
  | touched _ verdict =>
    rw [verdict.unique (.skipped found unserved)]
    rfl
  | untouched => rfl

end Touches

theorem comes_of_passed {before rest : List String}
    (sorted : graph.topoSort (graph.ancestry id) = .ok (before ++ rest))
    (passed : ∀ earlier ∈ before, registry.Passes graph earlier) (listed : member ∈ before) :
    graph.Comes registry id member := by
  obtain ⟨front, back, rfl⟩ := List.append_of_mem listed
  refine ⟨front, back ++ rest, by simpa using sorted, fun earlier known => passed earlier ?_⟩
  exact List.mem_append_left _ known

/-- Compiling the node with everything it depends on ends as decided. -/
structure Obeys (graph : Graph) (registry : Registry) (id : String)
    (result : Except GraphError CompileReport) (after : Graph) : Prop where
  blank : after.blank = graph.blank
  decides : graph.Decides registry id result
  each : ∀ member, ∃ change, graph.Touches registry id member change ∧
    after.node? member = (graph.node? member).map change

/-- A compile leaves what counts for the next one. -/
theorem Obeys.resembles {result : Except GraphError CompileReport} {after : Graph}
    (obeys : graph.Obeys registry id result after) : registry.Resembles graph after where
  blank := obeys.blank.symm
  unserved member node found unserved := by
    obtain ⟨change, touches, left⟩ := obeys.each member
    rw [left, found, Option.map_some, touches.unserved found unserved]

end Graph

namespace Store

open RecipeGraph.Graph (Obeys)

variable {registry : Registry} {store : Store} {id : String}

theorem Along.passes {graph : Graph} {passed : List String}
    (along : Along registry graph passed store) {member : String} (listed : member ∈ passed) :
    registry.Passes graph member := by
  obtain ⟨effect, verdict, passes, _⟩ := along.decided member listed
  exact ⟨effect, verdict, passes⟩

theorem along_of_stages {order rest : List String} {middle : Store} {subset : List String}
    (sorted : store.topoSort (store.ancestry id) = .ok (order ++ rest))
    (stages : Stages registry (store.emit (.compileStarted subset.length)) order middle) :
    Along registry store.toGraph order middle :=
  (Along.start registry store _).stages stages (ordered_of_topoSort sorted)

theorem obeys_of_finished {order : List String} {final : Store}
    (sorted : store.topoSort (store.ancestry id) = .ok order)
    (along : Along registry store.toGraph order final) :
    store.Obeys registry id (.ok {
        order
        compiled := order.filter (registry.compilers.serves store.toGraph)
        skipped := order.filter fun id => !registry.compilers.serves store.toGraph id }) final.toGraph where
  blank := along.blank
  decides := .finished sorted fun _ listed => along.passes listed
  each member := by
    by_cases listed : member ∈ order
    · obtain ⟨effect, verdict, _, left⟩ := along.decided member listed
      rw [← List.append_nil order] at sorted
      have comes := Graph.comes_of_passed sorted (fun _ known => along.passes known) listed
      exact ⟨effect.on, .touched comes verdict, left⟩
    · refine ⟨_, .untouched ?_, by rw [along.others member listed, Option.map_id']⟩
      rintro ⟨front, back, sorted', _⟩
      cases sorted.symm.trans sorted'
      exact listed (by simp)

theorem obeys_of_failed {before rest : List String} {next : String} {middle : Store}
    (sorted : store.topoSort (store.ancestry id) = .ok (before ++ next :: rest))
    (along : Along registry store.toGraph before middle) {fault : CompileFault}
    (verdict : Verdict registry store.toGraph next (.failed fault)) :
    store.Obeys registry id (.error (.compileFailure next fault))
      (middle.reject next fault).toGraph where
  blank := (blank_reject _ _ _).trans along.blank
  decides := .failed ⟨before, rest, sorted, fun _ listed => along.passes listed⟩ verdict
  each member := by
    have comes : store.Comes registry id next :=
      ⟨before, rest, sorted, fun _ listed => along.passes listed⟩
    have fresh : next ∉ before := fun again => verdict.not_passes (along.passes again)
    rw [node?_reject]
    by_cases here : member = next
    · rw [here, if_pos rfl, along.others next fresh]
      exact ⟨_, .touched comes verdict, rfl⟩
    rw [if_neg here]
    by_cases listed : member ∈ before
    · obtain ⟨effect, known, _, left⟩ := along.decided member listed
      have reached := Graph.comes_of_passed sorted (fun _ known => along.passes known) listed
      exact ⟨effect.on, .touched reached known, left⟩
    · refine ⟨_, .untouched ?_, by rw [along.others member listed, Option.map_id']⟩
      -- The run would have to get past the node that fails.
      rintro ⟨front, back, sorted', passed⟩
      have same := Except.ok.inj (sorted'.symm.trans sorted)
      exact verdict.not_passes (passed next (Graph.mem_front same listed here))

theorem compile_obeys (registry : Registry) (sound : store.WellFormed)
    (known : store.contains id = true) :
    store.Obeys registry id (store.compile registry (store.ancestry id)).1
      (store.compile registry (store.ancestry id)).2.toGraph := by
  cases sorted : store.topoSort (store.ancestry id) with
  | error error =>
    obtain ⟨result, graph⟩ := compile_of_unsorted registry sorted
    rw [result, graph]
    refine ⟨rfl, .cyclic sorted, fun member => ⟨_, .untouched ?_, by rw [Option.map_id']⟩⟩
    rintro ⟨_, _, sorted', _⟩
    cases sorted.symm.trans sorted'
  | ok order =>
    rcases compile_of_sorted registry sound sorted with
      ⟨final, stages, result, graph⟩ |
        ⟨before, next, rest, middle, error, final, rfl, stages, halt, result, graph⟩
    · rw [result, graph]
      have whole := sorted
      rw [← List.append_nil order] at whole
      exact obeys_of_finished sorted (along_of_stages whole stages)
    · rw [result, graph]
      have along := along_of_stages sorted stages
      cases halt with
      | missing absent =>
        have listed : next ∈ store.ancestry id := mem_ancestry_of_topoSort sorted (by simp)
        have there := Graph.contains_of_reaches sound known (Graph.mem_ancestry.mp listed)
        rw [← (Graph.thins_of_blank along.blank).contains, Graph.contains, absent] at there
        cases there
      | failed found served faulty =>
        obtain ⟨_, named, rfl⟩ := Registry.serving_eq_some.mp served
        have verdict := along.verdict (ordered_of_topoSort sorted) found named
        rw [faulty] at verdict
        exact obeys_of_failed sorted along verdict

end Store

end RecipeGraph
