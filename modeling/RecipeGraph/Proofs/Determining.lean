import RecipeGraph.Proofs.Aborting
import RecipeGraph.Proofs.CompileRequest
import RecipeGraph.Proofs.Matching
import RecipeGraph.Proofs.Meaning

/-!
# Fingerprints determine compiles

Compiling what a node depends on goes the same way in any two graphs that give the node
equal fingerprints: in the same order, with equal results, up to the same end. What the
graphs hold beside that makes no difference.
-/

namespace RecipeGraph

open Relation (TransGen)

namespace Sorting

variable {left right : List Edge}

theorem inDegree_of_connections (same : left.map Edge.connection = right.map Edge.connection)
    (id : String) : inDegree left id = inDegree right id := by
  have read : ∀ edges : List Edge, inDegree edges id =
      ((edges.map Edge.connection).filter fun port => port.target = id).length := by
    intro edges
    rw [List.filter_map, List.length_map]
    rfl
  rw [read, same, read]

theorem newestFirst_of_connections (same : left.map Edge.connection = right.map Edge.connection)
    (id : String) : Neighbours.newestFirst.of left id = Neighbours.newestFirst.of right id := by
  have read : ∀ edges : List Edge, Neighbours.newestFirst.of edges id =
      (((edges.map Edge.connection).filter fun port => port.source = id).map (·.target)).reverse := by
    intro edges
    rw [List.filter_map, List.map_map]
    rfl
  rw [read, same, read]

theorem start_of_connections (same : left.map Edge.connection = right.map Edge.connection)
    (ids : List String) : start ids left = start ids right := by
  unfold start
  simp only [inDegree_of_connections same]

theorem run_of_connections (same : left.map Edge.connection = right.map Edge.connection)
    (state : Sorting) : run .newestFirst left state = run .newestFirst right state := by
  fun_induction run .newestFirst left state with
  | case1 state idle => rw [run_of_idle idle]
  | case2 state id rest waiting ih =>
    have step : advance .newestFirst left state id rest =
        advance .newestFirst right state id rest := by
      rw [advance, advance, newestFirst_of_connections same]
    rw [ih, step, ← run_of_waiting waiting]

end Sorting

/-- An order depends on what the edges connect within the subset. -/
theorem Schedule.ofEdges_of_connections {subset : List String} {left right : List Edge}
    (same : (Sorting.within subset left).map Edge.connection =
      (Sorting.within subset right).map Edge.connection) :
    ofEdges .newestFirst subset left = ofEdges .newestFirst subset right := by
  unfold ofEdges
  simp only [Sorting.within_distinct]
  rw [Sorting.start_of_connections same, Sorting.run_of_connections same]

namespace Fingerprint

variable {left right : Graph} {id : String} {fingerprint other : Fingerprint}

/-- A fingerprint has taken down all that connects what it has come to. -/
theorem connections_of_capture (captured : capture left id = .ok fingerprint) :
    (left.upstream id).map Edge.connection = fingerprint.edges := by
  obtain ⟨nodes, rfl, read⟩ := exists_of_capture captured
  unfold ofNodes Graph.upstream Sorting.within
  rw [Graph.ids_of_nodesOf read]
  refine congrArg (List.map Edge.connection) (List.filter_congr fun edge drawn => ?_)
  -- The fingerprint only asks where an edge ends, but the ancestry is closed backwards.
  by_cases into : edge.target ∈ left.ancestry id
  · have source : edge.source ∈ left.ancestry id :=
      Graph.mem_ancestry_of_feeds ⟨edge, drawn, rfl, rfl⟩ into
    simp [into, source]
  · simp [into]

theorem topoSort_of_capture (captured : capture left id = .ok fingerprint)
    (captured' : capture right id = .ok other) (same : (fingerprint == other) = true) :
    left.topoSort (left.ancestry id) = right.topoSort (left.ancestry id) := by
  have walk := (sameUpstream_of_capture captured captured' same).ancestry
  have edges : (left.upstream id).map Edge.connection = (right.upstream id).map Edge.connection := by
    rw [connections_of_capture captured, connections_of_capture captured']
    exact (Fingerprint.beq_iff.mp same).2
  unfold Graph.topoSort
  rw [Schedule.ofEdges_of_connections]
  unfold Graph.upstream at edges
  rw [← walk] at edges
  exact edges

theorem connectedIds_of_capture (captured : capture left id = .ok fingerprint) :
    left.connectedIds id = .ok (left.ancestry id) := by
  obtain ⟨nodes, _, read⟩ := exists_of_capture captured
  unfold Graph.connectedIds Graph.connected
  rw [read]
  exact congrArg Except.ok (Graph.ids_of_nodesOf read)

end Fingerprint

namespace Store

open RecipeGraph.Graph (Ordered SameOutput SameUpstream)

/-- Both runs have come to equal results, which are what the nodes mean. -/
def Abreast (graph : Graph) (passed : List String) (store store' : Store) : Prop :=
  ∀ member ∈ passed, store.Holds graph member ∧ store.SameOutput store'.toGraph member

section Abreast

variable {left right : Graph} {store store' : Store} {passed : List String} {id : String}

theorem Abreast.sameInputs (abreast : Abreast left passed store store') (sound : left.WellFormed)
    (same : left.SameUpstream right id) (blank : store.blank = left.blank)
    (blank' : store'.blank = right.blank) {rest : List String}
    (ordered : left.Ordered (passed ++ id :: rest)) : store.SameInputs store'.toGraph id :=
  Graph.sameInputs_of_holds sound same blank blank' fun member leads =>
    abreast member (ordered.ancestors_before rfl leads)

/-- The node that one run has come to is there for the other. -/
theorem exists_twin (same : left.SameUpstream right id) (blank : store.blank = left.blank)
    (blank' : store'.blank = right.blank) :
    ∃ node other, store.node? id = some node ∧ store'.node? id = some other := by
  obtain ⟨a, b, here, there, _⟩ := (same id .refl).params
  obtain ⟨node, found, _⟩ := Graph.params_of_blank blank.symm here
  obtain ⟨other, found', _⟩ := Graph.params_of_blank blank'.symm there
  exact ⟨node, other, found, found'⟩

/-- Where one run settles a node the other does too. -/
theorem Abreast.settle (abreast : Abreast left passed store store') (sound : left.WellFormed)
    (same : left.SameUpstream right id) (blank : store.blank = left.blank)
    (blank' : store'.blank = right.blank) {rest : List String}
    (ordered : left.Ordered (passed ++ id :: rest)) {node : Node} {artifact : Artifact}
    (found : store.node? id = some node)
    (result : node.compileAs node.kind store.toGraph = .ok artifact) :
    ∃ other twin, store'.node? id = some other ∧
      other.compileAs other.kind store'.toGraph = .ok twin ∧ (artifact == twin) = true ∧
      Abreast left (passed ++ [id]) (store.settle id artifact) (store'.settle id twin) := by
  obtain ⟨_, other, _, found'⟩ := @exists_twin left right store store' id same blank blank'
  have inputs := abreast.sameInputs sound same blank blank' ordered
  obtain ⟨twin, result', equal⟩ := Node.compileAs_beq inputs found found' result
  refine ⟨other, twin, found', result', equal, fun member listed => ?_⟩
  have apart := List.nodup_append.mp ordered.once
  rcases List.mem_append.mp listed with old | new
  · have differs : member ≠ id := apart.2.2 member old id List.mem_cons_self
    have kept : (store.settle id artifact).node? member = store.node? member := by
      rw [node?_settle, if_neg differs]
    have kept' : (store'.settle id twin).node? member = store'.node? member := by
      rw [node?_settle, if_neg differs]
    obtain ⟨holds, a, b, here, there, output⟩ := abreast member old
    exact ⟨holds_of_node? kept holds, a, b, kept.trans here, kept'.trans there, output⟩
  · rw [List.mem_singleton.mp new]
    have made : (store.settle id artifact).node? id = some (node.settled artifact) := by
      rw [node?_settle, if_pos rfl, found]
      rfl
    have made' : (store'.settle id twin).node? id = some (other.settled twin) := by
      rw [node?_settle, if_pos rfl, found']
      rfl
    refine ⟨⟨_, artifact, made, rfl, ?_⟩, _, _, made, made', equal⟩
    exact .of_holds blank found (fun member leads =>
      (abreast member (ordered.ancestors_before rfl leads)).1) result

/-- Where one run halts the other halts with the same error. -/
theorem Abreast.halt (abreast : Abreast left passed store store') (sound : left.WellFormed)
    (same : left.SameUpstream right id) (blank : store.blank = left.blank)
    (blank' : store'.blank = right.blank) {rest : List String}
    (ordered : left.Ordered (passed ++ id :: rest)) {error : GraphError} {final : Store}
    (halt : Halt Registry.standard store id error final) :
    ∃ final', Halt Registry.standard store' id error final' := by
  obtain ⟨node, other, found, found'⟩ := @exists_twin left right store store' id same blank blank'
  cases halt with
  | missing absent => cases absent.symm.trans found
  | @failed node compiler fault found served result =>
    cases served
    have inputs := abreast.sameInputs sound same blank blank' ordered
    have faulty := (Node.compileAs_agrees inputs found found').of_error result
    exact ⟨_, .failed found' rfl faulty⟩

end Abreast

/-- Two runs in the same order stay abreast. -/
theorem Stages.abreast {left right : Graph} {store store' final : Store}
    {passed later rest : List String} (stages : Stages Registry.standard store later final)
    (sound : left.WellFormed) (same : ∀ id ∈ later, left.SameUpstream right id)
    (ordered : left.Ordered (passed ++ (later ++ rest))) (blank : store.blank = left.blank)
    (blank' : store'.blank = right.blank) (abreast : Abreast left passed store store') :
    ∃ final', Stages Registry.standard store' later final' ∧
      Abreast left (passed ++ later) final final' := by
  -- The induction is on the one run. The other is built beside it, stage by stage.
  induction stages generalizing passed store' with
  | nil =>
    rw [List.append_nil]
    exact ⟨store', .nil, abreast⟩
  | @cons store middle final first others stage _ ih =>
    cases stage with
    | skipped _ unserved => cases unserved
    | @settled node compiler artifact found served result =>
      cases served
      obtain ⟨other, twin, found', result', _, further⟩ :=
        abreast.settle sound (same first List.mem_cons_self) blank blank' ordered found result
      have parts : (passed ++ [first]) ++ (others ++ rest) = passed ++ (first :: others ++ rest) := by
        simp
      obtain ⟨final', stages', last⟩ :=
        @ih (store'.settle first twin) (passed ++ [first])
          (fun id member => same id (List.mem_cons_of_mem _ member)) (parts ▸ ordered)
          ((blank_settle _ _ _).trans blank) ((blank_settle _ _ _).trans blank') further
      refine ⟨final', .cons (.settled found' rfl result') stages', ?_⟩
      rw [List.append_assoc] at last
      exact last

/-- The compile of a subset comes to the node, and its compiler gives the result. -/
def Compiles (compilers : Compilers) (store : Store) (subset : List String) (id : String)
    (artifact : Artifact) : Prop :=
  ∃ front back middle node compiler, store.topoSort subset = .ok (front ++ id :: back) ∧
    Stages compilers (store.emit (.compileStarted subset.length)) front middle ∧
    middle.node? id = some node ∧ compilers.serving node.kind = some compiler ∧
    compiler middle.toGraph node = .ok artifact

/-- What a compile gives a node is there when it ends. -/
theorem Compiles.stored {compilers : Compilers} {store : Store} {subset : List String} {id : String}
    {artifact : Artifact} (compiles : store.Compiles compilers subset id artifact)
    (sound : store.WellFormed) : ∃ node, (store.compile compilers subset).2.node? id = some node ∧
      node.data = { errors := [], output := some artifact, compiled := true } := by
  obtain ⟨front, back, middle, node, compiler, sorted, stages, found, served, result⟩ := compiles
  have once : (front ++ id :: back).Nodup := by
    rw [Graph.order_of_topoSort sorted]
    exact Schedule.nodup_order _ _ _
  have later := (List.nodup_cons.mp (List.nodup_append.mp once).2.1).1
  have stage : Stage compilers middle id (middle.settle id artifact) := .settled found served result
  have settled : (middle.settle id artifact).node? id = some (node.settled artifact) := by
    rw [node?_settle, if_pos rfl, found]
    rfl
  refine ⟨node.settled artifact, ?_, rfl⟩
  -- However the compile goes on, it does not come to the node again.
  rcases stages_or_halt compilers (middle.settle id artifact) back with
    ⟨final, rest⟩ | ⟨before, next, behind, last, error, final, rfl, rest, halt⟩
  · rw [compile_of_stages sound sorted (stages.append (.cons stage rest))]
    exact (rest.others later).trans settled
  · have parts : front ++ id :: (before ++ next :: behind) =
        (front ++ id :: before) ++ next :: behind := by simp
    rw [parts] at sorted
    rw [compile_of_halt sound sorted (stages.append (.cons stage rest)) halt]
    rw [List.mem_append, List.mem_cons, not_or, not_or] at later
    exact (halt.others later.2.1).trans ((rest.others later.1).trans settled)

/-- Whatever one compile gives a node the other gives it too, up to equality, and in the
end both have it. -/
def Covers (left right : Store) (subset : List String) : Prop :=
  ∀ member artifact, left.Compiles Registry.standard subset member artifact →
    ∃ other, right.Compiles Registry.standard subset member other ∧ (artifact == other) = true ∧
      (left.compile Registry.standard subset).2.SameOutput
        (right.compile Registry.standard subset).2.toGraph member

section Alike

variable {left right : Store} {id : String}

theorem ordered_of_topoSort {order : List String}
    (sorted : left.topoSort (left.ancestry id) = .ok order) : left.Ordered order := by
  rw [Graph.order_of_topoSort sorted]
  exact Graph.ordered_schedule left.toGraph id

theorem mem_ancestry_of_topoSort {order : List String} {member : String}
    (sorted : left.topoSort (left.ancestry id) = .ok order) (listed : member ∈ order) :
    member ∈ left.ancestry id := by
  rw [Graph.order_of_topoSort sorted] at listed
  exact (Schedule.mem_order.mp listed).1

/-- Up to where one compile comes the other comes abreast with it. -/
theorem abreast_of_sorted (sound : left.WellFormed) (same : left.SameUpstream right.toGraph id)
    {front rest : List String} (sorted : left.topoSort (left.ancestry id) = .ok (front ++ rest))
    {subset : List String} {middle : Store}
    (stages : Stages Registry.standard (left.emit (.compileStarted subset.length)) front middle) :
    ∃ middle', Stages Registry.standard (right.emit (.compileStarted subset.length)) front middle' ∧
      Abreast left.toGraph front middle middle' := by
  refine @Stages.abreast left.toGraph right.toGraph _ _ middle [] front rest stages sound ?_
    (ordered_of_topoSort sorted) rfl rfl fun _ none => nomatch none
  intro member listed
  have found := mem_ancestry_of_topoSort sorted (List.mem_append_left rest listed)
  exact same.upstream (Graph.mem_ancestry.mp found)

theorem covers_of_sameUpstream (sound : left.WellFormed) (sound' : right.WellFormed)
    (same : left.SameUpstream right.toGraph id)
    (orders : left.topoSort (left.ancestry id) = right.topoSort (left.ancestry id)) :
    left.Covers right (left.ancestry id) := by
  rintro member artifact ⟨front, back, middle, node, compiler, sorted, stages, found, served, result⟩
  cases served
  obtain ⟨middle', stages', abreast⟩ := abreast_of_sorted sound same sorted stages
  have listed := mem_ancestry_of_topoSort sorted (show member ∈ front ++ member :: back by simp)
  obtain ⟨other, twin, found', result', equal, _⟩ :=
    abreast.settle sound (same.upstream (Graph.mem_ancestry.mp listed)) stages.blank stages'.blank
      (ordered_of_topoSort sorted) found result
  have here : left.Compiles Registry.standard (left.ancestry id) member artifact :=
    ⟨front, back, middle, node, _, sorted, stages, found, rfl, result⟩
  have there : right.Compiles Registry.standard (left.ancestry id) member twin :=
    ⟨front, back, middle', other, _, orders ▸ sorted, stages', found', rfl, result'⟩
  obtain ⟨a, stored, data⟩ := here.stored sound
  obtain ⟨b, stored', data'⟩ := there.stored sound'
  refine ⟨twin, there, equal, a, b, stored, stored', ?_⟩
  rw [data, data']
  exact equal

theorem compile_of_sameUpstream (sound : left.WellFormed) (sound' : right.WellFormed)
    (same : left.SameUpstream right.toGraph id)
    (orders : left.topoSort (left.ancestry id) = right.topoSort (left.ancestry id)) :
    (left.compile Registry.standard (left.ancestry id)).1 =
      (right.compile Registry.standard (left.ancestry id)).1 := by
  cases sorted : left.topoSort (left.ancestry id) with
  | error error =>
    rw [(compile_of_unsorted Registry.standard sorted).1,
      (compile_of_unsorted Registry.standard (orders ▸ sorted)).1]
  | ok order =>
    rcases stages_or_halt Registry.standard
        (left.emit (.compileStarted (left.ancestry id).length)) order with
      ⟨final, stages⟩ | ⟨front, member, rest, middle, error, final, rfl, stages, halt⟩
    · rw [← List.append_nil order] at sorted
      obtain ⟨final', stages', _⟩ := abreast_of_sorted sound same sorted stages
      rw [List.append_nil] at sorted
      have serves : ∀ member ∈ order, Registry.standard.compilers.serves left.toGraph member =
          Registry.standard.compilers.serves right.toGraph member := by
        intro member listed
        have found := Graph.mem_ancestry.mp (mem_ancestry_of_topoSort sorted listed)
        obtain ⟨a, b, here, there, _⟩ := (same member found).params
        rw [Session.serves_standard (Graph.contains_iff.mpr ⟨a, here⟩),
          Session.serves_standard (Graph.contains_iff.mpr ⟨b, there⟩)]
      rw [compile_of_stages sound sorted stages, compile_of_stages sound' (orders ▸ sorted) stages',
        List.filter_congr serves, List.filter_congr fun member listed =>
          congrArg (!·) (serves member listed)]
    · obtain ⟨middle', stages', abreast⟩ := abreast_of_sorted sound same sorted stages
      have listed := mem_ancestry_of_topoSort sorted (show member ∈ front ++ member :: rest by simp)
      obtain ⟨final', halt'⟩ :=
        abreast.halt sound (same.upstream (Graph.mem_ancestry.mp listed)) stages.blank
          stages'.blank (ordered_of_topoSort sorted) halt
      rw [compile_of_halt sound sorted stages halt,
        compile_of_halt sound' (orders ▸ sorted) stages' halt']

end Alike

end Store

/-- Where fingerprints are equal, compiling all that the node depends on ends with the
same report or the same error in both graphs, and gives the same nodes equal results,
whatever else the graphs hold. -/
theorem Fingerprint.determines_compile {left right : Store} (sound : left.WellFormed)
    (sound' : right.WellFormed) {id : String} {fingerprint other : Fingerprint}
    (captured : capture left.toGraph id = .ok fingerprint)
    (captured' : capture right.toGraph id = .ok other) (same : (fingerprint == other) = true) :
    ∃ members, left.connectedIds id = .ok members ∧ right.connectedIds id = .ok members ∧
      (left.compile Registry.standard members).1 = (right.compile Registry.standard members).1 ∧
      left.Covers right members ∧ right.Covers left members := by
  have upstream := sameUpstream_of_capture captured captured' same
  have walk : left.ancestry id = right.ancestry id := upstream.ancestry
  have orders := topoSort_of_capture captured captured' same
  refine ⟨left.ancestry id, connectedIds_of_capture captured, ?_, ?_, ?_, ?_⟩
  · rw [walk]
    exact connectedIds_of_capture captured'
  · exact Store.compile_of_sameUpstream sound sound' upstream orders
  · exact Store.covers_of_sameUpstream sound sound' upstream orders
  · rw [walk] at orders ⊢
    exact Store.covers_of_sameUpstream sound' sound upstream.symm orders.symm

/-- A number is doubled, beside other nodes. The number has been compiled before. -/
def Store.doubling (number : Float) (edge : String) (others : List Node) : Store := run [
  .load {
    nodes := others ++ [
      { id := "v", params := .value (some number) },
      { id := "m", params := .multiply none (some 2.0) }]
    edges := [⟨edge, "v", "m", none, some Handle.a⟩] },
  .compile Registry.standard ["v"]]

def Store.doubledZero : Store :=
  doubling 0.0 "e" []

/-- The zero is negative here, the edge has another id, and there is another node. -/
def Store.doubledNegativeZero : Store :=
  doubling (-0.0) "f" [{ id := "w", params := .value none }]

theorem Fingerprint.determines_compile_of_zeros :
    ∃ fingerprint other, Store.doubledZero.WellFormed ∧ Store.doubledNegativeZero.WellFormed ∧
      capture Store.doubledZero.toGraph "m" = .ok fingerprint ∧
      capture Store.doubledNegativeZero.toGraph "m" = .ok other ∧ (fingerprint == other) = true ∧
      ∃ members, Store.doubledZero.connectedIds "m" = .ok members ∧
        Store.doubledNegativeZero.connectedIds "m" = .ok members ∧
        (Store.doubledZero.compile Registry.standard members).1 =
          (Store.doubledNegativeZero.compile Registry.standard members).1 ∧
        Store.doubledZero.Covers Store.doubledNegativeZero members ∧
        Store.doubledNegativeZero.Covers Store.doubledZero members := by
  have matching : (match capture Store.doubledZero.toGraph "m",
      capture Store.doubledNegativeZero.toGraph "m" with
    | .ok fingerprint, .ok other => fingerprint == other
    | _, _ => false) = true := by decide +kernel
  have sound := Store.foldl_apply_wellFormed Store.empty_wellFormed
  split at matching
  · next fingerprint other captured captured' =>
    exact ⟨fingerprint, other, sound _, sound _, captured, captured', matching,
      determines_compile (sound _) (sound _) captured captured' matching⟩
  · cases matching

end RecipeGraph
