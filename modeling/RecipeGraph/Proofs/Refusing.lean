import RecipeGraph.Proofs.CompileRequest
import RecipeGraph.Proofs.Requests

/-!
# Refusals leave no trace

An edit that fails changes nothing, neither the graph nor the log nor what a session
has recorded. A request that is refused leaves the graph alone, except that a training
may leave a message on its node.
-/

namespace RecipeGraph

/-- The error of a step that has failed. -/
def Outcome.error? {α : Type} : Except GraphError α → Option GraphError
  | .ok _ => none
  | .error error => some error

@[simp]
theorem Outcome.error?_eq_some {α : Type} {outcome : Except GraphError α} {error : GraphError} :
    Outcome.error? outcome = some error ↔ outcome = .error error := by
  cases outcome <;> simp [Outcome.error?]

/-- The node with one more error. -/
def Node.complaining (message : String) (node : Node) : Node :=
  { node with data := { node.data with errors := node.data.errors ++ [message] } }

@[simp]
theorem Node.addError_of_mem {node : Node} {message : String} (again : message ∈ node.data.errors) :
    node.addError message false = node := by
  simp only [Node.addError, Bool.false_eq_true, if_false, List.contains_iff_mem, if_pos again]

@[simp] theorem Node.addError_of_not_mem {node : Node} {message : String}
    (fresh : message ∉ node.data.errors) :
    node.addError message false = node.complaining message := by
  simp [Node.addError, Node.complaining, fresh]

namespace Store

variable {store : Store}

/-- The error with which an operation ends, if it fails. -/
def refusal? (store : Store) : Operation → Option GraphError
  | .load graph => Outcome.error? (store.load graph).1
  | .addNode node => Outcome.error? (store.addNode node).1
  | .removeNode id => Outcome.error? (store.removeNode id).1
  | .updateNode id patch => Outcome.error? (store.updateNode id patch).1
  | .addEdge connection => Outcome.error? (store.addEdge connection).1
  | .removeEdge id => Outcome.error? (store.removeEdge id).1
  | .addError id message clear => Outcome.error? (store.addError id message clear).1
  | .compile registry subset => Outcome.error? (store.compile registry subset).1

/-- Everything but compiling, which leaves results behind even where it fails. -/
def Operation.edits : Operation → Bool
  | .compile .. => false
  | _ => true

theorem addNode_of_error {node : Node} {error : GraphError} {after : Store}
    (failed : store.addNode node = (.error error, after)) : after = store := by
  unfold addNode at failed
  split at failed
  · exact (Prod.mk.inj failed).2.symm
  · cases failed

theorem addError_of_error {id message : String} {clear : Bool} {error : GraphError}
    {after : Store} (failed : store.addError id message clear = (.error error, after)) :
    after = store := by
  unfold addError at failed
  split at failed
  · cases failed
  · exact (Prod.mk.inj failed).2.symm

/-- An edit that is refused leaves the nodes, the edges, their order and the log. -/
theorem apply_of_refusal {operation : Operation} {error : GraphError}
    (edits : operation.edits = true) (refused : store.refusal? operation = some error) :
    store.apply operation = store := by
  have failed {α : Type} {result : Result α} (broken : Outcome.error? result.1 = some error) :
      result = (.error error, result.2) :=
    Prod.ext (Outcome.error?_eq_some.mp broken) rfl
  cases operation with
  | load graph => exact load_of_error (failed refused)
  | addNode node => exact addNode_of_error (failed refused)
  | removeNode id => exact removeNode_of_error (failed refused)
  | updateNode id patch => exact updateNode_of_error (failed refused)
  | addEdge connection => exact connect_of_error (failed refused)
  | removeEdge id => exact removeEdge_of_error (failed refused)
  | addError id message clear => exact addError_of_error (failed refused)
  | compile registry subset => cases edits

/-- Removes edges one after the other, each looked up by its id, up to the first
that is not there. -/
def removeEdges : Store → List String → Result Unit
  | store, [] => (.ok (), store)
  | store, id :: rest =>
    match store.removeEdge id with
    | (.ok _, store) => removeEdges store rest
    | (.error error, store) => (.error error, store)

/-- Edges that are there can be removed by their ids, and none of them is missed. -/
theorem removeEdges_eq (once : (store.edges.map (·.id)).Nodup) {gone : List Edge}
    (listed : gone.Sublist store.edges) :
    store.removeEdges (gone.map (·.id)) = (.ok (), store.detachAll gone) := by
  induction gone generalizing store with
  | nil => rfl
  | cons edge rest ih =>
    have found : store.edge? edge.id = some edge :=
      Graph.edge?_of_mem once (listed.subset List.mem_cons_self)
    have removed : store.removeEdge edge.id = (.ok edge, store.detach edge) := by
      rw [removeEdge, found]
    have apart := List.nodup_cons.mp (once.sublist (listed.map (·.id)))
    rw [List.map_cons, removeEdges, removed]
    refine ih ?_ ?_
    · rw [edges_detach]
      exact once.sublist (List.filter_sublist.map _)
    · have kept : rest.filter (fun other => other.id ≠ edge.id) = rest := by
        refine List.filter_eq_self.mpr fun other member => decide_eq_true fun same => apart.1 ?_
        exact List.mem_map.mpr ⟨other, member, same⟩
      rw [edges_detach, ← kept]
      exact ((List.sublist_cons_self edge rest).trans listed).filter _

/-- An error is new to its node and comes last there, or nothing changes. -/
theorem addError_cases (sound : store.WellFormed) (id message : String) :
    (store.addError id message false).2.toGraph = store.toGraph ∨
      ∃ node, store.node? id = some node ∧ message ∉ node.data.errors ∧
        (store.addError id message false).2.toGraph =
          (store.modifyNode id (Node.complaining message)).toGraph := by
  cases found : store.node? id with
  | none =>
    left
    rw [addError, Graph.contains, found]
    rfl
  | some node =>
    have known := Graph.contains_iff.mpr ⟨node, found⟩
    have only : ∀ other ∈ store.nodes, other.id = id → other = node := fun other member same =>
      List.inj_on_of_nodup_map sound.nodes_once member (Graph.mem_of_node? found)
        (same.trans (Graph.id_of_node? found).symm)
    have marked : (store.addError id message false).2.toGraph =
        (store.modifyNode id (·.addError message false)).toGraph := by
      rw [addError, if_pos known]
      rfl
    rw [marked]
    by_cases again : message ∈ node.data.errors
    · left
      have same : store.modifyNode id (·.addError message false) =
          store.modifyNode id fun other => other := by
        refine modifyNode_congr fun other member here => ?_
        rw [only other member here, Node.addError_of_mem again]
      rw [same, modifyNode]
      simp
    · right
      have same : store.modifyNode id (·.addError message false) =
          store.modifyNode id (Node.complaining message) := by
        refine modifyNode_congr fun other member here => ?_
        rw [only other member here, Node.addError_of_not_mem again]
      exact ⟨node, rfl, again, congrArg Store.toGraph same⟩

/-- Dropping the result of a node that is there cannot fail. -/
theorem updateNode_of_dropped {id : String} (known : store.contains id = true) :
    (store.updateNode id { output := some none, compiled := some false }).1 = .ok () := by
  obtain ⟨node, found⟩ := Graph.contains_iff.mp known
  rw [updateNode, found]
  rfl

end Store

namespace Session

variable {session : Session}

/-- The error with which an operation ends, if it fails. -/
def refusal? (registry : Registry) (session : Session) : Operation → Option GraphError
  | .load graph => Outcome.error? (session.load graph).1
  | .addNode node => Outcome.error? (session.addNode node).1
  | .removeNode id => Outcome.error? (session.removeNode id).1
  | .updateNode id patch => Outcome.error? (session.updateNode id patch).1
  | .addEdge connection => Outcome.error? (session.addEdge connection).1
  | .removeEdge id => Outcome.error? (session.removeEdge id).1
  | .compile id => Outcome.error? (session.compile registry id).1
  | .train id watched => Outcome.error? (session.train id watched).result

/-- Everything but compiling and training. -/
def Operation.edits (operation : Operation) : Bool :=
  operation.edit?.isSome

/-- An edit that is refused leaves the store and the recorded fingerprints. -/
theorem apply_of_refusal {registry : Registry} {operation : Operation} {error : GraphError}
    (edits : operation.edits = true) (refused : session.refusal? registry operation = some error) :
    session.apply registry operation = session := by
  have back {store : Store} (same : store = session.store) : session.withStore store = session := by
    rw [same]
    rfl
  cases operation with
  | load graph =>
    have broken := Outcome.error?_eq_some.mp refused
    simp only [apply, load] at broken ⊢
    split at broken
    · cases broken
    · next failed => exact back (Store.load_of_error failed)
  | addNode node =>
    have broken : (session.store.addNode node).1 = .error error :=
      Outcome.error?_eq_some.mp refused
    exact back (Store.addNode_of_error (Prod.ext broken rfl))
  | removeNode id =>
    have broken := Outcome.error?_eq_some.mp refused
    simp only [apply, removeNode] at broken ⊢
    split at broken
    · cases broken
    · next failed => exact back (Store.removeNode_of_error failed)
  | updateNode id patch =>
    have broken := Outcome.error?_eq_some.mp refused
    simp only [apply, updateNode] at broken ⊢
    split at broken
    · cases broken
    · next failed => exact back (Store.updateNode_of_error failed)
  | addEdge connection =>
    have broken := Outcome.error?_eq_some.mp refused
    simp only [apply, addEdge, Store.addEdge] at broken ⊢
    split at broken
    · cases broken
    · next failed => exact back (Store.connect_of_error failed)
  | removeEdge id =>
    have broken := Outcome.error?_eq_some.mp refused
    simp only [apply, removeEdge] at broken ⊢
    split at broken
    · cases broken
    · next failed => exact back (Store.removeEdge_of_error failed)
  | compile id => cases edits
  | train => cases edits

/-- A compile that ends neither well nor with a node that failed has done nothing. -/
theorem graph_of_failed_compile {registry : Registry} {id : String} {error : GraphError}
    (sound : session.store.WellFormed) (failed : (session.compile registry id).1 = .error error)
    (other : ∀ member fault, error ≠ .compileFailure member fault) :
    (session.compile registry id).2.store.toGraph = session.store.toGraph := by
  cases found : session.store.node? id with
  | none => rw [compile_of_missing registry found]
  | some node =>
    have known := Graph.contains_iff.mpr ⟨node, found⟩
    obtain ⟨after, same, store, _⟩ := compile_spec registry sound known
    rw [same] at failed ⊢
    change after.store.toGraph = session.store.toGraph
    rw [store]
    by_cases behind : BehindCycle (session.store.upstream id) id
    · obtain ⟨ids, unsorted, _⟩ := Graph.topoSort_of_cyclic behind
      exact (Store.compile_of_unsorted registry unsorted).2
    · obtain ⟨order, sorted, _, permuted, _⟩ := Graph.topoSort_of_acyclic behind
      rcases Store.compile_of_sorted registry sound sorted with
        ⟨final, _, result, _⟩ |
        ⟨before, member, rest, middle, _, final, split, stages, halt, result, _⟩
      · cases failed.symm.trans result
      · -- Everything in the order is there, so that only a fault can end the run.
        have listed : member ∈ order := by
          rw [split]
          simp
        have present := contains_of_mem_ancestry sound known (permuted.mem_iff.mp listed)
        obtain ⟨_, fault, _, rfl, _⟩ := halt.failure
          (((Graph.thins_of_blank stages.blank).contains member).trans present)
        cases failed.symm.trans result
        exact (other member fault rfl).elim

end Session

namespace Response

theorem status_of_ofResult {α : Type} {status : Nat} {encode : α → Json}
    {result : Except GraphError α} (fine : status < 400)
    (refused : 400 ≤ (ofResult status encode result).status) : ∃ error, result = .error error := by
  cases result with
  | ok value => exact (Nat.not_le.mpr fine refused).elim
  | error error => exact ⟨error, rfl⟩

theorem status_of_ofCompile {result : Except GraphError CompileReport}
    (refused : 400 ≤ (ofCompile result).status) :
    ∃ error, result = .error error ∧ ∀ member fault, error ≠ .compileFailure member fault := by
  have fine : ¬ 400 ≤ 200 := by decide
  cases result with
  | ok report => exact (fine refused).elim
  | error error =>
    refine ⟨error, rfl, ?_⟩
    rintro member fault rfl
    exact fine refused

end Response

theorem Store.contains_addNode {store : Store} {node : Node}
    (added : (store.addNode node).1 = .ok ()) :
    (store.addNode node).2.contains node.id = true := by
  unfold addNode at added ⊢
  split at added
  · cases added
  · next free =>
    rw [if_neg free]
    refine Graph.contains_iff.mpr (@Graph.node?_isSome_of_mem _ node.fresh ?_)
    exact List.mem_append_right _ List.mem_cons_self

theorem Session.contains_updateNode {session : Session} (sound : session.store.WellFormed)
    {id : String} {patch : NodePatch} (updated : (session.updateNode id patch).1 = .ok ()) :
    (session.updateNode id patch).2.store.contains id = true := by
  have known : session.store.contains id = true := by
    cases found : session.store.node? id with
    | some node => exact Graph.contains_iff.mpr ⟨node, found⟩
    | none =>
      have missing : session.store.updateNode id patch =
          (.error (.nodeNotFound id), session.store) := by rw [Store.updateNode, found]
      rw [updateNode, missing] at updated
      cases updated
  have steps := steps_apply Registry.standard session (.updateNode id patch)
  have swept := Graph.thins_of_blank (steps.blank sound)
  have merged := Store.thins_updateNode sound id patch
  exact ((merged.trans swept).contains id).trans known

namespace Service

variable {service : Service}

theorem contains_of_nodeAs {status : Nat} {id : String} (fine : status < 400)
    (refused : 400 ≤ (service.nodeAs status id).status) : service.graph.contains id ≠ true := by
  obtain ⟨error, missing⟩ := Response.status_of_ofResult fine refused
  intro known
  obtain ⟨node, found⟩ := Graph.contains_iff.mp known
  cases missing.symm.trans (Graph.node_eq_ok.mpr found)

/-- A call for an edit that fails leaves the graph as it is. -/
theorem graph_of_failed_edit {call : Call} {operation : Session.Operation}
    (asked : call.operation? = some operation) (edits : operation.edits = true) {error : GraphError}
    (failed : service.session.refusal? service.registry operation = some error) :
    (service.perform call).2.graph = service.graph := by
  have spec := (service.perform_spec call).2
  rw [asked] at spec
  change (service.perform call).2.session.store.toGraph = _
  rw [spec]
  change (service.session.apply service.registry operation).store.toGraph = _
  rw [Session.apply_of_refusal edits failed]
  rfl

/-- A call that is refused leaves the graph as it is, unless it asks for training. -/
theorem graph_of_refused (sound : service.session.store.WellFormed) {call : Call}
    (refused : 400 ≤ (service.perform call).1.status) (idle : ∀ id, call ≠ .view .train id) :
    (service.perform call).2.graph = service.graph := by
  have fine : 200 < 400 := by decide
  have made : 201 < 400 := by decide
  cases call with
  | replaceGraph next =>
    obtain ⟨error, failed⟩ := Response.status_of_ofResult fine refused
    exact graph_of_failed_edit rfl rfl (Outcome.error?_eq_some.mpr failed)
  | removeNode id =>
    obtain ⟨error, failed⟩ := Response.status_of_ofResult fine refused
    exact graph_of_failed_edit rfl rfl (Outcome.error?_eq_some.mpr failed)
  | addEdge connection =>
    obtain ⟨error, failed⟩ := Response.status_of_ofResult made refused
    exact graph_of_failed_edit rfl rfl (Outcome.error?_eq_some.mpr failed)
  | removeEdge id =>
    obtain ⟨error, failed⟩ := Response.status_of_ofResult fine refused
    exact graph_of_failed_edit rfl rfl (Outcome.error?_eq_some.mpr failed)
  -- An edit that succeeds is answered with the node, and the node is there.
  | addNode node =>
    cases result : (service.session.addNode node).1 with
    | error error => exact graph_of_failed_edit rfl rfl (Outcome.error?_eq_some.mpr result)
    | ok done =>
      unfold perform at refused
      simp only [result] at refused
      refine (contains_of_nodeAs made refused ?_).elim
      rw [graph, session_behind]
      exact Store.contains_addNode result
  | updateNode id patch =>
    cases result : (service.session.updateNode id patch).1 with
    | error error => exact graph_of_failed_edit rfl rfl (Outcome.error?_eq_some.mpr result)
    | ok done =>
      unfold perform at refused
      simp only [result] at refused
      exact (contains_of_nodeAs fine refused (Session.contains_updateNode sound result)).elim
  | view view id =>
    cases view with
    | compile =>
      obtain ⟨error, failed, other⟩ := Response.status_of_ofCompile refused
      exact Session.graph_of_failed_compile sound failed other
    | train => exact (idle id rfl).elim
    | _ => rfl
  | _ => rfl

theorem status_of_answer {request : Request} {call : Call} (asks : request.call = .ok call) :
    (service.answer request).1.status = (service.perform call).1.status := by
  unfold answer
  rw [asks]
  simp only
  split <;> rfl

theorem after_answer {request : Request} {call : Call} (asks : request.call = .ok call) :
    (service.answer request).2 = (service.perform call).2 := by
  unfold answer
  rw [asks]

/-- What a request that shows the graph is answered follows from the graph. -/
theorem answer_of_graph {after : Service} (same : after.graph = service.graph) {request : Request}
    (shows : request.call = .ok .graph) : (after.answer request).1 = (service.answer request).1 := by
  unfold answer
  rw [shows]
  simp only [perform, same]

/-- What a refused request may have done. `noted` is a training that has failed with a
message that its node did not have. -/
inductive Spared (service : Service) (request : Request) (after : Service) : Prop
  | unchanged (same : after.graph = service.graph)
      (served : ∀ viewing : Request, viewing.call = .ok .graph →
        (after.answer viewing).1 = (service.answer viewing).1) :
      Spared service request after
  | noted {id message : String} {node : Node} (asks : request.call = .ok (.view .train id))
      (found : service.graph.node? id = some node) (fresh : message ∉ node.data.errors)
      (marked : after.graph =
        (service.session.store.modifyNode id (Node.complaining message)).toGraph) :
      Spared service request after

theorem Spared.of_graph {request : Request} {after : Service} (same : after.graph = service.graph) :
    service.Spared request after :=
  .unchanged same fun _ => answer_of_graph same

theorem spared_of_train (sound : service.session.store.WellFormed) {request : Request}
    {id : String} (asks : request.call = .ok (.view .train id)) :
    service.Spared request (service.answer request).2 := by
  rw [after_answer asks]
  change service.Spared request (service.withSession (service.session.train id true).session)
  rcases Session.session_train service.session id true with same | ⟨_, message, _, _, same⟩
  · rw [same]
    exact .of_graph rfl
  · rw [same]
    rcases Store.addError_cases sound id message with unchanged | ⟨node, found, fresh, marked⟩
    · exact .of_graph unchanged
    · exact .noted asks found fresh marked

theorem spared_of_refused (sound : service.session.store.WellFormed) (request : Request)
    (refused : 400 ≤ (service.answer request).1.status) :
    service.Spared request (service.answer request).2 := by
  cases asks : request.call with
  | error refusal =>
    refine .of_graph ?_
    rw [answer, asks]
  | ok call =>
    by_cases trains : ∃ id, call = .view .train id
    · obtain ⟨id, rfl⟩ := trains
      exact spared_of_train sound asks
    · refine .of_graph ?_
      rw [status_of_answer asks] at refused
      rw [after_answer asks]
      exact graph_of_refused sound refused fun id same => trains ⟨id, same⟩

/-- An edit that is refused leaves no trace, be it of a store or of a session. No step
that comes after a first write is one that can fail: edges that have to go are found,
and results can be dropped. A refused request leaves the graph, apart from a message of
a training that has failed. -/
theorem refusals_leave_no_trace :
    (∀ (store : Store) (operation : Store.Operation) (error : GraphError),
      operation.edits = true → store.refusal? operation = some error →
        store.apply operation = store) ∧
    (∀ (operations : List Store.Operation) (goes : Edge → Bool),
      (Store.run operations).removeEdges (((Store.run operations).edges.filter goes).map (·.id)) =
        (.ok (), (Store.run operations).detachAll ((Store.run operations).edges.filter goes))) ∧
    (∀ (store : Store) (id : String), store.contains id = true →
      (store.updateNode id { output := some none, compiled := some false }).1 = .ok ()) ∧
    (∀ (registry : Registry) (session : Session) (operation : Session.Operation)
      (error : GraphError), operation.edits = true →
        session.refusal? registry operation = some error →
          session.apply registry operation = session) ∧
    ∀ (registry : Registry) (scaffold : Bool) (requests : List Request) (request : Request),
      400 ≤ (((start registry scaffold).answerAll requests).2.answer request).1.status →
        ((start registry scaffold).answerAll requests).2.Spared request
          (((start registry scaffold).answerAll requests).2.answer request).2 := by
  refine ⟨?_, ?_, ?_, ?_, ?_⟩
  · intro store operation error
    exact Store.apply_of_refusal
  · intro operations goes
    have sound := Store.foldl_apply_wellFormed Store.empty_wellFormed operations
    exact Store.removeEdges_eq sound.edges_once List.filter_sublist
  · intro store id
    exact Store.updateNode_of_dropped
  · intro registry session operation error
    exact Session.apply_of_refusal
  · intro registry scaffold requests request
    have reached : Session.Reached registry Session.Operation.OfDocument
        ((start registry scaffold).answerAll requests).2.session :=
      answerAll_reached (fun _ _ read => read.ofDocument) scaffold requests
    exact spared_of_refused reached.wellFormed request

/-- The training node of the starter graph is not compiled yet, so training it is
refused, with a message on the node. -/
theorem training_refused :
    400 ≤ ((start Registry.standard true).answer
        ⟨.post, ⟨"/graph/nodes/train1/train"⟩, none, ""⟩).1.status ∧
      (start Registry.standard true).Spared ⟨.post, ⟨"/graph/nodes/train1/train"⟩, none, ""⟩
        ((start Registry.standard true).answer
          ⟨.post, ⟨"/graph/nodes/train1/train"⟩, none, ""⟩).2 ∧
      (((start Registry.standard true).answer
          ⟨.post, ⟨"/graph/nodes/train1/train"⟩, none, ""⟩).2.graph.node? "train1").map
            (·.data.errors) = some [TrainingFault.missingInputs.message] := by
  have refused : 400 ≤ ((start Registry.standard true).answer
      ⟨.post, ⟨"/graph/nodes/train1/train"⟩, none, ""⟩).1.status := by decide +kernel
  refine ⟨refused, refusals_leave_no_trace.2.2.2.2 Registry.standard true [] _ refused, ?_⟩
  decide +kernel

end Service

end RecipeGraph
