import RecipeGraph.Proofs.Refusing
import RecipeGraph.Proofs.Literals

/-!
# Counts that never drift

A service keeps the counts of its graph beside the graph and takes them anew only
after changes that can alter them. Whatever is asked of it, and however that ends,
the counts are right again behind the answer, and no compile is under way.
-/

namespace RecipeGraph

namespace Graph

theorem Thins.length_nodes {before after : Graph} (thins : before.Thins after) :
    after.nodes.length = before.nodes.length := by
  simpa only [Graph.outline, List.length_map] using congrArg List.length thins.outline

end Graph

namespace Session

variable {session : Session}

theorem compiling_compile (registry : Registry) (sound : session.store.WellFormed)
    (idle : session.compiling = false) (id : String) :
    (session.compile registry id).2.compiling = false := by
  cases found : session.store.node? id with
  | none => rwa [compile_of_missing registry found]
  | some node =>
    obtain ⟨after, done, _, lowered, _⟩ :=
      compile_spec registry sound (Graph.contains_iff.mpr ⟨node, found⟩)
    rw [done]
    exact lowered

/-- Behind every operation, no compile is under way. -/
theorem compiling_apply (registry : Registry) (sound : session.store.WellFormed)
    (idle : session.compiling = false) (operation : Operation) :
    (session.apply registry operation).compiling = false := by
  have lasting : Lasting fun session => session.compiling = false :=
    ⟨fun _ _ idle => idle, fun _ _ idle => idle⟩
  exact lasting.apply registry idle (fun _ => idle) (compiling_compile registry sound idle) operation

/-- Where the edit of the store keeps the outline and the edges, so does the operation. -/
theorem lengths_apply (registry : Registry) (sound : session.store.WellFormed)
    {operation : Operation} (thins : session.store.Thins (session.edited operation).toGraph)
    (kept : (session.edited operation).edges = session.store.edges) :
    (session.apply registry operation).store.nodes.length = session.store.nodes.length ∧
      (session.apply registry operation).store.edges.length = session.store.edges.length := by
  have blank := (steps_apply registry session operation).blank sound
  refine ⟨?_, ?_⟩
  · exact (thins.trans (Graph.thins_of_blank blank)).length_nodes
  · rw [Graph.edges_of_blank blank, kept]

end Session

namespace Request

variable {request : Request}

theorem call_of_graph (gets : request.method = .get) (path : request.target.path = "/graph") :
    request.call = .ok .graph := by
  rw [call, path]
  change request.callAt .graph = .ok .graph
  unfold callAt
  rw [gets]
  rfl

theorem call_of_status (gets : request.method = .get)
    (path : request.target.path = "/graph/status") : request.call = .ok .status := by
  rw [call, path]
  change request.callAt .status = .ok .status
  unfold callAt
  rw [gets]
  rfl

end Request

namespace Service

variable {service : Service}

/-- The counts are those of the graph, which is well formed, and no compile is under way. -/
structure Accurate (service : Service) : Prop where
  sound : service.session.store.WellFormed
  idle : service.session.compiling = false
  nodes : service.nodeCount = service.graph.nodes.length
  edges : service.edgeCount = service.graph.edges.length

theorem Accurate.ofSession {registry : Registry} {session : Session}
    (sound : session.store.WellFormed) (idle : session.compiling = false) :
    (ofSession registry session).Accurate :=
  ⟨sound, idle, rfl, rfl⟩

@[simp] theorem Accurate.start (registry : Registry) (scaffold : Bool) :
    (start registry scaffold).Accurate := by
  cases scaffold
  · exact .ofSession Store.empty_wellFormed rfl
  · refine .ofSession (Store.load_wellFormed Store.empty_wellFormed starterGraph) ?_
    exact Session.compiling_apply registry Store.empty_wellFormed rfl (.load starterGraph)

/-- The counts need not be taken anew behind a change that keeps them. -/
theorem Accurate.withSession (accurate : service.Accurate) (operation : Session.Operation)
    (thins : service.session.store.Thins (service.session.edited operation).toGraph)
    (kept : (service.session.edited operation).edges = service.session.store.edges) :
    (service.withSession (service.session.apply service.registry operation)).Accurate := by
  have lengths := Session.lengths_apply service.registry accurate.sound thins kept
  exact ⟨Session.apply_wellFormed _ accurate.sound _,
    Session.compiling_apply _ accurate.sound accurate.idle _,
    accurate.nodes.trans lengths.1.symm, accurate.edges.trans lengths.2.symm⟩

/-- The counts are taken anew where an edit has succeeded, and are still right where it
has failed. -/
theorem Accurate.behind (accurate : service.Accurate) (operation : Session.Operation)
    (edits : operation.edits = true) {result : Session.Result α}
    (applied : service.session.apply service.registry operation = result.2)
    (ended : service.session.refusal? service.registry operation = Outcome.error? result.1) :
    (service.behind result).Accurate := by
  have sound := Session.apply_wellFormed service.registry accurate.sound operation
  have idle := Session.compiling_apply service.registry accurate.sound accurate.idle operation
  rw [applied] at sound idle
  cases outcome : result.1 with
  | ok value =>
    have retaken : service.behind result = Service.ofSession service.registry result.2 := by
      unfold Service.behind
      rw [outcome]
      rfl
    rw [retaken]
    exact .ofSession sound idle
  | error error =>
    have refused : service.session.refusal? service.registry operation = some error :=
      ended.trans (Outcome.error?_eq_some.mpr outcome)
    have unchanged : service.behind result = service := by
      unfold Service.behind
      rw [outcome, ← applied, Session.apply_of_refusal edits refused]
      rfl
    rwa [unchanged]

/-- Every call leaves the counts right, be it served, refused or failed. -/
theorem Accurate.perform (accurate : service.Accurate) (call : Call) :
    (service.perform call).2.Accurate := by
  cases call with
  | replaceGraph next => exact accurate.behind (.load next) rfl rfl rfl
  | addNode fresh => exact accurate.behind (.addNode fresh) rfl rfl rfl
  | removeNode id => exact accurate.behind (.removeNode id) rfl rfl rfl
  | addEdge connection => exact accurate.behind (.addEdge connection) rfl rfl rfl
  | removeEdge id => exact accurate.behind (.removeEdge id) rfl rfl rfl
  | updateNode id patch =>
    exact accurate.withSession (.updateNode id patch)
      (Store.thins_updateNode accurate.sound id patch) (Store.edges_updateNode _ id patch)
  | view view id =>
    cases view with
    | compile => exact accurate.withSession (.compile id) (.refl _) rfl
    | train => exact accurate.withSession (.train id true) (.refl _) rfl
    | _ => exact accurate
  | _ => exact accurate

theorem Accurate.answer (accurate : service.Accurate) (request : Request) :
    (service.answer request).2.Accurate := by
  unfold Service.answer
  split
  · exact accurate
  · exact accurate.perform _

theorem Accurate.answerAll (accurate : service.Accurate) (requests : List Request) :
    (service.answerAll requests).2.Accurate := by
  induction requests generalizing service with
  | nil => exact accurate
  | cons request rest ih => exact ih (accurate.answer request)

theorem answer_of_get {request : Request} {call : Call} (gets : request.method = .get)
    (asks : request.call = .ok call) :
    (service.answer request).1 = (service.perform call).1 := by
  unfold Service.answer
  rw [asks, gets]
  rfl

/-- At any moment, the two numbers that the status shows are the lengths of the two lists
that the graph shows, and no compile is shown to be under way. -/
theorem status_counts_graph (registry : Registry) (scaffold : Bool) (requests : List Request)
    {asking viewing : Request} (asks : asking.method = .get)
    (asked : asking.target.path = "/graph/status") (views : viewing.method = .get)
    (viewed : viewing.target.path = "/graph") :
    ∃ nodes edges : List Json,
      (((start registry scaffold).answerAll requests).2.answer viewing).1 =
        Response.json 200 (.obj [("edges", .arr edges), ("nodes", .arr nodes)]) ∧
      (((start registry scaffold).answerAll requests).2.answer asking).1 =
        Response.json 200 (.obj [("compiling", .bool false), ("edges", Json.size edges.length),
          ("nodes", Json.size nodes.length)]) := by
  have accurate := (Accurate.start registry scaffold).answerAll requests
  generalize ((start registry scaffold).answerAll requests).2 = service at accurate
  refine ⟨service.graph.nodes.map Node.toJson, service.graph.edges.map Edge.toJson, ?_, ?_⟩
  · rw [answer_of_get views (Request.call_of_graph views viewed)]
    rfl
  · rw [answer_of_get asks (Request.call_of_status asks asked)]
    change Response.json 200 service.statusJson = _
    rw [statusJson, accurate.nodes, accurate.edges, accurate.idle, List.length_map, List.length_map]

/-- Draws an edge to a layer and one from it, and removes the layer twice. -/
def pruning : List Request := [
  ⟨.post, ⟨"/graph/edges"⟩, some "application/json",
    "\x7b\"source\":\"input1\",\"target\":\"dense1\"\x7d"⟩,
  ⟨.post, ⟨"/graph/edges"⟩, some "application/json",
    "\x7b\"source\":\"dense1\",\"target\":\"model1\"\x7d"⟩,
  ⟨.delete, ⟨"/graph/nodes/dense1"⟩, none, ""⟩,
  ⟨.delete, ⟨"/graph/nodes/dense1"⟩, none, ""⟩]

/-- Both edges go with the layer, and removing it again fails. -/
theorem status_counts_graph_pruned :
    ((start Registry.standard true).answerAll pruning).1.map (·.status) = [201, 201, 200, 404] ∧
      ∃ nodes edges : List Json,
        (((start Registry.standard true).answerAll pruning).2.answer
            ⟨.get, ⟨"/graph"⟩, none, ""⟩).1 =
          Response.json 200 (.obj [("edges", .arr edges), ("nodes", .arr nodes)]) ∧
        (((start Registry.standard true).answerAll pruning).2.answer
            ⟨.get, ⟨"/graph/status"⟩, none, ""⟩).1 =
          Response.json 200 (.obj [("compiling", .bool false), ("edges", Json.size edges.length),
            ("nodes", Json.size nodes.length)]) :=
  ⟨by decide +kernel, status_counts_graph Registry.standard true pruning rfl rfl rfl rfl⟩

end Service

end RecipeGraph
