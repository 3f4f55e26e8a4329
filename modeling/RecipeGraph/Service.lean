import RecipeGraph.Graph.Wire
import RecipeGraph.Reports
import RecipeGraph.Service.Request
import RecipeGraph.Starter
import RecipeGraph.Summary

/-!
The service through which an editor works on a session.

A node that fails to compile is an expected outcome and no error of the request.
The counts that the status shows are taken after every change of the graph, so
they can be read while a compile has the session to itself.
-/

namespace RecipeGraph

structure Service where
  registry : Registry := Registry.standard
  session : Session
  nodeCount : Nat
  edgeCount : Nat

/-- What an answer carries. Refused requests and requests for the head get no
content. -/
inductive Content where
  | nothing
  | json (value : Json)
  | text (value : String)

structure Response where
  status : Nat
  content : Content

def GraphError.status : GraphError → Nat
  | .nodeNotFound _ => 404
  | .edgeNotFound _ => 404
  | .duplicateId _ => 409
  | .invalidConnection .. => 400
  | .invalidNodeData .. => 400
  | .cyclicGraph _ => 422
  | .compileFailure .. => 422
  | .trainingFailure .. => 422

namespace Response

def json (status : Nat) (value : Json) : Response :=
  ⟨status, .json value⟩

def failure (status : Nat) (message : String) : Response :=
  json status (.obj [("error", .str message)])

def ofError (error : GraphError) : Response :=
  failure error.status error.message

def ofRefusal (refusal : Refusal) : Response :=
  ⟨refusal.status, .nothing⟩

def ofResult (status : Nat) (encode : α → Json) : Except GraphError α → Response
  | .ok value => json status (encode value)
  | .error error => ofError error

def withoutContent (response : Response) : Response :=
  { response with content := .nothing }

/-- A compiler that fails has answered the request. -/
def ofCompile : Except GraphError CompileReport → Response
  | .ok report => json 200 (.obj [("report", report.toJson), ("success", .bool true)])
  | .error (.compileFailure id fault) =>
    json 200 (.obj [("error", .str fault.message), ("node", .str id), ("success", .bool false)])
  | .error error => ofError error

end Response

namespace Service

def ofSession (registry : Registry) (session : Session) : Service where
  registry := registry
  session := session
  nodeCount := session.store.nodes.length
  edgeCount := session.store.edges.length

/-- A service over a blank session, or over the starter graph. -/
def start (registry : Registry) (scaffold : Bool) : Service :=
  ofSession registry (if scaffold then Session.scaffold.2 else Session.empty)

def graph (service : Service) : Graph :=
  service.session.store.toGraph

def withSession (service : Service) (session : Session) : Service :=
  { service with session }

/-- The service with the counts of its graph taken. -/
def counted (service : Service) : Service :=
  ofSession service.registry service.session

/-- The service behind a change, whose counts are taken only if it succeeded. -/
def behind (service : Service) (result : Session.Result α) : Service :=
  let changed := service.withSession result.2
  if result.1.isOk then changed.counted else changed

def statusJson (service : Service) : Json :=
  .obj [("compiling", .bool service.session.compiling), ("edges", Json.size service.edgeCount),
    ("nodes", Json.size service.nodeCount)]

/-- The node as it is now. -/
def nodeAs (service : Service) (status : Nat) (id : String) : Response :=
  Response.ofResult status Node.toJson (service.graph.node id)

def summaryOf (service : Service) (id : String) : Response :=
  match service.graph.node id with
  | .error error => Response.ofError error
  | .ok node =>
    match node.data.output with
    | some (.model model) => ⟨200, .text model.summary⟩
    | _ => Response.failure 400 ("Node `" ++ id ++ "` has no compiled model")

def viewNode (service : Service) (id : String) : NodeView → Response × Service
  | .inbound =>
    (Response.ofResult 200 (fun _ => Json.list Edge.toJson (service.graph.inbound id))
      (service.graph.node id), service)
  | .connected =>
    (Response.ofResult 200 (Json.list Node.toJson) (service.graph.connected id), service)
  | .compile =>
    let (result, session) := service.session.compile service.registry id
    (Response.ofCompile result, service.withSession session)
  | .train =>
    let training := service.session.train id true
    (Response.ofResult 200 TrainingReport.toJson training.result,
      service.withSession training.session)
  | .summary => (service.summaryOf id, service)

def perform (service : Service) : Call → Response × Service
  | .graph => (Response.json 200 service.graph.toJson, service)
  | .replaceGraph graph =>
    let result := service.session.load graph
    let after := service.behind result
    (Response.ofResult 200 (fun () => after.graph.toJson) result.1, after)
  | .status => (Response.json 200 service.statusJson, service)
  | .addNode node =>
    let result := service.session.addNode node
    let after := service.behind result
    (match result.1 with
      | .ok () => after.nodeAs 201 node.id
      | .error error => Response.ofError error, after)
  | .node id => (service.nodeAs 200 id, service)
  | .updateNode id patch =>
    let (result, session) := service.session.updateNode id patch
    let after := service.withSession session
    (match result with
      | .ok () => after.nodeAs 200 id
      | .error error => Response.ofError error, after)
  | .removeNode id =>
    let result := service.session.removeNode id
    (Response.ofResult 200 Node.toJson result.1, service.behind result)
  | .view view id => service.viewNode id view
  | .addEdge connection =>
    let result := service.session.addEdge connection
    (Response.ofResult 201 Edge.toJson result.1, service.behind result)
  | .removeEdge id =>
    let result := service.session.removeEdge id
    (Response.ofResult 200 Edge.toJson result.1, service.behind result)
  | .schema subject => (Response.json 200 subject.schema, service)

/-- Answers a request. What cannot be read changes nothing. -/
def answer (service : Service) (request : Request) : Response × Service :=
  match request.call with
  | .error refusal => (Response.ofRefusal refusal, service)
  | .ok call =>
    let (response, after) := service.perform call
    (if request.method = .head then response.withoutContent else response, after)

/-- Answers requests one after the other. -/
def answerAll : Service → List Request → List Response × Service
  | service, [] => ([], service)
  | service, request :: rest =>
    let (response, next) := service.answer request
    let (responses, last) := answerAll next rest
    (response :: responses, last)

end Service

end RecipeGraph
