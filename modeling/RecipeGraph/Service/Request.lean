import RecipeGraph.Graph.Wire
import RecipeGraph.Service.Media
import RecipeGraph.Service.Route
import RecipeGraph.Service.Target
import RecipeGraph.Text.Percent

/-!
Requests, and what they ask for.

A request is checked from the outside in: the path, the method, the id in the
path, the content type, the length of the body, the body itself. What is asked for
is looked at only then.
-/

namespace RecipeGraph

inductive Method where
  | get
  | head
  | post
  | put
  | patch
  | delete
  | other
deriving DecidableEq, Repr

namespace Method

def ofName (name : String) : Method :=
  if name = "GET" then .get
  else if name = "HEAD" then .head
  else if name = "POST" then .post
  else if name = "PUT" then .put
  else if name = "PATCH" then .patch
  else if name = "DELETE" then .delete
  else .other

/-- A method is a word of token characters. -/
def parse? (text : String) : Option Method :=
  if !text.isEmpty && text.toList.all MediaType.isToken then some (ofName text) else none

/-- The method whose answer counts. -/
def asked : Method → Method
  | .head => .get
  | method => method

end Method

/-- A request without a body has an empty one. -/
structure Request where
  method : Method
  target : Target
  contentType : Option String
  body : String
deriving DecidableEq, Repr

/-- What a request asks for once it has been read. -/
inductive Call where
  | graph
  | replaceGraph (graph : Graph)
  | status
  | addNode (node : Node)
  | node (id : String)
  | updateNode (id : String) (patch : NodePatch)
  | removeNode (id : String)
  | view (view : NodeView) (id : String)
  | addEdge (connection : Connection)
  | removeEdge (id : String)
  | schema (subject : Subject)

/-- Why a request cannot be read. -/
inductive Refusal where
  | unknownPath
  | unknownMethod
  | badEscapes
  | unsupportedMedia
  | tooLarge
  | malformedBody
  | wrongBody
deriving DecidableEq, Repr

def Refusal.status : Refusal → Nat
  | .unknownPath => 404
  | .unknownMethod => 405
  | .badEscapes => 400
  | .unsupportedMedia => 415
  | .tooLarge => 413
  | .malformedBody => 400
  | .wrongBody => 422

/-- Method that starts work on a node, or only looks at it. -/
def NodeView.method : NodeView → Method
  | .compile => .post
  | .train => .post
  | _ => .get

namespace Request

/-- Whether a text can stand in a header. -/
def isHeaderText (text : String) : Bool :=
  text.toList.all fun c => c = '\t' || (32 ≤ c.toNat && c.toNat ≠ 127)

/-- The request of these parts, if each of them can be sent. -/
def build? (method target : String) (contentType : Option String) (body : String) :
    Option Request := do
  let method ← Method.parse? method
  let target ← Target.parse? target
  if contentType.all isHeaderText then return ⟨method, target, contentType, body⟩ else none

def identifier (segment : String) : Except Refusal String :=
  match Text.unescape? segment with
  | some id => .ok id
  | none => .error .badEscapes

def isJson (request : Request) : Bool :=
  match request.contentType.bind MediaType.parse? with
  | some media => media.isJson
  | none => false

/-- Most bytes that a body may have. -/
def maxBody : Nat := 2097152

/-- The content of the body. -/
def payload (request : Request) (decode : Decoder α) : Except Refusal α :=
  if request.isJson then
    if request.body.utf8ByteSize ≤ maxBody then
      match decode.ofText request.body with
      | .ok content => .ok content
      | .error fault => .error (if fault.ofText then .malformedBody else .wrongBody)
    else .error .tooLarge
  else .error .unsupportedMedia

def callAt (request : Request) (route : Route) : Except Refusal Call :=
  match route, request.method.asked with
  | .graph, .get => .ok .graph
  | .graph, .put => (request.payload Graph.decode).map .replaceGraph
  | .status, .get => .ok .status
  | .nodes, .post => (request.payload Node.decode).map .addNode
  | .node segment, .get => (identifier segment).map .node
  | .node segment, .patch => do
    let id ← identifier segment
    let patch ← request.payload NodePatch.decode
    return .updateNode id patch
  | .node segment, .delete => (identifier segment).map .removeNode
  | .view view segment, method =>
    if method = view.method then (identifier segment).map (.view view)
    else .error .unknownMethod
  | .edges, .post => (request.payload Connection.decode).map .addEdge
  | .edge segment, .delete => (identifier segment).map .removeEdge
  | .schema subject, .get => .ok (.schema subject)
  | _, _ => .error .unknownMethod

def call (request : Request) : Except Refusal Call :=
  match Route.ofPath? request.target.path with
  | some route => request.callAt route
  | none => .error .unknownPath

end Request

end RecipeGraph
