import RecipeGraph.Event
import RecipeGraph.Failure
import RecipeGraph.Graph

/-!
The graph under edit, with the notices of everything that happens to it.

Every operation gives its result together with the store as it is afterwards,
whether it succeeds or fails. An edge that goes away, for whatever reason, does
so by `detach`: the literal it had brought to its target is forgotten and so is
the compiled result of the target.
-/

namespace RecipeGraph

/-- `log` holds all notices so far, the oldest first. -/
structure Store extends Graph where
  log : List Event := []

namespace Store

abbrev Result (α : Type) := Except GraphError α × Store

def empty : Store :=
  { nodes := [], edges := [] }

def emit (store : Store) (event : Event) : Store :=
  { store with log := store.log ++ [event] }

/-- Changes the node with this id, if there is one. -/
def modifyNode (store : Store) (id : String) (change : Node → Node) : Store :=
  { store with nodes := store.nodes.map fun node => if node.id = id then change node else node }

def dropNode (store : Store) (id : String) : Store :=
  { store with nodes := store.nodes.filter fun node => node.id ≠ id }

def dropEdge (store : Store) (id : String) : Store :=
  { store with edges := store.edges.filter fun edge => edge.id ≠ id }

/-- Forgets the compiled result of a node. -/
def reset (store : Store) (id : String) : Store :=
  if store.contains id then
    (store.modifyNode id Node.uncompiled).emit (.nodeUpdated id)
  else store

/-- Remembers a literal for the handle in which an edge ends. -/
def bindHandle (store : Store) (edge : Edge) (literal : Option Float) : Store :=
  match edge.targetHandle with
  | some handle => store.modifyNode edge.target fun node => node.bind handle literal
  | none => store

/-- Takes an edge out of the graph. -/
def detach (store : Store) (edge : Edge) : Store :=
  (((store.dropEdge edge.id).bindHandle edge none).reset edge.target).emit (.edgeRemoved edge.id)

def detachAll (store : Store) (edges : List Edge) : Store :=
  edges.foldl detach store

/-- Adds a node with nothing left on it. -/
def addNode (store : Store) (node : Node) : Result Unit :=
  if store.contains node.id then (.error (.duplicateId node.id), store)
  else
    (.ok (), ({ store with nodes := store.nodes ++ [node.fresh] }).emit (.nodeAdded node.id))

/-- Removes a node together with the edges at it. The node is given back as it
is without them. -/
def removeNode (store : Store) (id : String) : Result Node :=
  if store.contains id then
    let cleared := store.detachAll (store.edges.filter (·.touches id))
    match cleared.node? id with
    | some node => (.ok node, (cleared.dropNode id).emit (.nodeRemoved id))
    | none => (.error (.nodeNotFound id), cleared)
  else (.error (.nodeNotFound id), store)

def removeEdge (store : Store) (id : String) : Result Edge :=
  match store.edge? id with
  | some edge => (.ok edge, store.detach edge)
  | none => (.error (.edgeNotFound id), store)

/-- Hands a literal on along one edge. A target whose field holds the number
already is left alone. -/
def passLiteral (literal : Option Float) (store : Store) (edge : Edge) : Store :=
  match edge.targetHandle, store.node? edge.target with
  | some handle, some target =>
    match target.params.bound? handle with
    | some held =>
      if held == literal then store
      else (store.bindHandle edge literal).reset edge.target
    | none => store
  | _, _ => store

/-- Hands the literal of a node on along all edges that leave it. -/
def passLiterals (store : Store) (id : String) (literal : Option Float) : Store :=
  (store.edges.filter (·.source = id)).foldl (passLiteral literal) store

/-- Merges a patch into a node. A patch that names fields, even none of them,
makes a value node hand on its literal anew. -/
def updateNode (store : Store) (id : String) (patch : NodePatch) : Result Unit :=
  match store.node? id with
  | none => (.error (.nodeNotFound id), store)
  | some node =>
    match node.patched patch with
    | .error fault => (.error (.invalidNodeData id fault), store)
    | .ok patched =>
      let updated := (store.modifyNode id fun _ => patched).emit (.nodeUpdated id)
      if patch.config.isSome && patched.kind = .value then
        (.ok (), updated.passLiterals id patched.params.literal)
      else (.ok (), updated)

/-- Records an error on a node, at most once. -/
def addError (store : Store) (id message : String) (clear : Bool) : Result Unit :=
  if store.contains id then
    (.ok (), (store.modifyNode id (·.addError message clear)).emit (.nodeUpdated id))
  else (.error (.nodeNotFound id), store)

/-- Puts an edge in place after those that have to make room are gone. The handle
takes the literal of the new source, if it has one. -/
def place (store : Store) (edge : Edge) (literal : Option Float) : Store :=
  let cleared := store.detachAll (store.edges.filter (·.yieldsTo edge))
  let bound := (cleared.bindHandle edge literal).reset edge.target
  ({ bound with edges := bound.edges ++ [edge] }).emit (.edgeAdded edge.id)

/-- Draws an edge, under the given id or under the one that its ends spell. -/
def connect (store : Store) (connection : Connection) (id : Option String) : Result Edge :=
  match store.node? connection.source, store.node? connection.target with
  | none, _ => (.error (.nodeNotFound connection.source), store)
  | some _, none => (.error (.nodeNotFound connection.target), store)
  | some source, some target =>
    if source.mayFeed target connection.sourceHandle connection.targetHandle then
      let connection := connection.withHandle target.kind
      let edge := connection.toEdge (id.getD connection.edgeId)
      (.ok edge, store.place edge source.params.literal)
    else (.error (.invalidConnection connection.source connection.target), store)

def addEdge (store : Store) (connection : Connection) : Result Edge :=
  store.connect connection none

def addNodes : Store → List Node → Result Unit
  | store, [] => (.ok (), store)
  | store, node :: rest =>
    match store.addNode node with
    | (.ok (), store) => addNodes store rest
    | (.error error, store) => (.error error, store)

def addEdges : Store → List Edge → Result Unit
  | store, [] => (.ok (), store)
  | store, edge :: rest =>
    match store.connect edge.connection (some edge.id) with
    | (.ok _, store) => addEdges store rest
    | (.error error, store) => (.error error, store)

/-- Builds a graph node by node and edge by edge, each checked as if drawn by
hand. -/
def build (graph : Graph) : Result Unit :=
  match empty.addNodes graph.nodes with
  | (.ok (), store) => store.addEdges graph.edges
  | (.error error, store) => (.error error, store)

/-- Replaces the whole graph, unless the new one cannot be built. -/
def load (store : Store) (graph : Graph) : Result Unit :=
  match build graph with
  | (.ok (), built) => (.ok (), ({ store with toGraph := built.toGraph }).emit .reloaded)
  | (.error error, _) => (.error error, store)

end Store

end RecipeGraph
