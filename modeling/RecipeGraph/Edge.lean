import RecipeGraph.Node

/-!
Edges between nodes, and which of them are allowed.
-/

namespace RecipeGraph

structure Edge where
  id : String
  source : String
  target : String
  sourceHandle : Option String
  targetHandle : Option String
deriving DecidableEq, Repr

/-- An edge that is not drawn yet and has no id. -/
structure Connection where
  source : String
  target : String
  sourceHandle : Option String
  targetHandle : Option String
deriving DecidableEq, Repr

namespace Edge

/-- Whether the edge ends in this handle of this node. -/
def occupies (edge : Edge) (target : String) (handle : Option String) : Bool :=
  edge.target = target && edge.targetHandle = handle

def touches (edge : Edge) (id : String) : Bool :=
  edge.source = id || edge.target = id

/-- Whether the edge has to make room for another: they share the id or the
handle in which they end. -/
def yieldsTo (edge other : Edge) : Bool :=
  edge.id = other.id || edge.occupies other.target other.targetHandle

def connection (edge : Edge) : Connection :=
  ⟨edge.source, edge.target, edge.sourceHandle, edge.targetHandle⟩

end Edge

namespace Connection

/-- The connection with the default handle of the target where it names none. -/
def withHandle (connection : Connection) (target : NodeKind) : Connection :=
  { connection with targetHandle := connection.targetHandle <|> target.defaultHandle }

/-- Id of an edge that is drawn by hand: the four names run together. -/
def edgeId (connection : Connection) : String :=
  "edge-" ++ connection.source ++ connection.sourceHandle.getD "" ++ "-" ++
    connection.target ++ connection.targetHandle.getD ""

def toEdge (connection : Connection) (id : String) : Edge :=
  ⟨id, connection.source, connection.target, connection.sourceHandle,
    connection.targetHandle⟩

end Connection

/-- Whether a source of this kind may be plugged into a handle of a target of
that kind. Kinds without inputs accept nothing. -/
def NodeKind.accepts (target source : NodeKind) (sourceHandle targetHandle : Option String) :
    Bool :=
  let handle := targetHandle <|> target.defaultHandle
  match target with
  | .multiply =>
    (handle = some Handle.a || handle = some Handle.b) && source.producesValue
  | .denseLayer => handle = some Handle.input && source.producesLayer
  | .model => handle = some Handle.input && source.producesLayer
  | .trainModel =>
    if handle = some Handle.model then
      source = .model && (sourceHandle = none || sourceHandle = some Handle.output)
    else (handle = some Handle.x || handle = some Handle.y) && source ≠ .trainModel
  | .value => false
  | .tensor => false
  | .inputLayer => false

/-- No node is connected to itself, and the handles have to fit the kinds. -/
def Node.mayFeed (source target : Node) (sourceHandle targetHandle : Option String) : Bool :=
  source.id ≠ target.id &&
    target.kind.accepts source.kind sourceHandle targetHandle

end RecipeGraph
