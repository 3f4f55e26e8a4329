import RecipeGraph.Edge

/-!
Graphs: nodes and edges, both in the order in which they were added.
-/

namespace RecipeGraph

structure Graph where
  nodes : List Node
  edges : List Edge
deriving Repr

namespace Graph

def empty : Graph :=
  ⟨[], []⟩

def node? (graph : Graph) (id : String) : Option Node :=
  graph.nodes.find? fun node => node.id = id

def edge? (graph : Graph) (id : String) : Option Edge :=
  graph.edges.find? fun edge => edge.id = id

def contains (graph : Graph) (id : String) : Bool :=
  (graph.node? id).isSome

def ids (graph : Graph) : List String :=
  graph.nodes.map (·.id)

def inbound (graph : Graph) (id : String) : List Edge :=
  graph.edges.filter fun edge => edge.target = id

/-- The edge that ends in a handle of a node. -/
def inputEdge? (graph : Graph) (id handle : String) : Option Edge :=
  graph.edges.find? fun edge => edge.occupies id (some handle)

/-- The node plugged into a handle of a node. -/
def inputNode? (graph : Graph) (id handle : String) : Option Node :=
  match graph.inputEdge? id handle with
  | some edge => graph.node? edge.source
  | none => none

end Graph

end RecipeGraph
