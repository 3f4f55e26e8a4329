import RecipeGraph.Ancestry

/-!
Fingerprints of what a node is compiled from.

A fingerprint takes the fields of every node that the walk comes to and the ends
of every edge into one of them. Compile state, positions and ids of edges are
left out.
-/

namespace RecipeGraph

structure Fingerprint where
  nodes : List (String × NodeParams)
  edges : List Connection
deriving BEq, Repr

namespace Fingerprint

def capture (graph : Graph) (id : String) : Except GraphError Fingerprint := do
  let connected ← graph.connected id
  let members := connected.map (·.id)
  return {
    nodes := connected.map fun node => (node.id, node.params)
    edges := (graph.edges.filter fun edge => members.contains edge.target).map (·.connection) }

/-- Whether the graph no longer matches, or the node is gone. -/
def isStale (fingerprint : Fingerprint) (graph : Graph) (id : String) : Bool :=
  match capture graph id with
  | .ok current => !(current == fingerprint)
  | .error _ => true

end Fingerprint

end RecipeGraph
