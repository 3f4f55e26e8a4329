import RecipeGraph.Ancestry

/-!
Where the data of a handle comes from.

The walk behind a handle keeps the nodes that no edge ends in. They are the
inputs of whatever is plugged into the handle.
-/

namespace RecipeGraph

structure Boundary where
  /-- Nodes without inbound edges, in the order of the walk. -/
  inputs : List Node
  /-- The node plugged into the handle. -/
  output : Node
deriving Repr

namespace Graph

/-- Ends of the walk among the queue and what is behind it. -/
def origins (graph : Graph) (marked : List String) : List String → List String
  | [] => []
  | id :: rest =>
    if (graph.inbound id).isEmpty then id :: origins graph marked rest
    else
      let found := newSources marked (graph.inbound id)
      origins graph (marked ++ found) (rest ++ found)
termination_by queue => 2 * (graph.unmarked marked).length + queue.length
decreasing_by
  · simp
  · exact round_lt graph marked id rest

/-- The boundary behind a handle, if something is plugged into it. -/
def boundary (graph : Graph) (id handle : String) : Except GraphError (Option Boundary) := do
  let _ ← graph.node id
  match graph.inputNode? id handle with
  | none => return none
  | some output =>
    let inputs ← graph.nodesOf (graph.origins [output.id] [output.id])
    return some ⟨inputs, output⟩

end Graph

end RecipeGraph
