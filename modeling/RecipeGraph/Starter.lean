import RecipeGraph.Session

/-!
The graph that a blank session starts from.
-/

namespace RecipeGraph

def Node.at (id : String) (x y : Float) (params : NodeParams) : Node where
  id := id
  params := params
  position := .obj [("x", .float x), ("y", .float y)]

def starterGraph : Graph where
  nodes := [
    Node.at "value1" (-150.0) (-50.0) (.value (some 4.0)),
    Node.at "value2" (-150.0) 50.0 (.value (some 5.0)),
    Node.at "multiply1" 150.0 0.0 (.multiply none none),
    Node.at "input1" (-150.0) 200.0 (.inputLayer [4]),
    Node.at "dense1" 100.0 200.0 (.denseLayer 10 .relu (some [4])),
    Node.at "model1" 350.0 200.0 (.model .adam .mse 0.001),
    Node.at "train1" 600.0 200.0 (.trainModel 10 32)]
  edges := []

/-- A session that starts from the starter graph. -/
def Session.scaffold : Session.Result Unit :=
  Session.empty.load starterGraph

end RecipeGraph
