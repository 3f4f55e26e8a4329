import RecipeGraph.Service.Schema

/-!
Paths that the service knows.

The last segment of a path is never empty; one in the middle may be, and then
names the node with the empty id. Escapes are undone later, and only in ids.
-/

namespace RecipeGraph

/-- What can be asked of a node besides the node itself. -/
inductive NodeView where
  | inbound
  | connected
  | compile
  | train
  | summary
deriving DecidableEq, Repr

inductive Route where
  | graph
  | status
  | nodes
  | node (segment : String)
  | view (view : NodeView) (segment : String)
  | edges
  | edge (segment : String)
  | schema (subject : Subject)
deriving DecidableEq, Repr

namespace Route

def nodeViews : List (String × NodeView) :=
  [("inbound", .inbound), ("connected", .connected), ("compile", .compile), ("train", .train),
    ("summary", .summary)]

def subjects : List (String × Subject) :=
  [("node-types", .nodes), ("activation-types", .activations),
    ("optimizer-types", .optimizers), ("loss-types", .losses)]

/-- Parts between the slashes of a text. -/
def segments : List Char → List (List Char)
  | [] => [[]]
  | c :: cs =>
    if c = '/' then [] :: segments cs
    else
      match segments cs with
      | [] => [[c]]
      | first :: rest => (c :: first) :: rest

def ofSegments? : List String → Option Route
  | ["graph"] => some .graph
  | ["graph", "status"] => some .status
  | ["graph", "nodes"] => some .nodes
  | ["graph", "nodes", segment] => if segment.isEmpty then none else some (.node segment)
  | ["graph", "nodes", segment, name] => (nodeViews.lookup name).map fun view => .view view segment
  | ["graph", "edges"] => some .edges
  | ["graph", "edges", segment] => if segment.isEmpty then none else some (.edge segment)
  | ["compiler", name] => (subjects.lookup name).map .schema
  | _ => none

def ofPath? (path : String) : Option Route :=
  match path.toList with
  | '/' :: rest => ofSegments? ((segments rest).map String.ofList)
  | _ => none

end Route

end RecipeGraph
