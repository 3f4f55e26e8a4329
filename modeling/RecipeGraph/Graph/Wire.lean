import RecipeGraph.Artifact.Wire
import RecipeGraph.Graph

/-!
Graphs, nodes and edges as JSON. Handles are read under two spellings.
-/

namespace RecipeGraph

open Json (optional)

namespace NodeData

def toJson (data : NodeData) : Json :=
  .obj [("compiled", .bool data.compiled), ("errors", Json.texts data.errors),
    ("output", optional Artifact.toJson data.output)]

def form : Form NodeData :=
  ((Form.withDefault "errors" [] (Decoder.list Decoder.text)).both
    ((Form.withDefault "output" none (Decoder.optional Artifact.decode)).both
      (Form.withDefault "compiled" false Decoder.bool))).map
    fun (errors, output, compiled) => ⟨errors, output, compiled⟩

def decode : Decoder NodeData :=
  form.read

end NodeData

namespace Node

def toJson (node : Node) : Json :=
  .obj [("data", node.data.toJson), ("id", .str node.id), ("params", node.params.toJson),
    ("position", node.position)]

def form : Form Node :=
  ((Form.required "id" Decoder.text).both
    ((Form.required "params" NodeParams.decode).both
      ((Form.withDefault "position" .null Decoder.json).both
        (Form.withDefault "data" {} NodeData.decode)))).map
    fun (id, params, position, data) => ⟨id, params, position, data⟩

def decode : Decoder Node :=
  form.read

end Node

namespace NodePatch

/-- The part of a patch that documents show. -/
def toJson (patch : NodePatch) : Json :=
  .obj <|
    (match patch.config with
      | some config => [("config", .obj config)]
      | none => []) ++
    match patch.position with
      | some position => [("position", position)]
      | none => []

def form : Form NodePatch :=
  ((Form.withDefault "config" none (Decoder.optional Decoder.entries)).both
    (Form.withDefault "position" none (Decoder.optional Decoder.json))).map
    fun (config, position) => { config, position }

def decode : Decoder NodePatch :=
  form.read

end NodePatch

/-- A handle: the second spelling is read as well, but not both at once. -/
def handleForm (key other : String) : Form (Option String) :=
  Form.field key [other] (.anywhere none) (Decoder.optional Decoder.text)

def handlesForm : Form (Option String × Option String) :=
  (handleForm "source_handle" "sourceHandle").both (handleForm "target_handle" "targetHandle")

namespace Edge

def toJson (edge : Edge) : Json :=
  .obj [("id", .str edge.id), ("source", .str edge.source),
    ("source_handle", optional .str edge.sourceHandle), ("target", .str edge.target),
    ("target_handle", optional .str edge.targetHandle)]

def form : Form Edge :=
  ((Form.required "id" Decoder.text).both
    ((Form.required "source" Decoder.text).both
      ((Form.required "target" Decoder.text).both handlesForm))).map
    fun (id, source, target, sourceHandle, targetHandle) =>
      ⟨id, source, target, sourceHandle, targetHandle⟩

def decode : Decoder Edge :=
  form.read

end Edge

namespace Connection

def toJson (connection : Connection) : Json :=
  .obj [("source", .str connection.source),
    ("source_handle", optional .str connection.sourceHandle),
    ("target", .str connection.target),
    ("target_handle", optional .str connection.targetHandle)]

def form : Form Connection :=
  ((Form.required "source" Decoder.text).both
    ((Form.required "target" Decoder.text).both handlesForm)).map
    fun (source, target, sourceHandle, targetHandle) =>
      ⟨source, target, sourceHandle, targetHandle⟩

def decode : Decoder Connection :=
  form.read

end Connection

namespace Graph

def toJson (graph : Graph) : Json :=
  .obj [("edges", Json.list Edge.toJson graph.edges),
    ("nodes", Json.list Node.toJson graph.nodes)]

def form : Form Graph :=
  ((Form.required "nodes" (Decoder.list Node.decode)).both
    (Form.required "edges" (Decoder.list Edge.decode))).map
    fun (nodes, edges) => ⟨nodes, edges⟩

def decode : Decoder Graph :=
  form.read

end Graph

end RecipeGraph
