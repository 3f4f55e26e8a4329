import RecipeGraph.Params.Wire

/-!
Overwriting single fields of a node.

The new values are laid over the written form of the fields, which is then read
again as a whole. Either every value fits or nothing changes.
-/

namespace RecipeGraph

inductive MergeFault where
  | unknownField (key : String) (kind : NodeKind)
  | unfit (fault : Fault)
deriving Repr

def MergeFault.message : MergeFault → String
  | .unknownField key kind => "unknown field `" ++ key ++ "` for " ++ kind.name
  | .unfit fault => fault.message

namespace NodeParams

/-- Lays values over the fields, one after the other. -/
def overlay (kind : NodeKind) :
    List (String × Json) → List (String × Json) → Except MergeFault (List (String × Json))
  | config, [] => .ok config
  | config, (key, entry) :: rest =>
    if (config.lookup key).isSome then overlay kind (Json.insert key entry config) rest
    else .error (.unknownField key kind)

def merge (params : NodeParams) (fields : List (String × Json)) :
    Except MergeFault NodeParams := do
  let config ← overlay params.kind params.config fields
  match Decoder.ofJson decode (wire params.kind config) with
  | .ok merged => return merged
  | .error fault => .error (.unfit fault)

end NodeParams

end RecipeGraph
