import RecipeGraph.Proofs.Literals
import RecipeGraph.Proofs.Sessions

/-!
# What documents ask for

Documents write finite numbers only, and their patches give nothing but fields and
a position. The fields in a session that is asked by documents stay finite.
-/

namespace RecipeGraph

namespace NodeParams

@[simp] theorem isFinite_literal {params : NodeParams} (finite : params.isFinite = true) :
    params.literal.all (·.isFinite) = true := by
  cases params with
  | value x => exact finite
  | _ => rfl

theorem isFinite_bind {params : NodeParams} (finite : params.isFinite = true) {handle : String}
    {literal : Option Float} (number : literal.all (·.isFinite) = true) :
    (params.bind handle literal).isFinite = true := by
  cases params with
  | multiply a b =>
    have parts := Bool.and_eq_true_iff.mp finite
    simp only [bind]
    split
    · exact Bool.and_eq_true_iff.mpr ⟨number, parts.2⟩
    · split
      · exact Bool.and_eq_true_iff.mpr ⟨parts.1, number⟩
      · exact finite
  | _ => exact finite

end NodeParams

theorem NodeParams.isFinite_of_patched {node patched : Node} {patch : NodePatch}
    (finite : node.params.isFinite = true)
    (numbers : ∀ config ∈ patch.config, Json.finiteEntries config = true)
    (fits : node.patched patch = .ok patched) : patched.params.isFinite = true := by
  rcases Node.params_patched fits with ⟨_, same⟩ | ⟨fields, given, merged⟩
  · rw [same]
    exact finite
  · exact NodeParams.isFinite_of_isWritable
      (NodeParams.isWritable_of_merge (numbers fields given) merged)

theorem Node.finite_lasting : Node.Lasting fun node => node.params.isFinite = true where
  uncompiled _ finite := finite
  unbound _ _ finite := NodeParams.isFinite_bind finite rfl
  bound _ _ _ finite given := NodeParams.isFinite_bind finite (NodeParams.isFinite_literal given)

@[simp] theorem finite_starterGraph : starterGraph.Finite := by
  have all : (starterGraph.nodes.all fun node => node.params.isFinite) = true := by rfl
  exact fun node member => List.all_eq_true.mp all node member

namespace Session

/-- What documents can ask for. All of their numbers are finite; another number
would be lost in the first merge, which writes it as null. -/
def Operation.OfDocument : Operation → Prop
  | .load graph => graph.Finite
  | .addNode node => node.params.isFinite = true
  | .updateNode _ patch => patch.OfDocument
  | _ => True

instance : (operation : Operation) → Decidable operation.OfDocument
  | .load graph => inferInstanceAs (Decidable graph.Finite)
  | .addNode node => inferInstanceAs (Decidable (node.params.isFinite = true))
  | .updateNode _ patch => inferInstanceAs (Decidable patch.OfDocument)
  | .removeNode _ | .addEdge _ | .removeEdge _ | .compile _ | .train _ _ => isTrue trivial

variable {session : Session}

theorem Operation.OfDocument.brings {operation : Operation} (proper : operation.OfDocument) :
    operation.Brings fun node => node.params.isFinite = true := by
  cases operation with
  | load graph => exact proper
  | addNode node => exact proper
  | updateNode id patch =>
    exact fun node patched had fits => NodeParams.isFinite_of_patched had proper.1 fits
  | _ => trivial

theorem Reached.finite {registry : Registry}
    (reached : Reached registry Operation.OfDocument session) : session.store.Finite := by
  refine reached.keeps (fun _ member => nomatch member) finite_starterGraph ?_
  intro before operation earlier proper finite
  have blank := (steps_apply registry before operation).blank earlier.wellFormed
  exact Graph.finite_of_blank blank (every_edited Node.finite_lasting finite proper.brings)

/-- A product forgets the literal of the value that is plugged into it, and
another product is compiled from the two. Then the value is patched without any
fields. -/
def overruled : List Operation := [
  .load {
    nodes := [
      { id := "v", params := .value (some 4.0) },
      { id := "m", params := .multiply none (some 2.0) },
      { id := "n", params := .multiply none (some 1.0) }]
    edges := [⟨"vm", "v", "m", none, some Handle.a⟩, ⟨"mn", "m", "n", none, some Handle.a⟩] },
  .updateNode "m" { config := some [("a", .num (.int 9))] },
  .compile "n",
  .updateNode "v" { config := some [] }]

theorem overruled_ofDocument : ∀ operation ∈ overruled, operation.OfDocument := by
  decide +kernel

end Session

end RecipeGraph
