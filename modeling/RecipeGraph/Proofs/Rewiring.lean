import RecipeGraph.Proofs.Literals
import RecipeGraph.Proofs.Restricting

/-!
# What edits do to a node

Edits change a node other than the edited one only along edges: where an edge goes or
comes, the node loses its result and the field of the handle, and where a literal comes
that is news, the result goes as well.
-/

namespace RecipeGraph

namespace Node

/-- The node without an edge that may have ended in it. -/
def unplugged (node : Node) (edge : Edge) : Node :=
  if edge.target = node.id then
    match edge.targetHandle with
    | some handle => (node.bind handle none).uncompiled
    | none => node.uncompiled
  else node

variable {node : Node} {edge : Edge} {edges : List Edge}

@[simp] theorem unplugged_of_ne (apart : edge.target ≠ node.id) : node.unplugged edge = node :=
  if_neg apart

@[simp]
theorem unplugged_id (node : Node) (edge : Edge) : (node.unplugged edge).id = node.id := by
  unfold unplugged
  split
  · split <;> rfl
  · rfl

@[simp]
theorem foldl_unplugged_id (node : Node) (edges : List Edge) :
    (edges.foldl unplugged node).id = node.id := by
  induction edges generalizing node with
  | nil => rfl
  | cons edge rest ih => rw [List.foldl_cons, ih, unplugged_id]

theorem foldl_unplugged_of_spared (spared : ∀ edge ∈ edges, edge.target ≠ node.id) :
    edges.foldl unplugged node = node := by
  induction edges with
  | nil => rfl
  | cons edge rest ih =>
    rw [List.foldl_cons, unplugged_of_ne (spared edge List.mem_cons_self)]
    exact ih fun other member => spared other (List.mem_cons_of_mem _ member)

end Node

namespace NodeParams

@[simp] theorem bind_bind (params : NodeParams) (handle : String) (first second : Option Float) :
    (params.bind handle first).bind handle second = params.bind handle second := by
  cases params with
  | multiply a b =>
    simp only [bind]
    split_ifs <;> simp_all
  | _ => rfl

/-- To remember what a field holds already changes nothing. -/
theorem beq_bind {params : NodeParams} (finite : params.isFinite = true) {handle : String}
    {literal : Option Float}
    (known : ∀ held, params.bound? handle = some held → (held == literal) = true) :
    (params == params.bind handle literal) = true := by
  cases params with
  | multiply a b =>
    simp only [bind, bound?] at known ⊢
    have parts := NodeParams.beq_iff.mp (NodeParams.beq_self finite)
    cases parts with
    | multiply first second =>
      split_ifs at known ⊢ with here there
      · exact NodeParams.beq_iff.mpr (.multiply (known a rfl) second)
      · exact NodeParams.beq_iff.mpr (.multiply first (known b rfl))
      · exact NodeParams.beq_iff.mpr (.multiply first second)
  | _ => exact NodeParams.beq_self finite

end NodeParams

namespace Node

variable {node : Node} {edges : List Edge} {handle : String}

/-- An edge that goes touches no field but that of its handle. -/
theorem foldl_unplugged_params
    (only : ∀ edge ∈ edges, edge.target = node.id → edge.targetHandle = some handle)
    (literal : Option Float) :
    (edges.foldl unplugged node).params.bind handle literal = node.params.bind handle literal := by
  induction edges generalizing node with
  | nil => rfl
  | cons edge rest ih =>
    have later : ∀ other ∈ rest, other.target = (node.unplugged edge).id →
        other.targetHandle = some handle := by
      intro other member into
      exact only other (List.mem_cons_of_mem _ member) (into.trans (unplugged_id node edge))
    rw [List.foldl_cons, ih later]
    by_cases into : edge.target = node.id
    · simp only [unplugged, into, only edge List.mem_cons_self into]
      exact NodeParams.bind_bind _ _ _ _
    · rw [unplugged_of_ne into]

/-- An edge that goes empties the field of its handle and touches no other. -/
@[simp] theorem bound?_unplugged (node : Node) (edge : Edge) (handle : String) :
    (node.unplugged edge).params.bound? handle =
      if edge.occupies node.id (some handle) then (node.params.bound? handle).map fun _ => none
      else node.params.bound? handle := by
  unfold unplugged
  by_cases into : edge.target = node.id
  · cases named : edge.targetHandle with
    | none => simp [Edge.occupies, into, named, uncompiled]
    | some port =>
      simp only [into, if_true]
      change ((node.params.bind port none).bound? handle) = _
      rw [NodeParams.bound?_bind]
      simp [Edge.occupies, into, named, eq_comm]
  · simp [Edge.occupies, into]

@[simp] theorem bound?_foldl_unplugged (node : Node) (edges : List Edge) (handle : String) :
    (edges.foldl unplugged node).params.bound? handle =
      if edges.any (·.occupies node.id (some handle)) then
        (node.params.bound? handle).map fun _ => none
      else node.params.bound? handle := by
  induction edges generalizing node with
  | nil => rfl
  | cons edge rest ih =>
    rw [List.foldl_cons, ih, unplugged_id, bound?_unplugged, List.any_cons]
    by_cases here : edge.occupies node.id (some handle) = true
    · simp [here, Function.comp_def]
    · simp [here]

/-- The field of a handle holds what came last. -/
theorem bound?_replugged {held : Option Float} (field : node.params.bound? handle = some held)
    (edges : List Edge) (literal : Option Float) :
    ((edges.foldl unplugged node).params.bind handle literal).bound? handle = some literal := by
  rw [NodeParams.bound?_bind, if_pos rfl, bound?_foldl_unplugged, field]
  split <;> rfl

/-- Where the fields are as they were, nothing that came was news. -/
theorem calm_of_params {literal : Option Float}
    (same : (node.params == (edges.foldl (hear literal) node).params) = true) :
    ∀ edge ∈ edges, ¬ node.Stirred literal edge := by
  rintro edge member ⟨into, handle, held, named, field, apart⟩
  obtain ⟨now, field', agrees⟩ := remembers_of_heard member into named field
  have unchanged : (held == now) = true := NodeParams.bound?_beq same field field'
  have back : (held == literal) = true := by
    rcases agrees with rfl | agrees
    · exact unchanged
    · exact BEq.trans unchanged agrees
  rw [apart] at back
  cases back

end Node

namespace Store

variable {store : Store} {id : String}

@[simp] theorem node?_detach (store : Store) (edge : Edge) (other : String) :
    (store.detach edge).node? other = (store.node? other).map (·.unplugged edge) := by
  cases named : edge.targetHandle with
  | some handle =>
    have moved := @node?_bindHandle_reset (store.dropEdge edge.id) edge handle named none other
    refine Eq.trans moved (Option.map_congr fun node _ => ?_)
    simp only [Node.unplugged, named]
  | none =>
    have moved := node?_reset (store.dropEdge edge.id) edge.target other
    have bare : store.detach edge =
        ((store.dropEdge edge.id).reset edge.target).emit (.edgeRemoved edge.id) := by
      unfold detach bindHandle
      rw [named]
    rw [bare]
    refine Eq.trans moved ?_
    cases there : store.node? other with
    | none =>
      change (if _ then Option.map _ (store.node? other) else store.node? other) = _
      rw [there]
      simp
    | some node =>
      change (if _ then Option.map _ (store.node? other) else store.node? other) = _
      have known := Graph.id_of_node? there
      rw [there]
      by_cases into : edge.target = node.id
      · simp [Node.unplugged, named, into, known]
      · have apart : other ≠ edge.target := fun same => into (same.symm.trans known.symm)
        simp [Node.unplugged, into, apart]

@[simp] theorem node?_detachAll (store : Store) (edges : List Edge) (other : String) :
    (store.detachAll edges).node? other =
      (store.node? other).map (edges.foldl Node.unplugged) := by
  induction edges generalizing store with
  | nil => simp [detachAll]
  | cons edge rest ih =>
    change ((store.detach edge).detachAll rest).node? other = _
    rw [ih, node?_detach, Option.map_map]
    rfl

/-- What drawing an edge makes of a node. -/
theorem node?_place (store : Store) {edge : Edge} {handle : String}
    (named : edge.targetHandle = some handle) (literal : Option Float) (other : String) :
    (store.place edge literal).node? other = (store.node? other).map fun node =>
      let cleared := (store.edges.filter (·.yieldsTo edge)).foldl Node.unplugged node
      if edge.target = node.id then (cleared.bind handle literal).uncompiled else cleared := by
  have moved := @node?_bindHandle_reset (store.detachAll (store.edges.filter (·.yieldsTo edge))) edge
    handle named literal other
  refine Eq.trans moved ?_
  rw [node?_detachAll, Option.map_map]
  refine Option.map_congr fun node _ => ?_
  simp only [Function.comp_apply, Node.foldl_unplugged_id]

/-- What an update that fits makes of a node. -/
theorem node?_updated {patch : NodePatch} {node patched : Node}
    (found : store.node? id = some node) (fits : node.patched patch = .ok patched)
    (other : String) : (store.updateNode id patch).2.node? other =
      (if other = id then some patched else store.node? other).map
        ((store.outlets id patch patched.kind).foldl (Node.hear patched.params.literal)) := by
  rw [← node?_replaced found (Node.patched_ok fits).id, updateNode_eq found fits, outlets]
  simp only
  split
  · exact node?_passLiterals _ _ _ _
  · simp only [List.foldl_nil, Option.map_id']
    rfl

end Store

end RecipeGraph
