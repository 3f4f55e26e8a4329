import RecipeGraph.Proofs.Overwriting
import RecipeGraph.Proofs.Tracking
import RecipeGraph.Proofs.Upstream

/-!
# Handing literals on

What a node makes of the literals that come along edges can be told from the node
alone. A literal only reaches fields of handles in use, so that the graph looks
the same afterwards.
-/

namespace RecipeGraph

/-- What a patch from a document gives: fields and position, with finite numbers. -/
def NodePatch.OfDocument (patch : NodePatch) : Prop :=
  (∀ config ∈ patch.config, Json.finiteEntries config = true) ∧
    patch.errors = none ∧ patch.output = none ∧ patch.compiled = none

instance (patch : NodePatch) : Decidable patch.OfDocument :=
  inferInstanceAs (Decidable (_ ∧ _ ∧ _ ∧ _))

namespace Node

/-- What a node makes of a literal that comes along an edge. -/
def hear (literal : Option Float) (node : Node) (edge : Edge) : Node :=
  if edge.target = node.id then
    match edge.targetHandle with
    | some handle =>
      match node.params.bound? handle with
      | some held => if held == literal then node else (node.bind handle literal).uncompiled
      | none => node
    | none => node
  else node

/-- The edge brings the node a literal other than the one it remembers. -/
def Stirred (literal : Option Float) (node : Node) (edge : Edge) : Prop :=
  edge.target = node.id ∧ ∃ handle held, edge.targetHandle = some handle ∧
    node.params.bound? handle = some held ∧ (held == literal) = false

variable {literal : Option Float} {node : Node} {edge : Edge}

theorem hear_cases (literal : Option Float) (node : Node) (edge : Edge) :
    (¬ node.Stirred literal edge ∧ node.hear literal edge = node) ∨
    ∃ handle held, edge.target = node.id ∧ edge.targetHandle = some handle ∧
      node.params.bound? handle = some held ∧ (held == literal) = false ∧
      node.hear literal edge = (node.bind handle literal).uncompiled := by
  unfold hear Stirred
  by_cases into : edge.target = node.id
  · rw [if_pos into]
    cases named : edge.targetHandle with
    | none => exact .inl ⟨by simp, rfl⟩
    | some handle =>
      cases field : node.params.bound? handle with
      | none => exact .inl ⟨by simp [field], by simp only [field]⟩
      | some held =>
        by_cases same : (held == literal) = true
        · exact .inl ⟨by simp [field, same], by simp only [field, if_pos same]⟩
        · refine .inr ⟨handle, held, into, rfl, field, Bool.eq_false_iff.mpr same, ?_⟩
          simp only [field, if_neg same]
  · exact .inl ⟨fun stirred => into stirred.1, if_neg into⟩

@[simp] theorem hear_id (literal : Option Float) (node : Node) (edge : Edge) :
    (node.hear literal edge).id = node.id := by
  rcases hear_cases literal node edge with ⟨_, same⟩ | ⟨_, _, _, _, _, _, same⟩ <;> rw [same]
  rfl

/-- A value hears nothing. -/
theorem not_stirred_of_value (value : node.kind = .value) : ¬ node.Stirred literal edge := by
  rintro ⟨_, _, _, _, field, _⟩
  unfold Node.kind at value
  cases params : node.params with
  | value x =>
    rw [params] at field
    cases field
  | _ =>
    rw [params] at value
    cases value

/-- A node hears nothing new and is as it was, or it loses its result. -/
theorem foldl_hear_cases (literal : Option Float) (node : Node) (edges : List Edge) :
    edges.foldl (hear literal) node = node ∧ (∀ edge ∈ edges, ¬ node.Stirred literal edge) ∨
      (edges.foldl (hear literal) node).data.compiled = false ∧
        (edges.foldl (hear literal) node).data.output = none := by
  induction edges generalizing node with
  | nil => exact .inl ⟨rfl, fun _ member => nomatch member⟩
  | cons edge rest ih =>
    rw [List.foldl_cons]
    rcases hear_cases literal node edge with ⟨calm, same⟩ | ⟨_, _, _, _, _, _, stirred⟩
    · rw [same]
      exact (ih node).imp_left fun ⟨kept, later⟩ => ⟨kept, List.forall_mem_cons.mpr ⟨calm, later⟩⟩
    · rw [stirred]
      rcases ih (node.bind _ literal).uncompiled with ⟨kept, _⟩ | dropped
      · rw [kept]
        exact .inr ⟨rfl, rfl⟩
      · exact .inr dropped

/-- A node that is still compiled has heard nothing new. -/
theorem eq_of_compiled_hear {edges : List Edge}
    (compiled : (edges.foldl (hear literal) node).data.compiled = true) :
    edges.foldl (hear literal) node = node ∧ ∀ edge ∈ edges, ¬ node.Stirred literal edge := by
  rcases foldl_hear_cases literal node edges with kept | ⟨dropped, _⟩
  · exact kept
  · rw [dropped] at compiled
    cases compiled

/-- The node at another place in the editor. -/
def placed (position : Json) (node : Node) : Node :=
  { node with position }

@[simp] theorem hear_placed (literal : Option Float) (position : Json) (node : Node) (edge : Edge) :
    (node.placed position).hear literal edge = (node.hear literal edge).placed position := by
  unfold hear
  change (if edge.target = node.id then _ else _ : Node) = _
  split
  · cases edge.targetHandle with
    | none => rfl
    | some handle =>
      simp only [placed]
      split
      · split <;> rfl
      · rfl
  · rfl

@[simp] theorem foldl_hear_placed (literal : Option Float) (position : Json) (node : Node)
    (edges : List Edge) : edges.foldl (hear literal) (node.placed position) =
      (edges.foldl (hear literal) node).placed position := by
  induction edges generalizing node with
  | nil => rfl
  | cons edge rest ih => rw [List.foldl_cons, List.foldl_cons, hear_placed, ih]

/-- The field of a handle agrees with a literal. -/
def Remembers (literal : Option Float) (node : Node) (handle : String) : Prop :=
  ∃ held, node.params.bound? handle = some held ∧ (held = literal ∨ (held == literal) = true)

theorem hear_of_calm {edges : List Edge} (calm : ∀ edge ∈ edges, ¬ node.Stirred literal edge) :
    edges.foldl (hear literal) node = node := by
  induction edges with
  | nil => rfl
  | cons edge rest ih =>
    rw [List.foldl_cons]
    rcases hear_cases literal node edge with
      ⟨_, same⟩ | ⟨handle, held, into, named, field, apart, _⟩
    · rw [same]
      exact ih fun other member => calm other (List.mem_cons_of_mem _ member)
    · exact (calm edge List.mem_cons_self ⟨into, handle, held, named, field, apart⟩).elim

end Node

@[simp] theorem NodeParams.bound?_bind (params : NodeParams) (handle other : String)
    (literal : Option Float) :
    (params.bind handle literal).bound? other =
      if other = handle then (params.bound? other).map fun _ => literal
      else params.bound? other := by
  cases params with
  | multiply a b =>
    have apart : Handle.b ≠ Handle.a := by decide
    by_cases same : other = handle
    · subst same
      by_cases first : other = Handle.a
      · simp [bind, bound?, first]
      · by_cases second : other = Handle.b <;> simp [bind, bound?, first, second, apart]
    · by_cases first : handle = Handle.a
      · subst first
        simp [bind, bound?, same]
      · by_cases second : handle = Handle.b
        · subst second
          simp [bind, bound?, same, apart]
        · simp [bind, bound?, same, first, second]
  | _ => simp [bind, bound?]

/-- Equal fields hold equal literals. -/
theorem NodeParams.bound?_beq {left right : NodeParams} (same : (left == right) = true)
    {handle : String} {held held' : Option Float} (field : left.bound? handle = some held)
    (field' : right.bound? handle = some held') : (held == held') = true := by
  cases NodeParams.beq_iff.mp same with
  | multiply a b =>
    simp only [bound?] at field field'
    split at field
    · next first =>
      rw [if_pos first] at field'
      cases field
      cases field'
      exact a
    · next other =>
      rw [if_neg other] at field'
      split at field
      · next second =>
        rw [if_pos second] at field'
        cases field
        cases field'
        exact b
      · cases field
  | _ => cases field

namespace Node

variable {literal : Option Float} {node : Node} {edge : Edge} {handle : String}

theorem remembers_bind (literal : Option Float) {held : Option Float}
    (field : node.params.bound? handle = some held) :
    ((node.bind handle literal).uncompiled).Remembers literal handle := by
  refine ⟨literal, ?_, .inl rfl⟩
  change (node.params.bind handle literal).bound? handle = _
  rw [NodeParams.bound?_bind, if_pos rfl, field]
  rfl

/-- What a node hears along one edge does not touch the field of another handle. -/
theorem bound?_hear (literal : Option Float) (node : Node) (edge : Edge) (handle : String) :
    (node.hear literal edge).params.bound? handle = node.params.bound? handle ∨
      (node.hear literal edge).Remembers literal handle := by
  rcases hear_cases literal node edge with ⟨_, same⟩ | ⟨other, held, _, _, field, _, same⟩
  · rw [same]
    exact .inl rfl
  · rw [same]
    by_cases here : handle = other
    · subst here
      exact .inr (remembers_bind literal field)
    · refine .inl ?_
      change (node.params.bind other literal).bound? handle = _
      rw [NodeParams.bound?_bind, if_neg here]

theorem Remembers.hear (remembers : node.Remembers literal handle) (edge : Edge) :
    (node.hear literal edge).Remembers literal handle := by
  rcases bound?_hear literal node edge handle with same | after
  · unfold Remembers
    rw [same]
    exact remembers
  · exact after

theorem Remembers.foldl (remembers : node.Remembers literal handle) (edges : List Edge) :
    (edges.foldl (Node.hear literal) node).Remembers literal handle := by
  induction edges generalizing node with
  | nil => exact remembers
  | cons edge rest ih => exact ih (remembers.hear edge)

/-- Once it has heard everything, the field of every handle along which something
came agrees with the literal. -/
theorem remembers_of_heard {edges : List Edge} (member : edge ∈ edges)
    (into : edge.target = node.id) (named : edge.targetHandle = some handle)
    {held : Option Float} (field : node.params.bound? handle = some held) :
    (edges.foldl (Node.hear literal) node).Remembers literal handle := by
  induction edges generalizing node held with
  | nil => cases member
  | cons first rest ih =>
    rw [List.foldl_cons]
    rcases List.mem_cons.mp member with rfl | behind
    · refine Remembers.foldl ?_ rest
      rcases hear_cases literal node edge with ⟨calm, same⟩ | ⟨other, _, _, named', _, _, same⟩
      · rw [same]
        refine ⟨held, field, .inr ?_⟩
        by_contra apart
        exact calm ⟨into, handle, held, named, field, Bool.eq_false_iff.mpr apart⟩
      · rw [named] at named'
        cases named'
        rw [same]
        exact remembers_bind literal field
    · rcases bound?_hear literal node first handle with same | after
      · exact ih behind (into.trans (hear_id literal node first).symm) (same.trans field)
      · exact after.foldl rest

end Node

/-- A field of a handle in use does not count, whatever it remembers. -/
@[simp] theorem NodeParams.unfed_bind (params : NodeParams) {handle : String} {fed : String → Bool}
    (used : fed handle = true) (literal : Option Float) :
    (params.bind handle literal).unfed fed = params.unfed fed := by
  cases params with
  | multiply a b =>
    simp only [bind]
    split
    · next same =>
      subst same
      simp [unfed, used]
    · split
      · next same =>
        subst same
        simp [unfed, used]
      · rfl
  | _ => rfl

namespace Graph

theorem fed_of_occupies {graph : Graph} {edge : Edge} (drawn : edge ∈ graph.edges)
    {id handle : String} (here : edge.occupies id (some handle) = true) :
    graph.fed id handle = true := by
  unfold fed plugged inputEdge?
  rw [Option.isSome_map, List.find?_isSome]
  exact ⟨edge, drawn, here⟩

end Graph

namespace Store

theorem node?_bindHandle_reset {store : Store} {edge : Edge} {handle : String}
    (named : edge.targetHandle = some handle) (literal : Option Float) (other : String) :
    ((store.bindHandle edge literal).reset edge.target).node? other =
      (store.node? other).map fun node =>
        if edge.target = node.id then (node.bind handle literal).uncompiled else node := by
  have bound : (store.bindHandle edge literal).node? other = (store.node? other).map fun node =>
      if node.id = edge.target then node.bind handle literal else node := by
    rw [bindHandle, named]
    exact @node?_modifyNode store edge.target (fun node => node.bind handle literal)
      (fun _ _ _ => rfl) other
  rw [node?_reset, bound]
  cases there : store.node? other with
  | none => simp
  | some node =>
    have known := Graph.id_of_node? there
    by_cases into : edge.target = node.id
    · simp [into, known]
    · have apart : other ≠ edge.target := fun same => into (same.symm.trans known.symm)
      simp [into, apart, Ne.symm into]

@[simp]
theorem node?_passLiteral (literal : Option Float) (store : Store) (edge : Edge) (other : String) :
    (passLiteral literal store edge).node? other =
      (store.node? other).map fun node => node.hear literal edge := by
  have calm : (∀ node, store.node? other = some node → node.hear literal edge = node) →
      store.node? other = (store.node? other).map fun node => node.hear literal edge := by
    intro each
    cases there : store.node? other with
    | none => rfl
    | some node => rw [Option.map_some, each node there]
  unfold passLiteral
  split
  · next handle target named found =>
    have only : ∀ node, store.node? other = some node → edge.target = node.id → node = target := by
      intro node there into
      rw [into, Graph.id_of_node? there, there] at found
      exact Option.some.inj found
    split
    · next held field =>
      split
      · next same =>
        refine calm fun node there => ?_
        by_cases into : edge.target = node.id
        · cases only node there into
          simp [Node.hear, into, named, field, same]
        · exact if_neg into
      · next apart =>
        rw [node?_bindHandle_reset named]
        refine Option.map_congr fun node there => ?_
        by_cases into : edge.target = node.id
        · cases only node there into
          simp [Node.hear, into, named, field, apart]
        · rw [if_neg into, Node.hear, if_neg into]
    · next field =>
      refine calm fun node there => ?_
      by_cases into : edge.target = node.id
      · cases only node there into
        simp [Node.hear, into, named, field]
      · exact if_neg into
  · next unmet =>
    refine calm fun node there => ?_
    by_cases into : edge.target = node.id
    · have found : store.node? edge.target = some node := by
        rw [into, Graph.id_of_node? there, there]
      cases named : edge.targetHandle with
      | none => simp [Node.hear, named]
      | some handle => exact (unmet handle node named found).elim
    · exact if_neg into

@[simp]
theorem node?_passLiterals (store : Store) (id : String) (literal : Option Float) (other : String) :
    (store.passLiterals id literal).node? other =
      (store.node? other).map fun node =>
        (store.edges.filter (·.source = id)).foldl (Node.hear literal) node := by
  unfold passLiterals
  induction store.edges.filter (·.source = id) generalizing store with
  | nil => simp
  | cons edge rest ih =>
    rw [List.foldl_cons, ih, node?_passLiteral, Option.map_map]
    rfl

@[simp] theorem edges_passLiterals (store : Store) (id : String) (literal : Option Float) :
    (store.passLiterals id literal).edges = store.edges := by
  unfold passLiterals
  induction store.edges.filter (·.source = id) generalizing store with
  | nil => rfl
  | cons edge rest ih =>
    rw [List.foldl_cons, ih]
    unfold passLiteral
    split
    · split
      · split
        · rfl
        · rw [edges_reset, edges_bindHandle]
      · rfl
    · rfl

/-- A patch that names no fields leaves fields as they are, unless a literal gets lost. -/
theorem params_of_untouched {node patched : Node} {patch : NodePatch}
    (kept : node.params.keepsLiterals = true) (untouched : patch.touchesParams = false)
    (fits : node.patched patch = .ok patched) : patched.params = node.params := by
  rcases Node.params_patched fits with ⟨_, same⟩ | ⟨fields, given, merged⟩
  · exact same
  · rw [NodePatch.touchesParams, given] at untouched
    cases fields with
    | nil => exact NodeParams.eq_of_merge_nil kept merged
    | cons field rest => cases untouched

theorem node?_replaced {store : Store} {id : String}
    {node patched : Node} (found : store.node? id = some node) (keeps : patched.id = node.id)
    (other : String) : (store.modifyNode id fun _ => patched).node? other =
      if other = id then some patched else store.node? other := by
  rw [node?_modifyNode fun old member here => ?_]
  · cases there : store.node? other with
    | none =>
      have apart : other ≠ id := by
        intro same
        rw [same, found] at there
        cases there
      rw [if_neg apart]
      rfl
    | some old =>
      rw [Option.map_some, Graph.id_of_node? there]
      split <;> rfl
  · rw [keeps, Graph.id_of_node? found, here]

/-- What an update that fits leads to. -/
theorem updateNode_eq {store : Store} {id : String} {patch : NodePatch} {node patched : Node}
    (found : store.node? id = some node) (fits : node.patched patch = .ok patched) :
    store.updateNode id patch = (.ok (),
      if patch.config.isSome && patched.kind = .value then
        ((store.modifyNode id fun _ => patched).emit (.nodeUpdated id)).passLiterals id
          patched.params.literal
      else (store.modifyNode id fun _ => patched).emit (.nodeUpdated id)) := by
  unfold updateNode
  simp only [found, fits]
  split <;> rfl

theorem updateNode_cases (store : Store) (id : String) (patch : NodePatch) :
    (∃ error, store.updateNode id patch = (.error error, store)) ∨
    ∃ node patched, store.node? id = some node ∧ node.patched patch = .ok patched := by
  unfold updateNode
  cases found : store.node? id with
  | none => exact .inl ⟨_, rfl⟩
  | some node =>
    cases fits : node.patched patch with
    | error fault => exact .inl ⟨.invalidNodeData id fault, by simp only [fits]⟩
    | ok patched => exact .inr ⟨node, patched, rfl, fits⟩

/-- The edges along which the update of a node hands its literal on. -/
def outlets (store : Store) (id : String) (patch : NodePatch) (kind : NodeKind) : List Edge :=
  if patch.config.isSome && kind = .value then store.edges.filter (·.source = id) else []

@[simp] theorem mem_outlets {store : Store} {id : String} {patch : NodePatch} {kind : NodeKind}
    {edge : Edge} : edge ∈ store.outlets id patch kind ↔
      (patch.config.isSome = true ∧ kind = .value) ∧ edge ∈ store.edges ∧ edge.source = id := by
  unfold outlets
  by_cases hands : (patch.config.isSome && decide (kind = .value)) = true
  · rw [if_pos hands, List.mem_filter, decide_eq_true_eq]
    rw [Bool.and_eq_true, decide_eq_true_eq] at hands
    exact (and_iff_right hands).symm
  · rw [if_neg hands]
    rw [Bool.and_eq_true, decide_eq_true_eq] at hands
    simp [hands]

section Untouched

variable {store : Store} {id : String} {patch : NodePatch} {node patched : Node}

/-- A patch that names no fields does nothing to a node but place it. -/
theorem patched_eq_placed (finite : node.params.isFinite = true) (proper : patch.OfDocument)
    (untouched : patch.touchesParams = false) (fits : node.patched patch = .ok patched) :
    patched = node.placed (patch.position.getD node.position) := by
  have params := params_of_untouched (NodeParams.keepsLiterals_of_isFinite finite) untouched fits
  obtain ⟨same, _, position, errors, output, compiled⟩ := Node.patched_ok fits
  obtain ⟨_, none, none', none''⟩ := proper
  rw [none] at errors
  rw [none'] at output
  rw [none''] at compiled
  obtain ⟨_, _, _, ⟨_, _, _⟩⟩ := patched
  simp only at same params position errors output compiled
  subst same params position errors output compiled
  rfl

/-- What an update that names no fields makes of a node. -/
theorem node?_updateNode (finite : store.Finite) (proper : patch.OfDocument)
    (untouched : patch.touchesParams = false) (found : store.node? id = some node)
    (fits : node.patched patch = .ok patched) {other : String} {old : Node}
    (there : store.node? other = some old) :
    ∃ position, (store.updateNode id patch).2.node? other =
      some (((store.outlets id patch node.kind).foldl (Node.hear node.params.literal)
        old).placed position) := by
  have made := patched_eq_placed (finite node (Graph.mem_of_node? found)) proper untouched fits
  have written : ∃ position, (store.modifyNode id fun _ => patched).node? other =
      some (old.placed position) := by
    rw [node?_replaced found (Node.patched_ok fits).id]
    by_cases same : other = id
    · rw [same, found] at there
      cases there
      exact ⟨_, by rw [if_pos same, made]⟩
    · exact ⟨old.position, by rw [if_neg same, there]; rfl⟩
  obtain ⟨position, written⟩ := written
  have kind : patched.kind = node.kind := kind_patched fits
  refine ⟨position, ?_⟩
  rw [updateNode_eq found fits, kind, outlets]
  simp only
  split
  · rw [node?_passLiterals, toGraph_emit, written, made, Option.map_some, Node.foldl_hear_placed]
    rfl
  · exact written

@[simp] theorem edges_updateNode (store : Store) (id : String) (patch : NodePatch) :
    (store.updateNode id patch).2.edges = store.edges := by
  rcases updateNode_cases store id patch with ⟨_, same⟩ | ⟨node, patched, found, fits⟩
  · rw [same]
  · rw [updateNode_eq found fits]
    simp only
    split
    · exact edges_passLiterals _ _ _
    · rfl

theorem unfed_heard {other : String} {old : Node} (there : store.node? other = some old)
    {edges : List Edge} (drawn : ∀ edge ∈ edges, edge ∈ store.edges) (literal : Option Float) :
    (edges.foldl (Node.hear literal) old).params.unfed (store.fed other) =
      old.params.unfed (store.fed other) := by
  have named := Graph.id_of_node? there
  clear there
  induction edges generalizing old with
  | nil => rfl
  | cons edge rest ih =>
    rw [List.foldl_cons, ih (fun edge member => drawn edge (List.mem_cons_of_mem _ member))
      ((Node.hear_id literal old edge).trans named)]
    rcases Node.hear_cases literal old edge with ⟨_, same⟩ | ⟨handle, _, into, port, _, _, same⟩
    · rw [same]
    · rw [same]
      refine NodeParams.unfed_bind old.params ?_ literal
      exact Graph.fed_of_occupies (drawn edge List.mem_cons_self)
        (Edge.occupies_iff.mpr ⟨into.trans named, port⟩)

/-- An update that names no fields leaves the graph looking the same. -/
theorem sameUpstream_updateNode (sound : store.WellFormed) (finite : store.Finite)
    (proper : patch.OfDocument) (untouched : patch.touchesParams = false) (id : String)
    {other : String} (known : store.contains other = true) :
    store.SameUpstream (store.updateNode id patch).2.toGraph other := by
  rcases updateNode_cases store id patch with ⟨_, same⟩ | ⟨node, patched, found, fits⟩
  · rw [same]
    exact .refl sound finite known
  · refine Graph.sameUpstream_of_unfed sound finite (edges_updateNode store id patch) ?_ known
    intro member old there
    obtain ⟨position, after⟩ := node?_updateNode finite proper untouched found fits there
    refine ⟨_, after, unfed_heard there (fun edge listed => ?_) _⟩
    exact (mem_outlets.mp listed).2.1

end Untouched

end Store

end RecipeGraph
