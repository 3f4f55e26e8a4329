import RecipeGraph.Proofs.Documents
import RecipeGraph.Proofs.Reloading
import RecipeGraph.Proofs.Striking

/-!
# Fields in step with what is plugged in

The field of a handle remembers the literal of what is plugged into the handle. What an edit
can do to it is said once: it leaves the field alone together with what comes to the handle,
it brings the field in step, or it takes away what was plugged in and empties the field. Only
an update that names the field and a load do anything else.
-/

namespace RecipeGraph

theorem NodeParams.literal_of_kind {params : NodeParams} (other : params.kind ≠ .value) :
    params.literal = none := by
  cases params with
  | value x => exact absurd rfl other
  | _ => rfl

@[simp] theorem NodeParams.bound?_supplied (params : NodeParams)
    (arrived : String → Option (Option Float)) (handle : String) :
    (params.supplied arrived).bound? handle =
      (params.bound? handle).map fun held => (arrived handle).getD held := by
  cases params with
  | multiply a b =>
    simp only [supplied, bound?]
    split_ifs with first second
    · rw [first]
      rfl
    · rw [second]
      rfl
    · rfl
  | _ => rfl

namespace Node

variable {literal : Option Float} {node : Node} {edge : Edge} {edges : List Edge} {handle : String}

@[simp] theorem literal_unplugged (node : Node) (edge : Edge) :
    (node.unplugged edge).params.literal = node.params.literal := by
  unfold unplugged
  split
  · split
    · exact NodeParams.literal_bind _ _ _
    · rfl
  · rfl

@[simp] theorem literal_foldl_unplugged (node : Node) (edges : List Edge) :
    (edges.foldl unplugged node).params.literal = node.params.literal := by
  induction edges generalizing node with
  | nil => rfl
  | cons edge rest ih => rw [List.foldl_cons, ih, literal_unplugged]

@[simp] theorem literal_hear (literal : Option Float) (node : Node) (edge : Edge) :
    (node.hear literal edge).params.literal = node.params.literal := by
  rcases hear_cases literal node edge with ⟨_, same⟩ | ⟨_, _, _, _, _, _, same⟩ <;> rw [same]
  exact NodeParams.literal_bind _ _ _

@[simp] theorem literal_foldl_hear (literal : Option Float) (node : Node) (edges : List Edge) :
    (edges.foldl (hear literal) node).params.literal = node.params.literal := by
  induction edges generalizing node with
  | nil => rfl
  | cons edge rest ih => rw [List.foldl_cons, ih, literal_hear]

/-- What comes to other handles leaves the field of this one alone. -/
theorem bound?_hear_of_away (away : edge.occupies node.id (some handle) = false) :
    (node.hear literal edge).params.bound? handle = node.params.bound? handle := by
  rcases hear_cases literal node edge with ⟨_, same⟩ | ⟨port, _, into, named, _, _, same⟩
  · rw [same]
  · have apart : handle ≠ port := by
      rintro rfl
      simp [Edge.occupies, into, named] at away
    rw [same]
    exact (NodeParams.bound?_bind _ _ _ _).trans (if_neg apart)

theorem bound?_foldl_hear_of_away
    (away : ∀ edge ∈ edges, edge.occupies node.id (some handle) = false) :
    (edges.foldl (hear literal) node).params.bound? handle = node.params.bound? handle := by
  induction edges generalizing node with
  | nil => rfl
  | cons edge rest ih =>
    rw [List.foldl_cons, ih, bound?_hear_of_away (away edge List.mem_cons_self)]
    intro other member
    rw [hear_id]
    exact away other (List.mem_cons_of_mem _ member)

end Node

namespace Graph

/-- What the field of a handle holds, if there is the node and it has such a field. -/
def held? (graph : Graph) (id handle : String) : Option (Option Float) :=
  (graph.node? id).bind fun node => node.params.bound? handle

/-- The field of a handle holds the literal of what is plugged into the handle. -/
def InStep (graph : Graph) (id handle : String) : Prop :=
  ∃ literal held, graph.arriving id handle = some literal ∧ graph.held? id handle = some held ∧
    (held == literal) = true

instance (graph : Graph) (id handle : String) : Decidable (graph.InStep id handle) :=
  decidable_of_iff
    ((graph.arriving id handle).any fun literal => (graph.held? id handle).any (· == literal))
    (by simp only [InStep, Option.any_eq_true]
        exact exists_congr fun literal => exists_and_left.symm)

/-- Neither what comes to the handle nor its field is touched. -/
structure Steady (before after : Graph) (id handle : String) : Prop where
  arriving : after.arriving id handle = before.arriving id handle
  held : after.held? id handle = before.held? id handle

/-- The ways in which an edit can leave a handle of a node that stays. -/
inductive Rebinds (before after : Graph) (id handle : String) : Prop
  | steady (same : before.Steady after id handle)
  | renewed (inStep : after.InStep id handle)
  /-- What was plugged in has gone, and nothing has come in its place. -/
  | emptied (had : (before.arriving id handle).isSome = true)
      (gone : after.arriving id handle = none) (empty : after.held? id handle = some none)

variable {graph before middle after : Graph} {id handle : String}

@[simp] theorem Steady.refl (graph : Graph) (id handle : String) : graph.Steady graph id handle :=
  ⟨rfl, rfl⟩

theorem Steady.inStep (same : before.Steady after id handle) (inStep : before.InStep id handle) :
    after.InStep id handle := by
  unfold InStep
  rw [same.arriving, same.held]
  exact inStep

theorem Rebinds.trans_steady (edit : before.Rebinds middle id handle)
    (same : middle.Steady after id handle) : before.Rebinds after id handle := by
  cases edit with
  | steady early => exact .steady ⟨same.arriving.trans early.arriving, same.held.trans early.held⟩
  | renewed inStep => exact .renewed (same.inStep inStep)
  | emptied had gone empty =>
    exact .emptied had (same.arriving.trans gone) (same.held.trans empty)

/-- The same comes to a handle if the same node is plugged in and its literal is the same. -/
theorem arriving_congr (plugged : after.plugged id handle = before.plugged id handle)
    (literal : ∀ source, before.plugged id handle = some source →
      after.literal? source = before.literal? source) :
    after.arriving id handle = before.arriving id handle := by
  unfold arriving
  rw [plugged]
  exact Option.bind_congr fun source found => literal source found

/-- In a well-formed graph a literal comes to every handle in use. -/
theorem isSome_arriving (sound : graph.WellFormed) (id handle : String) :
    (graph.arriving id handle).isSome = graph.fed id handle := by
  unfold arriving fed
  cases plugged : graph.plugged id handle with
  | none => rfl
  | some source =>
    obtain ⟨edge, drawn, rfl, _⟩ := exists_edge_of_plugged plugged
    obtain ⟨_, node, _, found, _⟩ := sound.carried edge drawn
    rw [Option.bind_some, literal?, found]
    rfl

theorem InStep.fed (inStep : graph.InStep id handle) (sound : graph.WellFormed) :
    graph.fed id handle = true := by
  obtain ⟨literal, _, arrives, _⟩ := inStep
  rw [← isSome_arriving sound, arrives]
  rfl

theorem Steady.fed (same : before.Steady after id handle) (sound : before.WellFormed)
    (sound' : after.WellFormed) : after.fed id handle = before.fed id handle := by
  rw [← isSome_arriving sound, ← isSome_arriving sound', same.arriving]

theorem arriving_of_unplugged (unplugged : graph.plugged id handle = none) :
    graph.arriving id handle = none := by
  rw [arriving, unplugged]
  rfl

/-- The handles with a field are the two of every product. -/
theorem isSome_held?_iff : (graph.held? id handle).isSome = true ↔
    graph.kind? id = some .multiply ∧ (handle = Handle.a ∨ handle = Handle.b) := by
  unfold held? kind?
  cases graph.node? id with
  | none => simp
  | some node =>
    cases params : node.params with
    | multiply a b =>
      simp only [Option.bind_some, Option.map_some, Node.kind, params, NodeParams.kind, true_and,
        NodeParams.bound?]
      split_ifs with first second <;> simp [*]
    | _ => simp [Node.kind, params, NodeParams.kind, NodeParams.bound?]

theorem contains_of_fed (sound : graph.WellFormed) (used : graph.fed id handle = true) :
    graph.contains id = true := by
  obtain ⟨source, plugged⟩ := Option.isSome_iff_exists.mp used
  obtain ⟨edge, drawn, _, rfl, _⟩ := exists_edge_of_plugged plugged
  obtain ⟨_, _, target, _, found, _⟩ := sound.carried edge drawn
  exact contains_iff.mpr ⟨target, found⟩

/-- Only products have operand handles that anything can be plugged into. -/
theorem isSome_held? (sound : graph.WellFormed) (operand : handle = Handle.a ∨ handle = Handle.b)
    (used : graph.fed id handle = true) : (graph.held? id handle).isSome = true := by
  obtain ⟨source, plugged⟩ := Option.isSome_iff_exists.mp used
  obtain ⟨edge, drawn, _, rfl, port⟩ := exists_edge_of_plugged plugged
  obtain ⟨_, source, target, _, found, feeds⟩ := sound.carried edge drawn
  have accepted := (Bool.and_eq_true_iff.mp feeds).2
  rw [port] at accepted
  refine isSome_held?_iff.mpr ⟨?_, operand⟩
  rw [kind?, found, Option.map_some]
  cases kind : target.kind with
  | multiply => rfl
  | _ =>
    rcases operand with rfl | rfl <;>
      simp [kind, NodeKind.accepts, Handle.a, Handle.b, Handle.input, Handle.model, Handle.x,
        Handle.y] at accepted

/-- What is left on nodes has nothing to do with their fields. -/
theorem steady_of_blank (same : after.blank = before.blank) (id handle : String) :
    before.Steady after id handle := by
  have params : ∀ member,
      (after.node? member).map (·.params) = (before.node? member).map (·.params) := by
    intro member
    have blank := congrArg (fun graph : Graph => (graph.node? member).map (·.params)) same
    simpa only [node?_blank, Option.map_map, Function.comp_def, Node.fresh] using blank
  have literal : ∀ member, after.literal? member = before.literal? member := by
    intro member
    have equal := congrArg (Option.map NodeParams.literal) (params member)
    simpa only [literal?, Option.map_map, Function.comp_def] using equal
  refine ⟨arriving_congr ?_ fun source _ => literal source, ?_⟩
  · exact plugged_of_edges (edges_of_blank same) id handle
  · have equal := congrArg (Option.bind · (NodeParams.bound? · handle)) (params id)
    simpa only [held?, Option.bind_map, Function.comp_def] using equal

end Graph

namespace Store

open RecipeGraph.Graph (Rebinds Steady plugged_eq_none_iff eq_of_occupies)

variable {store : Store} {id handle : String} {edge : Edge} {gone : List Edge}
  {literal : Option Float}

@[simp] theorem literal?_detachAll (store : Store) (gone : List Edge) (member : String) :
    (store.detachAll gone).literal? member = store.literal? member := by
  rw [Graph.literal?, Graph.literal?, node?_detachAll, Option.map_map]
  exact Option.map_congr fun node _ => Node.literal_foldl_unplugged node gone

@[simp] theorem held?_detachAll (store : Store) (gone : List Edge) (id handle : String) :
    (store.detachAll gone).held? id handle =
      if gone.any (·.occupies id (some handle)) then (store.held? id handle).map fun _ => none
      else store.held? id handle := by
  rw [Graph.held?, Graph.held?, node?_detachAll]
  cases there : store.node? id with
  | none => simp
  | some node =>
    have named := Graph.id_of_node? there
    simp only [Option.map_some, Option.bind_some]
    rw [Node.bound?_foldl_unplugged, named]

/-- What is plugged into a handle stays if all edges that go end elsewhere. -/
theorem plugged_detachAll_of_away (sound : store.WellFormed)
    (drawn : ∀ edge ∈ gone, edge ∈ store.edges)
    (away : ∀ edge ∈ gone, edge.occupies id (some handle) = false) :
    (store.detachAll gone).plugged id handle = store.plugged id handle := by
  rw [Graph.plugged, Graph.plugged, Graph.inputEdge?, Graph.inputEdge?, edges_detachAll,
    List.find?_filter]
  congr 1
  refine List.find?_congr fun edge member => ?_
  by_cases here : edge.occupies id (some handle) = true
  · have stays : edge.id ∉ gone.map (·.id) := by
      intro listed
      obtain ⟨other, taken, same⟩ := List.mem_map.mp listed
      have equal := List.inj_on_of_nodup_map sound.edges_once (drawn other taken) member same
      rw [equal] at taken
      rw [away edge taken] at here
      cases here
    simp [stays, here]
  · simp [here]

/-- An edge that goes leaves nothing plugged in. -/
theorem plugged_detachAll_of_gone (sound : store.WellFormed) (drawn : edge ∈ store.edges)
    (taken : edge ∈ gone) (here : edge.occupies id (some handle) = true) :
    (store.detachAll gone).plugged id handle = none := by
  rw [plugged_eq_none_iff, edges_detachAll]
  intro other member
  obtain ⟨drawn', stays⟩ := List.mem_filter.mp member
  apply Bool.eq_false_iff.mpr
  intro here'
  rw [eq_of_occupies sound drawn drawn' here here'] at stays
  have listed : edge.id ∈ gone.map (·.id) := List.mem_map_of_mem taken
  rw [List.contains_iff_mem.mpr listed] at stays
  cases stays

theorem rebinds_detachAll (sound : store.WellFormed) (drawn : ∀ edge ∈ gone, edge ∈ store.edges)
    (field : (store.held? id handle).isSome = true) :
    store.Rebinds (store.detachAll gone).toGraph id handle := by
  have held := held?_detachAll store gone id handle
  by_cases taken : ∃ edge ∈ gone, edge.occupies id (some handle) = true
  · rw [if_pos (List.any_eq_true.mpr taken)] at held
    obtain ⟨edge, member, here⟩ := taken
    obtain ⟨before, there⟩ := Option.isSome_iff_exists.mp field
    refine .emptied ?_ ?_ (by rw [held, there]; rfl)
    · rw [Graph.isSome_arriving sound]
      exact Graph.fed_of_occupies (drawn edge member) here
    · exact Graph.arriving_of_unplugged
        (plugged_detachAll_of_gone sound (drawn edge member) member here)
  · rw [if_neg fun any => taken (List.any_eq_true.mp any)] at held
    have away : ∀ edge ∈ gone, edge.occupies id (some handle) = false :=
      fun edge member => Bool.eq_false_iff.mpr fun here => taken ⟨edge, member, here⟩
    have plugged := plugged_detachAll_of_away sound drawn away
    exact .steady ⟨Graph.arriving_congr plugged fun source _ => literal?_detachAll _ _ _, held⟩

theorem removeNode_rebinds (sound : store.WellFormed) (target : String)
    (field : (store.held? id handle).isSome = true)
    (stays : (store.removeNode target).2.contains id = true) :
    store.Rebinds (store.removeNode target).2.toGraph id handle := by
  generalize done : store.removeNode target = outcome at stays ⊢
  obtain ⟨result, after⟩ := outcome
  cases result with
  | error error =>
    rw [removeNode_of_error done]
    exact .steady (.refl _ _ _)
  | ok removed =>
    obtain ⟨edges, nodes⟩ := removeNode_of_ok sound done
    have apart : id ≠ target := by
      rintro rfl
      rw [Graph.contains, node?_of_removeNode done] at stays
      cases stays
    have cleared : after.edges = (store.detachAll (store.edges.filter (·.touches target))).edges :=
      edges.trans (edges_detachAll_filter sound.edges_once _).symm
    have same : ∀ member, member ≠ target → after.node? member =
        (store.detachAll (store.edges.filter (·.touches target))).node? member :=
      fun member apart => (nodes member apart).trans (node?_detachAll _ _ _).symm
    have drawn : ∀ edge ∈ store.edges.filter (·.touches target), edge ∈ store.edges :=
      fun _ => List.mem_of_mem_filter
    have room := rebinds_detachAll sound drawn field
    refine room.trans_steady ⟨?_, ?_⟩
    · refine Graph.arriving_congr (Graph.plugged_of_edges cleared _ _) fun source plugged => ?_
      obtain ⟨edge, drawn, rfl, _⟩ := Graph.exists_edge_of_plugged plugged
      rw [← cleared, edges] at drawn
      have free := (List.mem_filter.mp drawn).2
      rw [Graph.literal?, Graph.literal?, same]
      rintro rfl
      simp [Edge.touches] at free
    · rw [Graph.held?, Graph.held?, same id apart]

theorem removeEdge_rebinds (sound : store.WellFormed) (target : String)
    (field : (store.held? id handle).isSome = true) :
    store.Rebinds (store.removeEdge target).2.toGraph id handle := by
  unfold removeEdge
  split
  · next edge found =>
    have drawn : ∀ other ∈ [edge], other ∈ store.edges := fun other member =>
      List.mem_singleton.mp member ▸ List.mem_of_find?_eq_some found
    exact rebinds_detachAll sound drawn field
  · exact .steady (.refl _ _ _)

theorem literal?_place (port : edge.targetHandle = some handle) (literal : Option Float)
    (member : String) : (store.place edge literal).literal? member = store.literal? member := by
  rw [Graph.literal?, Graph.literal?, node?_place store port, Option.map_map]
  refine Option.map_congr fun node _ => ?_
  have kept := Node.literal_foldl_unplugged node (store.edges.filter (·.yieldsTo edge))
  simp only [Function.comp_apply]
  split
  · exact (NodeParams.literal_bind _ _ _).trans kept
  · exact kept

@[simp] theorem mem_edges_place (store : Store) (edge : Edge) (literal : Option Float) :
    edge ∈ (store.place edge literal).edges :=
  List.mem_append_right _ (List.mem_singleton.mpr rfl)

/-- A new edge brings the field of its handle in step. -/
theorem inStep_place (sound : (store.place edge literal).WellFormed)
    (source : store.literal? edge.source = some literal)
    (number : literal.all (·.isFinite) = true) (here : edge.occupies id (some handle) = true)
    (field : (store.held? id handle).isSome = true) :
    (store.place edge literal).InStep id handle := by
  obtain ⟨rfl, port⟩ := Edge.occupies_iff.mp here
  obtain ⟨held, there⟩ := Option.isSome_iff_exists.mp field
  obtain ⟨node, found, bound⟩ := Option.bind_eq_some_iff.mp there
  have drawn := mem_edges_place store edge literal
  refine ⟨literal, literal, ?_, ?_, NodeParams.literal_beq_self number⟩
  · rw [Graph.arriving, Graph.plugged_of_edge sound drawn port, Option.bind_some,
      literal?_place port, source]
  · rw [Graph.held?, node?_place store port, found]
    simp only [Option.map_some, Option.bind_some, Graph.id_of_node? found, if_true]
    exact Node.bound?_replugged bound _ _

theorem rebinds_place (sound : store.WellFormed) (sound' : (store.place edge literal).WellFormed)
    (handled : edge.targetHandle.isSome = true)
    (source : store.literal? edge.source = some literal)
    (number : literal.all (·.isFinite) = true) (field : (store.held? id handle).isSome = true) :
    store.Rebinds (store.place edge literal).toGraph id handle := by
  by_cases here : edge.occupies id (some handle) = true
  · exact .renewed (inStep_place sound' source number here field)
  · obtain ⟨port, named⟩ := Option.isSome_iff_exists.mp handled
    have drawn : ∀ other ∈ store.edges.filter (·.yieldsTo edge), other ∈ store.edges :=
      fun _ => List.mem_of_mem_filter
    have room := rebinds_detachAll sound drawn field
    refine room.trans_steady ⟨Graph.arriving_congr ?_ fun source _ => ?_, ?_⟩
    · have edges : (store.place edge literal).edges =
          (store.detachAll (store.edges.filter (·.yieldsTo edge))).edges ++ [edge] := by
        rw [edges_place sound.edges_once, edges_detachAll_filter sound.edges_once]
      rw [Graph.plugged, Graph.plugged, Graph.inputEdge?, Graph.inputEdge?, edges,
        List.find?_append]
      simp [here]
    · rw [literal?_place named, literal?_detachAll]
    · rw [Graph.held?, Graph.held?, node?_place store named, node?_detachAll, Option.bind_map,
        Option.bind_map]
      refine Option.bind_congr fun node found => ?_
      simp only [Function.comp_apply]
      split
      · next into =>
        have apart : handle ≠ port := by
          rintro rfl
          exact here (Edge.occupies_iff.mpr ⟨into.trans (Graph.id_of_node? found), named⟩)
        exact (NodeParams.bound?_bind _ _ _ _).trans (if_neg apart)
      · rfl

section Updating

variable {target : String} {patch : NodePatch} {node patched : Node}

theorem literal?_updated (found : store.node? target = some node)
    (fits : node.patched patch = .ok patched) (member : String) :
    (store.updateNode target patch).2.literal? member =
      if member = target then some patched.params.literal else store.literal? member := by
  rw [Graph.literal?, node?_updated found fits, Option.map_map]
  split
  · exact congrArg some (Node.literal_foldl_hear _ _ _)
  · exact Option.map_congr fun other _ => Node.literal_foldl_hear _ other _

/-- An update that hands its literal on to a handle brings the field of the handle in step. -/
theorem inStep_updated (sound : store.WellFormed) (found : store.node? target = some node)
    (fits : node.patched patch = .ok patched)
    (number : patched.params.literal.all (·.isFinite) = true)
    (leaves : edge ∈ store.outlets target patch patched.kind)
    (here : edge.occupies id (some handle) = true) (field : (store.held? id handle).isSome = true) :
    (store.updateNode target patch).2.InStep id handle := by
  obtain ⟨_, drawn, source⟩ := mem_outlets.mp leaves
  obtain ⟨rfl, port⟩ := Edge.occupies_iff.mp here
  obtain ⟨held, there⟩ := Option.isSome_iff_exists.mp field
  obtain ⟨other, found', bound⟩ := Option.bind_eq_some_iff.mp there
  have apart : edge.target ≠ target :=
    fun same => (sound.carried edge drawn).1 (source.trans same.symm)
  have heard : ((store.outlets target patch patched.kind).foldl
      (Node.hear patched.params.literal) other).Remembers patched.params.literal handle :=
    Node.remembers_of_heard leaves (Graph.id_of_node? found').symm port bound
  obtain ⟨now, field', agrees⟩ := heard
  refine ⟨patched.params.literal, now, ?_, ?_, ?_⟩
  · have plugged : (store.updateNode target patch).2.plugged edge.target handle = some target := by
      rw [Graph.plugged_of_edges (edges_updateNode store target patch), ← source]
      exact Graph.plugged_of_edge sound drawn port
    rw [Graph.arriving, plugged, Option.bind_some, literal?_updated found fits, if_pos rfl]
  · rw [Graph.held?, node?_updated found fits, if_neg apart, found']
    exact field'
  · rcases agrees with rfl | equal
    · exact NodeParams.literal_beq_self number
    · exact equal

/-- The literal of a node is the same after an update that does not hand it on. -/
theorem literal_of_quiet (fits : node.patched patch = .ok patched)
    (quiet : ¬ (patch.config.isSome = true ∧ patched.kind = .value)) :
    patched.params.literal = node.params.literal := by
  rcases Node.params_patched fits with ⟨_, same⟩ | ⟨config, given, _⟩
  · rw [same]
  · have other : patched.kind ≠ .value := fun value => quiet ⟨by rw [given]; rfl, value⟩
    have other' : node.kind ≠ .value := fun value => other ((kind_patched fits).trans value)
    rw [NodeParams.literal_of_kind other, NodeParams.literal_of_kind other']

/-- The field of a handle is the same after an update that does not name it. -/
theorem bound?_of_unnamed (finite : node.params.isFinite = true)
    (fits : node.patched patch = .ok patched)
    (unnamed : ∀ config ∈ patch.config, handle ∉ config.map (·.1)) :
    patched.params.bound? handle = node.params.bound? handle := by
  rcases Node.params_patched fits with ⟨_, same⟩ | ⟨config, given, merged⟩
  · rw [same]
  · exact NodeParams.bound?_merge (NodeParams.keepsLiterals_of_isFinite finite) merged (unnamed config given)

/-- Nothing comes to the handles to which an update does not hand its literal on. -/
theorem steady_updated (sound : store.WellFormed) (found : store.node? target = some node)
    (finite : node.params.isFinite = true) (fits : node.patched patch = .ok patched)
    (unnamed : target = id → ∀ config ∈ patch.config, handle ∉ config.map (·.1))
    (untold : ∀ edge ∈ store.outlets target patch patched.kind,
      edge.occupies id (some handle) = false) :
    store.Steady (store.updateNode target patch).2.toGraph id handle := by
  refine ⟨Graph.arriving_congr (Graph.plugged_of_edges (edges_updateNode _ _ _) _ _)
    fun source plugged => ?_, ?_⟩
  · rw [literal?_updated found fits]
    split
    · next same =>
      subst same
      rw [Graph.literal?, found, Option.map_some, literal_of_quiet fits]
      intro hands
      obtain ⟨edge, drawn, rfl, ends⟩ := Graph.exists_edge_of_plugged plugged
      have away := untold edge (mem_outlets.mpr ⟨hands, drawn, rfl⟩)
      rw [Edge.occupies_iff.mpr ends] at away
      cases away
    · rfl
  · by_cases same : target = id
    · subst same
      rw [Graph.held?, Graph.held?, node?_updated_self sound found fits, found]
      exact bound?_of_unnamed finite fits (unnamed rfl)
    · rw [Graph.held?, Graph.held?, node?_updated found fits, if_neg fun equal => same equal.symm,
        Option.bind_map]
      refine Option.bind_congr fun other there => Node.bound?_foldl_hear_of_away ?_
      rw [Graph.id_of_node? there]
      exact untold

theorem updateNode_rebinds (sound : store.WellFormed) (finite : store.Finite)
    (numbers : ∀ config ∈ patch.config, Json.finiteEntries config = true)
    (unnamed : target = id → ∀ config ∈ patch.config, handle ∉ config.map (·.1))
    (field : (store.held? id handle).isSome = true) :
    store.Rebinds (store.updateNode target patch).2.toGraph id handle := by
  rcases updateNode_cases store target patch with ⟨error, same⟩ | ⟨node, patched, found, fits⟩
  · rw [same]
    exact .steady (.refl _ _ _)
  · have fields := finite node (Graph.mem_of_node? found)
    by_cases told : ∃ edge ∈ store.outlets target patch patched.kind,
        edge.occupies id (some handle) = true
    · obtain ⟨edge, leaves, here⟩ := told
      have number :=
        NodeParams.isFinite_literal (NodeParams.isFinite_of_patched fields numbers fits)
      exact .renewed (inStep_updated sound found fits number leaves here field)
    · exact .steady <| steady_updated sound found fields fits unnamed fun edge leaves =>
        Bool.eq_false_iff.mpr fun here => told ⟨edge, leaves, here⟩

end Updating

theorem steady_addNode (sound : store.WellFormed) (node : Node)
    (field : (store.held? id handle).isSome = true) :
    store.Steady (store.addNode node).2.toGraph id handle := by
  refine ⟨Graph.arriving_congr (Graph.plugged_of_edges (edges_addNode _ _) _ _)
    fun source plugged => ?_, ?_⟩
  · obtain ⟨edge, drawn, rfl, _⟩ := Graph.exists_edge_of_plugged plugged
    obtain ⟨_, source, _, found, _⟩ := sound.carried edge drawn
    rw [Graph.literal?, Graph.literal?, node?_addNode found, found]
  · obtain ⟨held, there⟩ := Option.isSome_iff_exists.mp field
    obtain ⟨old, found, _⟩ := Option.bind_eq_some_iff.mp there
    rw [Graph.held?, Graph.held?, node?_addNode found, found]

/-- After a load the field of every handle in use is in step. -/
theorem inStep_load {graph : Graph} (finite : graph.Finite) {after : Store}
    (done : store.load graph = (.ok (), after)) (sound : after.WellFormed)
    (used : after.fed id handle = true) (field : (after.held? id handle).isSome = true) :
    after.InStep id handle := by
  obtain ⟨built, made, same⟩ := load_of_ok done
  obtain ⟨arrivals, nodes, brought⟩ := supplied_of_build made
  rw [← same] at nodes brought
  rw [← Graph.isSome_arriving sound] at used
  obtain ⟨literal, arrives⟩ := Option.isSome_iff_exists.mp used
  obtain ⟨source, plugged, given⟩ := Option.bind_eq_some_iff.mp arrives
  obtain ⟨edge, drawn, rfl, rfl, port⟩ := Graph.exists_edge_of_plugged plugged
  rw [Graph.literal?_supplied nodes] at given
  obtain ⟨held, there⟩ := Option.isSome_iff_exists.mp field
  have reached : held = literal := by
    rw [Graph.held?, Graph.node?_supplied nodes, Option.bind_map] at there
    obtain ⟨node, found, bound⟩ := Option.bind_eq_some_iff.mp there
    have arrived : arrivals node.id handle = some literal := by
      rw [Graph.id_of_node? found, brought edge drawn handle port, given]
    obtain ⟨old, _, rfl⟩ := Option.map_eq_some_iff.mp
      ((NodeParams.bound?_supplied _ _ _).symm.trans bound)
    rw [arrived]
    rfl
  have number : literal.all (·.isFinite) = true := by
    obtain ⟨node, found, rfl⟩ := Option.map_eq_some_iff.mp given
    exact NodeParams.isFinite_literal (finite node (Graph.mem_of_node? found))
  refine ⟨literal, held, arrives, there, ?_⟩
  rw [reached]
  exact NodeParams.literal_beq_self number

/-- All numbers that come with the operation are finite, as they are in documents. Another
number would be lost in the first merge, which writes it as null. -/
def Operation.Finite : Operation → Prop
  | .load graph => graph.Finite
  | .addNode node => node.params.isFinite = true
  | .updateNode _ patch => ∀ config ∈ patch.config, Json.finiteEntries config = true
  | _ => True

instance : (operation : Operation) → Decidable operation.Finite
  | .load graph => inferInstanceAs (Decidable graph.Finite)
  | .addNode node => inferInstanceAs (Decidable (node.params.isFinite = true))
  | .updateNode _ patch =>
    inferInstanceAs (Decidable (∀ config ∈ patch.config, Json.finiteEntries config = true))
  | .removeNode _ | .addEdge _ | .removeEdge _ | .addError _ _ _ | .compile _ _ => isTrue trivial

/-- The operation updates the node and names the field of the handle. -/
def Operation.Names (operation : Operation) (id handle : String) : Prop :=
  ∃ patch config, operation = .updateNode id patch ∧ patch.config = some config ∧
    handle ∈ config.map (·.1)

variable {operation : Operation}

theorem finite_apply (sound : store.WellFormed) (finite : store.Finite)
    (numbers : operation.Finite) : (store.apply operation).Finite := by
  cases operation with
  | load graph => exact every_load Node.finite_lasting finite numbers
  | addNode node => exact every_addNode finite numbers
  | removeNode id => exact every_removeNode Node.finite_lasting finite id
  | updateNode id patch =>
    exact every_updateNode Node.finite_lasting finite id fun node patched had fits =>
      NodeParams.isFinite_of_patched had numbers fits
  | addEdge connection => exact every_connect Node.finite_lasting finite connection none
  | removeEdge id => exact every_removeEdge Node.finite_lasting finite id
  | addError id message clear => exact every_addError finite id fun _ had => had
  | compile compilers subset =>
    exact Graph.finite_of_blank (compile_frame compilers sound subset).1 finite

/-- An edge that is drawn brings the literal of its source, a finite number. -/
theorem exists_place_of_addEdge (finite : store.Finite) {connection : Connection} {after : Store}
    (done : store.addEdge connection = (.ok edge, after)) :
    ∃ literal, after = store.place edge literal ∧ edge.targetHandle.isSome = true ∧
      store.literal? edge.source = some literal ∧ literal.all (·.isFinite) = true := by
  obtain ⟨source, target, found, _, rfl, handled, same⟩ := addEdge_of_ok done
  refine ⟨source.params.literal, same, handled, ?_,
    NodeParams.isFinite_literal (finite source (Graph.mem_of_node? found))⟩
  change store.literal? connection.source = _
  rw [Graph.literal?, found]
  rfl

theorem addEdge_rebinds (sound : store.WellFormed) (finite : store.Finite) (connection : Connection)
    (field : (store.held? id handle).isSome = true) :
    store.Rebinds (store.addEdge connection).2.toGraph id handle := by
  have sound' : (store.addEdge connection).2.WellFormed :=
    apply_wellFormed sound (.addEdge connection)
  generalize made : store.addEdge connection = outcome at sound' ⊢
  obtain ⟨result, after⟩ := outcome
  cases result with
  | error error =>
    rw [connect_of_error made]
    exact .steady (.refl _ _ _)
  | ok edge =>
    obtain ⟨literal, rfl, handled, source, number⟩ := exists_place_of_addEdge finite made
    exact rebinds_place sound sound' handled source number field

/-- Every operation but a load treats a handle in one of the ways, unless it names its field. -/
theorem rebinds_apply (sound : store.WellFormed) (finite : store.Finite)
    (numbers : operation.Finite) (stays : operation.replaces = false)
    (unnamed : ¬ operation.Names id handle)
    (there : (store.apply operation).contains id = true)
    (field : (store.held? id handle).isSome = true) :
    store.Rebinds (store.apply operation).toGraph id handle := by
  cases operation with
  | load graph => cases stays
  | addNode node => exact .steady (steady_addNode sound node field)
  | removeNode target => exact removeNode_rebinds sound target field there
  | updateNode target patch =>
    refine updateNode_rebinds sound finite numbers ?_ field
    rintro rfl config given named
    exact unnamed ⟨patch, config, rfl, given, named⟩
  | addEdge connection => exact addEdge_rebinds sound finite connection field
  | removeEdge target => exact removeEdge_rebinds sound target field
  | addError target message clear =>
    exact .steady (Graph.steady_of_blank (blank_addError _ _ _ _) _ _)
  | compile compilers subset =>
    exact .steady (Graph.steady_of_blank (compile_frame compilers sound subset).1 _ _)

section Steps

variable (sound : store.WellFormed) (finite : store.Finite) (numbers : operation.Finite)
  (operand : handle = Handle.a ∨ handle = Handle.b)

include sound numbers operand

theorem inStep_loaded {graph : Graph} (same : operation = .load graph)
    (done : (store.load graph).1 = .ok ())
    (used : (store.apply operation).fed id handle = true) :
    (store.apply operation).InStep id handle := by
  have sound' := apply_wellFormed sound operation
  subst same
  exact inStep_load numbers (Prod.ext done rfl) sound' used (Graph.isSome_held? sound' operand used)

include finite

theorem inStep_apply (unnamed : ¬ operation.Names id handle) (inStep : store.InStep id handle)
    (used : (store.apply operation).fed id handle = true) :
    (store.apply operation).InStep id handle := by
  have sound' := apply_wellFormed sound operation
  cases stays : operation.replaces with
  | true =>
    obtain ⟨graph, rfl⟩ : ∃ graph, operation = .load graph := by
      cases operation <;> first | exact ⟨_, rfl⟩ | cases stays
    cases done : (store.load graph).1 with
    | ok _ => exact inStep_loaded sound numbers operand rfl done used
    | error error =>
      have same : (store.load graph).2 = store := load_of_error (Prod.ext done rfl)
      change (store.load graph).2.InStep id handle
      rwa [same]
  | false =>
    have there := Graph.contains_of_fed sound' used
    have field := Graph.isSome_held? sound operand (inStep.fed sound)
    cases rebinds_apply sound finite numbers stays unnamed there field with
    | steady same => exact same.inStep inStep
    | renewed inStep => exact inStep
    | emptied _ gone _ =>
      rw [← Graph.isSome_arriving sound', gone] at used
      cases used

end Steps

section Writes

variable (sound : store.WellFormed) (finite : store.Finite)
  (operand : handle = Handle.a ∨ handle = Handle.b)

include sound finite operand

end Writes

/-- A field in step stays so over a whole run, as long as something is plugged in all the time and
no operation names the field. -/
theorem inStep_run {store : Store} (sound : store.WellFormed) (finite : store.Finite)
    {operations : List Operation} (numbers : ∀ operation ∈ operations, operation.Finite)
    (unnamed : ∀ operation ∈ operations, ¬ operation.Names id handle)
    (operand : handle = Handle.a ∨ handle = Handle.b)
    (used : ∀ earlier later, operations = earlier ++ later →
      (earlier.foldl apply store).fed id handle = true) (inStep : store.InStep id handle) :
    (operations.foldl apply store).InStep id handle := by
  induction operations generalizing store with
  | nil => exact inStep
  | cons operation rest ih =>
    have here := numbers operation (.head _)
    refine ih (apply_wellFormed sound operation) (finite_apply sound finite here)
      (fun other member => numbers other (.tail _ member))
      (fun other member => unnamed other (.tail _ member))
      (fun earlier later split => used (operation :: earlier) later (by rw [split]; rfl)) ?_
    exact inStep_apply sound finite here operand (unnamed operation (.head _)) inStep
      (used [operation] rest rfl)

end Store

end RecipeGraph
