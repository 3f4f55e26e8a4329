import RecipeGraph.Compile
import RecipeGraph.Proofs.WellFormed

/-!
# Editing keeps graphs well formed

Almost all changes of a store only thin its graph out: the outline stays and
edges only go. Adding and removing nodes and putting an edge in place are the
exceptions.
-/

namespace RecipeGraph

/-- What a patch that fits makes of a node. -/
structure Node.PatchedTo (node : Node) (patch : NodePatch) (patched : Node) : Prop where
  id : patched.id = node.id
  params : patch.config.elim (.ok node.params) node.params.merge = .ok patched.params
  position : patched.position = patch.position.getD node.position
  errors : patched.data.errors = patch.errors.getD node.data.errors
  output : patched.data.output = patch.output.getD node.data.output
  compiled : patched.data.compiled = patch.compiled.getD node.data.compiled

theorem Node.patched_ok {node patched : Node} {patch : NodePatch}
    (fits : node.patched patch = .ok patched) : node.PatchedTo patch patched := by
  unfold Node.patched at fits
  cases given : patch.config with
  | none =>
    rw [given] at fits
    cases fits
    exact ⟨rfl, by rw [given]; rfl, rfl, rfl, rfl, rfl⟩
  | some config =>
    rw [given] at fits
    obtain ⟨params, merged, made⟩ := Outcome.bind_eq_ok.mp fits
    cases made
    exact ⟨rfl, by rw [given]; exact merged, rfl, rfl, rfl, rfl⟩

/-- A patch lays the fields that it gives over those of the node. -/
theorem Node.params_patched {node patched : Node} {patch : NodePatch}
    (fits : node.patched patch = .ok patched) :
    patch.config = none ∧ patched.params = node.params ∨
      ∃ fields, patch.config = some fields ∧ node.params.merge fields = .ok patched.params := by
  have merged := (Node.patched_ok fits).params
  cases given : patch.config with
  | none =>
    rw [given] at merged
    exact .inl ⟨rfl, (Except.ok.inj merged).symm⟩
  | some fields =>
    rw [given] at merged
    exact .inr ⟨fields, rfl, merged⟩

namespace Store

open RecipeGraph.Graph (Thins WellFormed KeepsKinds)

@[simp]
theorem toGraph_emit (store : Store) (event : Event) :
    (store.emit event).toGraph = store.toGraph :=
  rfl

@[simp]
theorem outline_modifyNode {store : Store} {id : String} {change : Node → Node}
    (keeps : ∀ node ∈ store.nodes, node.id = id →
      (change node).id = node.id ∧ (change node).kind = node.kind) :
    (store.modifyNode id change).outline = store.outline := by
  unfold Graph.outline modifyNode
  rw [List.map_map]
  refine List.map_congr_left fun node member => ?_
  by_cases same : node.id = id
  · have kept := keeps node member same
    simp [same, kept.1, kept.2]
  · simp [same]

theorem thins_modifyNode {store : Store} {id : String} {change : Node → Node}
    (keeps : ∀ node ∈ store.nodes, node.id = id →
      (change node).id = node.id ∧ (change node).kind = node.kind) :
    store.Thins (store.modifyNode id change).toGraph :=
  ⟨outline_modifyNode keeps, List.Sublist.refl _⟩

@[simp]
theorem thins_reset (store : Store) (id : String) : store.Thins (store.reset id).toGraph := by
  unfold reset
  split
  · exact thins_modifyNode fun _ _ _ => ⟨rfl, rfl⟩
  · exact Thins.refl _

@[simp] theorem kind_bind (params : NodeParams) (handle : String) (literal : Option Float) :
    (params.bind handle literal).kind = params.kind := by
  cases params with
  | multiply a b =>
    simp only [NodeParams.bind]
    split
    · rfl
    · split <;> rfl
  | _ => rfl

@[simp] theorem thins_bindHandle (store : Store) (edge : Edge) (literal : Option Float) :
    store.Thins (store.bindHandle edge literal).toGraph := by
  unfold bindHandle
  split
  · exact thins_modifyNode fun _ _ _ => ⟨rfl, kind_bind _ _ _⟩
  · exact Thins.refl _

@[simp] theorem thins_dropEdge (store : Store) (id : String) :
    store.Thins (store.dropEdge id).toGraph :=
  ⟨rfl, List.filter_sublist⟩

@[simp] theorem thins_detach (store : Store) (edge : Edge) :
    store.Thins (store.detach edge).toGraph :=
  ((thins_dropEdge _ _).trans (thins_bindHandle _ _ _)).trans (thins_reset _ _)

@[simp] theorem thins_detachAll (store : Store) (edges : List Edge) :
    store.Thins (store.detachAll edges).toGraph := by
  induction edges generalizing store with
  | nil => exact Thins.refl _
  | cons edge rest ih => exact (thins_detach store edge).trans (ih _)

@[simp]
theorem edges_bindHandle (store : Store) (edge : Edge) (literal : Option Float) :
    (store.bindHandle edge literal).edges = store.edges := by
  unfold bindHandle
  split <;> rfl

@[simp]
theorem edges_reset (store : Store) (id : String) : (store.reset id).edges = store.edges := by
  unfold reset
  split <;> rfl

@[simp] theorem edges_detach (store : Store) (edge : Edge) :
    (store.detach edge).edges = store.edges.filter fun other => other.id ≠ edge.id := by
  unfold detach
  simp [dropEdge]

@[simp] theorem edges_detachAll (store : Store) (edges : List Edge) :
    (store.detachAll edges).edges =
      store.edges.filter fun other => !(edges.map (·.id)).contains other.id := by
  induction edges generalizing store with
  | nil =>
    change store.edges = _
    simp
  | cons edge rest ih =>
    change ((store.detach edge).detachAll rest).edges = _
    rw [ih, edges_detach, List.filter_filter]
    refine List.filter_congr fun other _ => ?_
    by_cases same : other.id = edge.id <;> simp [same]

/-- Taking out the edges with some property leaves exactly the others. -/
theorem edges_detachAll_filter {store : Store} (once : (store.edges.map (·.id)).Nodup)
    (goes : Edge → Bool) :
    (store.detachAll (store.edges.filter goes)).edges =
      store.edges.filter fun edge => !goes edge := by
  rw [edges_detachAll]
  refine List.filter_congr fun edge member => ?_
  congr 1
  rw [Bool.eq_iff_iff, List.contains_iff_mem, List.mem_map]
  constructor
  · rintro ⟨gone, found, same⟩
    have equal := List.inj_on_of_nodup_map once (List.mem_of_mem_filter found) member same
    exact equal ▸ (List.mem_filter.mp found).2
  · intro gone
    exact ⟨edge, List.mem_filter.mpr ⟨member, gone⟩, rfl⟩

@[simp] theorem thins_passLiteral (literal : Option Float) (store : Store) (edge : Edge) :
    store.Thins (passLiteral literal store edge).toGraph := by
  unfold passLiteral
  split
  · split
    · split
      · exact Thins.refl _
      · exact (thins_bindHandle _ _ _).trans (thins_reset _ _)
    · exact Thins.refl _
  · exact Thins.refl _

@[simp] theorem thins_passLiterals (store : Store) (id : String) (literal : Option Float) :
    store.Thins (store.passLiterals id literal).toGraph := by
  unfold passLiterals
  induction store.edges.filter (·.source = id) generalizing store with
  | nil => exact Thins.refl _
  | cons edge rest ih => exact (thins_passLiteral literal store edge).trans (ih _)

theorem kind_patched {node patched : Node} {patch : NodePatch}
    (fits : node.patched patch = .ok patched) : patched.kind = node.kind := by
  rcases Node.params_patched fits with ⟨_, same⟩ | ⟨_, _, merged⟩
  · exact congrArg NodeParams.kind same
  · exact NodeParams.kind_of_merge merged

theorem thins_updateNode {store : Store} (sound : store.WellFormed) (id : String)
    (patch : NodePatch) : store.Thins (store.updateNode id patch).2.toGraph := by
  unfold updateNode
  split
  · exact Thins.refl _
  · next node found =>
    split
    · exact Thins.refl _
    · next patched fits =>
      have updated : store.Thins (store.modifyNode id fun _ => patched).toGraph := by
        refine thins_modifyNode fun other member same => ?_
        have equal : other = node := List.inj_on_of_nodup_map sound.nodes_once member
          (Graph.mem_of_node? found) (same.trans (Graph.id_of_node? found).symm)
        rw [equal]
        exact ⟨(Node.patched_ok fits).id, kind_patched fits⟩
      simp only
      split
      · exact updated.trans (thins_passLiterals ((store.modifyNode id _).emit _) _ _)
      · exact updated

@[simp] theorem thins_addError (store : Store) (id message : String) (clear : Bool) :
    store.Thins (store.addError id message clear).2.toGraph := by
  unfold addError
  split
  · exact thins_modifyNode fun _ _ _ => ⟨rfl, rfl⟩
  · exact Thins.refl _

theorem thins_fail {store : Store} (sound : store.WellFormed) (id : String)
    (fault : CompileFault) : store.Thins (store.fail id fault).2.toGraph := by
  have marked := thins_addError store id fault.message true
  unfold fail
  split
  · next noted same =>
    rw [same] at marked
    exact marked.trans (thins_updateNode (marked.wellFormed sound) _ _)
  · next same =>
    rw [same] at marked
    exact marked

theorem thins_compileEach (compilers : Compilers) {store : Store} (sound : store.WellFormed)
    (report : CompileReport) (ids : List String) :
    store.Thins (compileEach compilers store report ids).2.toGraph := by
  induction ids generalizing store report with
  | nil => exact Thins.refl _
  | cons id rest ih =>
    unfold compileEach
    split
    · exact Thins.refl _
    · split
      · exact ih sound _
      · split
        · next artifact _ =>
          have committed := thins_updateNode sound id
            { output := some (some artifact), errors := some [], compiled := some true }
          split
          · next same =>
            rw [commit] at same
            rw [same] at committed
            exact committed.trans (ih (committed.wellFormed sound) _)
          · next same =>
            rw [commit] at same
            rw [same] at committed
            exact committed
        · next fault _ =>
          have failed := thins_fail sound id fault
          split <;> next same =>
            rw [same] at failed
            exact failed

theorem thins_compile (compilers : Compilers) {store : Store} (sound : store.WellFormed)
    (subset : List String) : store.Thins (store.compile compilers subset).2.toGraph := by
  change store.Thins (compileOrdered compilers (store.emit _) subset).2.toGraph
  unfold compileOrdered
  split
  · exact @thins_compileEach compilers (store.emit _) sound _ _
  · exact Thins.refl _

@[simp] theorem node?_dropNode_self (store : Store) (id : String) :
    (store.dropNode id).node? id = none := by
  unfold Graph.node? dropNode
  rw [List.find?_filter, List.find?_eq_none]
  intro node _
  by_cases same : node.id = id <;> simp [same]

@[simp] theorem node?_dropNode_of_ne (store : Store) {id other : String} (apart : other ≠ id) :
    (store.dropNode id).node? other = store.node? other := by
  unfold Graph.node? dropNode
  rw [List.find?_filter]
  congr 1
  funext node
  by_cases same : node.id = other <;> simp [same, apart]

@[simp] theorem keepsKinds_dropNode (store : Store) (id : String) :
    store.KeepsKinds (store.dropNode id).toGraph := by
  intro other old new was is
  by_cases same : other = id
  · rw [same, node?_dropNode_self] at is
    cases is
  · rw [node?_dropNode_of_ne store same, was] at is
    exact congrArg Node.kind (Option.some.inj is).symm

/-- A node that no edge touches can be dropped. -/
theorem dropNode_wellFormed {store : Store} (sound : store.WellFormed) {id : String}
    (lonely : ∀ edge ∈ store.edges, edge.touches id = false) :
    (store.dropNode id).WellFormed where
  nodes_once := sound.nodes_once.sublist (List.filter_sublist.map _)
  edges_once := sound.edges_once
  carried edge member := by
    have apart : edge.source ≠ id ∧ edge.target ≠ id := by
      simpa [Edge.touches] using lonely edge member
    refine (sound.carried edge member).congr ?_ ?_
    · rw [Graph.kind?, Graph.kind?, node?_dropNode_of_ne store apart.1]
    · rw [Graph.kind?, Graph.kind?, node?_dropNode_of_ne store apart.2]
  handled := sound.handled
  unshared := sound.unshared

theorem removeNode_wellFormed {store : Store} (sound : store.WellFormed) (id : String) :
    (store.removeNode id).2.WellFormed := by
  unfold removeNode
  split
  · have thins := thins_detachAll store (store.edges.filter (·.touches id))
    simp only
    split
    · refine dropNode_wellFormed (thins.wellFormed sound) fun edge member => ?_
      rw [edges_detachAll_filter sound.edges_once] at member
      simpa using (List.mem_filter.mp member).2
    · exact thins.wellFormed sound
  · exact sound

@[simp] theorem keepsKinds_removeNode (store : Store) (id : String) :
    store.KeepsKinds (store.removeNode id).2.toGraph := by
  unfold removeNode
  split
  · have thins := thins_detachAll store (store.edges.filter (·.touches id))
    simp only
    split
    · intro other old new was is
      have mid := Thins.kind? thins other
      rw [Graph.kind?, Graph.kind?, was] at mid
      obtain ⟨between, kept, same⟩ := Option.map_eq_some_iff.mp mid
      exact (keepsKinds_dropNode _ id other between new kept is).trans same
    · exact thins.keepsKinds
  · exact (Thins.refl _).keepsKinds

theorem addNode_wellFormed {store : Store} (sound : store.WellFormed) (node : Node) :
    (store.addNode node).2.WellFormed ∧ store.KeepsKinds (store.addNode node).2.toGraph := by
  unfold addNode
  split
  · exact ⟨sound, (Thins.refl _).keepsKinds⟩
  · next absent =>
    have kept : ∀ id found, store.node? id = some found →
        Graph.node? ⟨store.nodes ++ [node.fresh], store.edges⟩ id = some found := by
      intro id found reached
      unfold Graph.node? at reached ⊢
      rw [List.find?_append, reached]
      rfl
    refine ⟨⟨?_, sound.edges_once, ?_, sound.handled, sound.unshared⟩, ?_⟩
    · change ((store.nodes ++ [node.fresh]).map (·.id)).Nodup
      rw [List.map_append, List.nodup_append]
      refine ⟨sound.nodes_once, by simp, ?_⟩
      rintro id member _ last rfl
      obtain ⟨other, stored, rfl⟩ := List.mem_map.mp member
      have same : other.id = node.id := by simpa [Node.fresh] using last
      refine absent (Graph.contains_iff.mpr ?_)
      rw [← same]
      exact Graph.node?_isSome_of_mem stored
    · intro edge member
      obtain ⟨apart, source, target, sourced, targeted, feeds⟩ := sound.carried edge member
      exact ⟨apart, source, target, kept _ _ sourced, kept _ _ targeted, feeds⟩
    · intro id old new was is
      have same := (kept id old was).symm.trans is
      exact congrArg Node.kind (Option.some.inj same).symm

theorem edges_place {store : Store} (once : (store.edges.map (·.id)).Nodup) (edge : Edge)
    (literal : Option Float) :
    (store.place edge literal).edges =
      (store.edges.filter fun other => !other.yieldsTo edge) ++ [edge] := by
  change (((store.detachAll (store.edges.filter (·.yieldsTo edge))).bindHandle edge
    literal).reset edge.target).edges ++ [edge] = _
  rw [edges_reset, edges_bindHandle, edges_detachAll_filter once]

@[simp] theorem outline_place (store : Store) (edge : Edge) (literal : Option Float) :
    (store.place edge literal).outline = store.outline := by
  have thins := ((thins_detachAll store (store.edges.filter (·.yieldsTo edge))).trans
    (thins_bindHandle _ edge literal)).trans (thins_reset _ edge.target)
  exact thins.outline

/-- An allowed edge can be put in place: those that would clash have made room. -/
theorem place_wellFormed {store : Store} (sound : store.WellFormed) {edge : Edge}
    (carries : store.Carries edge) (handled : edge.targetHandle.isSome = true)
    (literal : Option Float) : (store.place edge literal).WellFormed := by
  have edges := edges_place sound.edges_once edge literal
  have kinds : ∀ id, (store.place edge literal).kind? id = store.kind? id := by
    intro id
    rw [Graph.kind?_eq_lookup, Graph.kind?_eq_lookup, outline_place]
  have room : (store.edges.filter fun other => !other.yieldsTo edge).Sublist store.edges :=
    List.filter_sublist
  have clear : ∀ other ∈ store.edges.filter fun other => !other.yieldsTo edge,
      other.id ≠ edge.id ∧
        (other.target, other.targetHandle) ≠ (edge.target, edge.targetHandle) := by
    intro other member
    have stays := (List.mem_filter.mp member).2
    simpa [Edge.yieldsTo, Edge.occupies, imp_iff_not_or] using stays
  constructor
  · rw [Graph.ids_eq_outline, outline_place, ← Graph.ids_eq_outline]
    exact sound.nodes_once
  · rw [edges, List.map_append, List.nodup_append]
    refine ⟨sound.edges_once.sublist (room.map _), by simp, ?_⟩
    rintro id member _ last rfl
    obtain ⟨other, kept, same⟩ := List.mem_map.mp member
    exact (clear other kept).1 (same.trans (by simpa using last))
  · rw [edges]
    intro other member
    rcases List.mem_append.mp member with kept | last
    · exact (sound.carried other (room.subset kept)).congr (kinds _) (kinds _)
    · rw [List.mem_singleton.mp last]
      exact carries.congr (kinds _) (kinds _)
  · rw [edges]
    intro other member
    rcases List.mem_append.mp member with kept | last
    · exact sound.handled other (room.subset kept)
    · rw [List.mem_singleton.mp last]
      exact handled
  · rw [edges, List.map_append, List.nodup_append]
    refine ⟨sound.unshared.sublist (room.map _), by simp, ?_⟩
    rintro port member _ last rfl
    obtain ⟨other, kept, same⟩ := List.mem_map.mp member
    exact (clear other kept).2 (same.trans (by simpa using last))

@[simp]
theorem accepts_withHandle (target source : NodeKind) (sourceHandle targetHandle : Option String) :
    target.accepts source sourceHandle (targetHandle <|> target.defaultHandle) =
      target.accepts source sourceHandle targetHandle := by
  cases targetHandle <;> cases target <;> rfl

theorem handled_of_accepts {target source : NodeKind} {sourceHandle targetHandle : Option String}
    (accepts : target.accepts source sourceHandle targetHandle = true) :
    (targetHandle <|> target.defaultHandle).isSome = true := by
  cases targetHandle with
  | some handle => rfl
  | none => cases target <;> simp [NodeKind.accepts, NodeKind.defaultHandle] at accepts ⊢

/-- What drawing an edge does, by what it is asked for. -/
theorem connect_wellFormed {store : Store} (sound : store.WellFormed) (connection : Connection)
    (id : Option String) :
    (store.connect connection id).2.WellFormed ∧
      store.KeepsKinds (store.connect connection id).2.toGraph := by
  unfold connect
  split
  · exact ⟨sound, (Thins.refl _).keepsKinds⟩
  · exact ⟨sound, (Thins.refl _).keepsKinds⟩
  · next source target sourced targeted =>
    split
    · next feeds =>
      simp only
      generalize drawn : (connection.withHandle target.kind).toEdge
        (id.getD (connection.withHandle target.kind).edgeId) = edge
      have carries : store.Carries edge := by
        subst drawn
        obtain ⟨apart, accepts⟩ := Bool.and_eq_true_iff.mp feeds
        refine Graph.carries_of_mayFeed sourced targeted (Bool.and_eq_true_iff.mpr ⟨apart, ?_⟩)
        exact (accepts_withHandle _ _ _ _).trans accepts
      have handled : edge.targetHandle.isSome = true := by
        subst drawn
        exact handled_of_accepts (Bool.and_eq_true_iff.mp feeds).2
      refine ⟨place_wellFormed sound carries handled _, ?_⟩
      intro other old new was is
      have same : (store.place edge source.params.literal).kind? other = store.kind? other := by
        rw [Graph.kind?_eq_lookup, Graph.kind?_eq_lookup, outline_place]
      rw [Graph.kind?, Graph.kind?, was, is] at same
      exact Option.some.inj same
    · exact ⟨sound, (Thins.refl _).keepsKinds⟩

@[simp] theorem empty_wellFormed : empty.WellFormed where
  nodes_once := List.nodup_nil
  edges_once := List.nodup_nil
  carried _ member := nomatch member
  handled _ member := nomatch member
  unshared := List.nodup_nil

theorem addNodes_wellFormed {store : Store} (sound : store.WellFormed) (nodes : List Node) :
    (store.addNodes nodes).2.WellFormed := by
  induction nodes generalizing store with
  | nil => exact sound
  | cons node rest ih =>
    have added := (addNode_wellFormed sound node).1
    unfold addNodes
    split
    · next same =>
      rw [same] at added
      exact ih added
    · next same =>
      rw [same] at added
      exact added

theorem addEdges_wellFormed {store : Store} (sound : store.WellFormed) (edges : List Edge) :
    (store.addEdges edges).2.WellFormed := by
  induction edges generalizing store with
  | nil => exact sound
  | cons edge rest ih =>
    have drawn := (connect_wellFormed sound edge.connection (some edge.id)).1
    unfold addEdges
    split
    · next same =>
      rw [same] at drawn
      exact ih drawn
    · next same =>
      rw [same] at drawn
      exact drawn

@[simp] theorem build_wellFormed (graph : Graph) : (build graph).2.WellFormed := by
  have nodes := addNodes_wellFormed empty_wellFormed graph.nodes
  unfold build
  split
  · next same =>
    rw [same] at nodes
    exact addEdges_wellFormed nodes graph.edges
  · next same =>
    rw [same] at nodes
    exact nodes

theorem load_wellFormed {store : Store} (sound : store.WellFormed) (graph : Graph) :
    (store.load graph).2.WellFormed := by
  have built := build_wellFormed graph
  unfold load
  split
  · next same =>
    rw [same] at built
    exact built
  · exact sound

/-- What can be done to a store. Any functions may serve as compilers. -/
inductive Operation where
  | load (graph : Graph)
  | addNode (node : Node)
  | removeNode (id : String)
  | updateNode (id : String) (patch : NodePatch)
  | addEdge (connection : Connection)
  | removeEdge (id : String)
  | addError (id message : String) (clear : Bool)
  | compile (compilers : Compilers) (subset : List String)

/-- The store behind an operation, whether it succeeds or fails. -/
def apply (store : Store) : Operation → Store
  | .load graph => (store.load graph).2
  | .addNode node => (store.addNode node).2
  | .removeNode id => (store.removeNode id).2
  | .updateNode id patch => (store.updateNode id patch).2
  | .addEdge connection => (store.addEdge connection).2
  | .removeEdge id => (store.removeEdge id).2
  | .addError id message clear => (store.addError id message clear).2
  | .compile compilers subset => (store.compile compilers subset).2

/-- The store behind operations that start from the empty store. -/
def run (operations : List Operation) : Store :=
  operations.foldl apply empty

def Operation.replaces : Operation → Bool
  | .load _ => true
  | _ => false

@[simp] theorem removeEdge_thins (store : Store) (id : String) :
    store.Thins (store.removeEdge id).2.toGraph := by
  unfold removeEdge
  split
  · exact thins_detach _ _
  · exact Thins.refl _

theorem apply_wellFormed {store : Store} (sound : store.WellFormed) (operation : Operation) :
    (store.apply operation).WellFormed := by
  cases operation with
  | load graph => exact load_wellFormed sound graph
  | addNode node => exact (addNode_wellFormed sound node).1
  | removeNode id => exact removeNode_wellFormed sound id
  | updateNode id patch => exact (thins_updateNode sound id patch).wellFormed sound
  | addEdge connection => exact (connect_wellFormed sound connection none).1
  | removeEdge id => exact (removeEdge_thins store id).wellFormed sound
  | addError id message clear => exact (thins_addError store id message clear).wellFormed sound
  | compile compilers subset => exact (thins_compile compilers sound subset).wellFormed sound

theorem keepsKinds_apply {store : Store} (sound : store.WellFormed) {operation : Operation}
    (stays : operation.replaces = false) : store.KeepsKinds (store.apply operation).toGraph := by
  cases operation with
  | load graph => cases stays
  | addNode node => exact (addNode_wellFormed sound node).2
  | removeNode id => exact keepsKinds_removeNode store id
  | updateNode id patch => exact (thins_updateNode sound id patch).keepsKinds
  | addEdge connection => exact (connect_wellFormed sound connection none).2
  | removeEdge id => exact (removeEdge_thins store id).keepsKinds
  | addError id message clear => exact (thins_addError store id message clear).keepsKinds
  | compile compilers subset => exact (thins_compile compilers sound subset).keepsKinds

theorem foldl_apply_wellFormed {store : Store} (sound : store.WellFormed)
    (operations : List Operation) : (operations.foldl apply store).WellFormed := by
  induction operations generalizing store with
  | nil => exact sound
  | cons operation rest ih => exact ih (apply_wellFormed sound operation)

/-- Every run ends in a well-formed graph, whose nodes and edges are found under
their ids, and nothing but a load can give another kind to a node that stays. -/
theorem run_wellFormed_keepsKinds (operations : List Operation) :
    (run operations).WellFormed ∧
      (∀ node ∈ (run operations).nodes, (run operations).node? node.id = some node) ∧
      (∀ edge ∈ (run operations).edges, (run operations).edge? edge.id = some edge) ∧
      ∀ operation, operation.replaces = false →
        (run operations).KeepsKinds ((run operations).apply operation).toGraph := by
  have sound := foldl_apply_wellFormed empty_wellFormed operations
  refine ⟨sound, ?_, ?_, ?_⟩
  · intro node member
    exact Graph.node?_of_mem sound.nodes_once member
  · intro edge member
    exact Graph.edge?_of_mem sound.edges_once member
  · intro operation stays
    exact keepsKinds_apply sound stays

end Store

end RecipeGraph
