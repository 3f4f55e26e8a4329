import RecipeGraph.Proofs.Meaning

/-!
# Lineages of layers

Where a chain of dense layers ends in an input layer, fields and edges say what flows
out of each of its nodes. A node has one tensor at most, and what its tensor lists are
the nodes of the chain. Compilers keep counts modulo `2^64`, which makes no difference
in a graph with no larger ones.
-/

namespace RecipeGraph

open Relation (ReflTransGen TransGen)

/-- A count without a bound. -/
def Number.exact (n : Nat) : Nat := n

@[simp]
theorem Number.wrap_of_lt {n : Nat} (small : n < limit) : wrap n = n :=
  Nat.mod_eq_of_lt small

@[simp] theorem Number.limit_pos : 0 < limit := by decide

/-- The fields ask for no count that goes beyond 64 bits, whatever they are put together
with: a product of two lengths of 32 bits stays below. -/
def NodeParams.isShort : NodeParams → Bool
  | .tensor _ shape => decide (shape.prod < Number.limit)
  | .inputLayer features => features.all fun length => decide (length < 2 ^ 32)
  | .denseLayer units _ _ => decide (units < 2 ^ 32)
  | _ => true

namespace Graph

/-- The fields of a node. -/
def params? (graph : Graph) (id : String) : Option NodeParams :=
  (graph.node? id).map Node.params

variable {graph left right : Graph} {id source handle : String}

@[simp]
theorem params?_of_node? {node : Node} (found : graph.node? id = some node) :
    graph.params? id = some node.params := by
  simp [params?, found]

theorem kind?_of_node? {node : Node} (found : graph.node? id = some node) :
    graph.kind? id = some node.kind := by
  simp [kind?, found]

theorem kind?_of_params? {params : NodeParams} (fields : graph.params? id = some params) :
    graph.kind? id = some params.kind := by
  obtain ⟨node, found, rfl⟩ := Option.map_eq_some_iff.mp fields
  simp [kind?, found, Node.kind]

theorem params?_of_blank (same : left.blank = right.blank) : left.params? = right.params? := by
  funext id
  have fresh := congrArg (Option.map Node.params) (node?_of_blank same id)
  rw [Option.map_map, Option.map_map] at fresh
  exact fresh

/-- An edge into a node names its handle, and the kinds of both ends agree to it. -/
theorem accepts_of_edge (sound : graph.WellFormed) {edge : Edge} (drawn : edge ∈ graph.edges) :
    ∃ kind into handle, graph.kind? edge.source = some kind ∧
      graph.kind? edge.target = some into ∧ edge.targetHandle = some handle ∧
      into.accepts kind edge.sourceHandle (some handle) = true := by
  obtain ⟨_, kind, into, sourced, targeted, accepts⟩ := carries_iff.mp (sound.carried edge drawn)
  obtain ⟨handle, named⟩ := Option.isSome_iff_exists.mp (sound.handled edge drawn)
  exact ⟨kind, into, handle, sourced, targeted, named, named ▸ accepts⟩

/-- What is plugged into a handle is of a kind that the handle accepts. -/
theorem accepts_of_plugged (sound : graph.WellFormed)
    (plugged : graph.plugged id handle = some source) :
    ∃ kind into sourceHandle, graph.kind? source = some kind ∧ graph.kind? id = some into ∧
      into.accepts kind sourceHandle (some handle) = true := by
  obtain ⟨edge, drawn, rfl, rfl, port⟩ := exists_edge_of_plugged plugged
  obtain ⟨kind, into, handle', sourced, targeted, named, accepts⟩ := accepts_of_edge sound drawn
  cases port.symm.trans named
  exact ⟨kind, into, _, sourced, targeted, accepts⟩

/-- No edge ends in an input layer. -/
theorem not_feeds_inputLayer (sound : graph.WellFormed)
    (kind : graph.kind? id = some .inputLayer) : ¬ graph.Feeds source id := by
  rintro ⟨edge, drawn, _, rfl⟩
  obtain ⟨_, into, _, _, targeted, _, accepts⟩ := accepts_of_edge sound drawn
  cases targeted.symm.trans kind
  cases accepts

/-- A dense layer is fed by what is plugged into its only handle. -/
theorem eq_of_feeds_denseLayer (sound : graph.WellFormed)
    (kind : graph.kind? id = some .denseLayer)
    (plugged : graph.plugged id Handle.input = some source) {other : String}
    (feeds : graph.Feeds other id) : other = source := by
  obtain ⟨edge, drawn, rfl, into, port⟩ := exists_edge_of_plugged plugged
  obtain ⟨edge', drawn', rfl, into'⟩ := feeds
  have port' : edge'.targetHandle = some Handle.input := by
    obtain ⟨_, kind', handle, _, targeted, named, accepts⟩ := accepts_of_edge sound drawn'
    rw [into', kind] at targeted
    cases targeted
    simp only [NodeKind.accepts, Bool.and_eq_true, decide_eq_true_eq] at accepts
    exact named.trans accepts.1
  have same : edge' = edge := by
    apply List.inj_on_of_nodup_map sound.unshared drawn' drawn
    rw [into, into', port, port']
  rw [same]

@[simp] theorem inbound_eq_nil : graph.inbound id = [] ↔ ∀ source, ¬ graph.Feeds source id := by
  simp only [inbound, List.filter_eq_nil_iff, decide_eq_true_eq, Feeds, Linked, not_exists, not_and]
  exact ⟨fun bare _ edge drawn _ => bare edge drawn,
    fun unfed edge drawn => unfed edge.source edge drawn rfl⟩

/-- The graphs build the same at one node: the same edges lead into it, it is of one kind,
and its fields are equal, unless it produces numbers. -/
structure AlikeAt (left right : Graph) (id : String) : Prop where
  ends : left.ends id = right.ends id
  kind : left.kind? id = right.kind? id
  fields : ∀ params, left.params? id = some params → params.kind.producesValue = false →
    ∃ other, right.params? id = some other ∧ (params = other ∨ (params == other) = true)

/-- The graphs build the same at every node from which this one can be reached. -/
def AlikeUpstream (left right : Graph) (id : String) : Prop :=
  ∀ member, ReflTransGen left.Feeds member id → left.AlikeAt right member

theorem AlikeAt.plugged (alike : left.AlikeAt right id) (handle : String) :
    left.plugged id handle = right.plugged id handle := by
  rw [plugged_eq_find, plugged_eq_find, alike.ends]

theorem AlikeAt.inputLayer (alike : left.AlikeAt right id) {features : List Nat}
    (fields : left.params? id = some (.inputLayer features)) :
    right.params? id = some (.inputLayer features) := by
  obtain ⟨other, there, rfl | equal⟩ := alike.fields _ fields rfl
  · exact there
  · cases NodeParams.beq_iff.mp equal
    exact there

theorem AlikeAt.denseLayer (alike : left.AlikeAt right id) {units : Nat} {activation : Activation}
    {declared : Option (List Nat)}
    (fields : left.params? id = some (.denseLayer units activation declared)) :
    right.params? id = some (.denseLayer units activation declared) := by
  obtain ⟨other, there, rfl | equal⟩ := alike.fields _ fields rfl
  · exact there
  · cases NodeParams.beq_iff.mp equal
    exact there

theorem AlikeAt.trainModel (alike : left.AlikeAt right id) {epochs batchSize : Nat}
    (fields : left.params? id = some (.trainModel epochs batchSize)) :
    right.params? id = some (.trainModel epochs batchSize) := by
  obtain ⟨other, there, rfl | equal⟩ := alike.fields _ fields rfl
  · exact there
  · cases NodeParams.beq_iff.mp equal
    exact there

theorem AlikeAt.of_params (ends : left.ends id = right.ends id)
    (kind : left.kind? id = right.kind? id)
    (fields : ∀ node, right.node? id = some node → node.kind.producesValue = false →
      left.params? id = some node.params) : left.AlikeAt right id where
  ends := ends
  kind := kind
  fields params known numberless := by
    have there := kind.symm.trans (kind?_of_params? known)
    obtain ⟨node, found, same⟩ := Option.map_eq_some_iff.mp there
    rw [fields node found (same ▸ numberless), Option.some.injEq] at known
    exact ⟨params, known ▸ params?_of_node? found, .inl rfl⟩

theorem alikeAt_of_blank (same : left.blank = right.blank) (id : String) :
    left.AlikeAt right id where
  ends := ends_of_edges (edges_of_blank same) id
  kind := (thins_of_blank same).kind? id
  fields _ known _ := ⟨_, params?_of_blank same ▸ known, .inl rfl⟩

theorem SameAt.alikeAt (same : left.SameAt right id) : left.AlikeAt right id := by
  obtain ⟨a, b, here, there, equal⟩ := same.params
  refine ⟨same.ends, ?_, fun params known numberless => ?_⟩
  · rw [kind?_of_node? here, kind?_of_node? there]
    exact congrArg some (NodeParams.beq_of_unfed equal).1
  · rw [params?_of_node? here, Option.some.injEq] at known
    subst known
    exact ⟨b.params, params?_of_node? there, .inr ((NodeParams.beq_of_unfed equal).2 numberless)⟩

theorem AlikeUpstream.upstream (alike : left.AlikeUpstream right id) {member : String}
    (reaches : ReflTransGen left.Feeds member id) : left.AlikeUpstream right member :=
  fun ancestor leads => alike ancestor (leads.trans reaches)

/-- The tensor that flows out of a node, by the fields and edges of the graph. Numbers of
parameters are kept in a way of their own, exactly or modulo some bound. -/
inductive Flows (graph : Graph) (keep : Nat → Nat) : String → SymbolicTensor → Prop
  | input {id : String} {features : List Nat}
      (fields : graph.params? id = some (.inputLayer features)) (nonempty : features ≠ [])
      (positive : ∀ length ∈ features, 0 < length) :
      Flows graph keep id ⟨Shape.batched features, [⟨id, .input, Shape.batched features, 0⟩]⟩
  | dense {id source : String} {units : Nat} {activation : Activation}
      {declared : Option (List Nat)} {tensor : SymbolicTensor} {front : Shape} {width : Nat}
      (fields : graph.params? id = some (.denseLayer units activation declared))
      (plugged : graph.plugged id Handle.input = some source)
      (earlier : Flows graph keep source tensor) (shape : tensor.shape = front ++ [.fixed width])
      (sized : 0 < units)
      (agreed : ∀ expected, declared.bind (·.getLast?) = some expected → expected = width) :
      Flows graph keep id ⟨front ++ [.fixed units], tensor.layers ++
        [⟨id, .dense units activation, front ++ [.fixed units],
          keep (keep (width * units) + units)⟩]⟩

/-- The nodes that lead to a node over edges into `in`, from an input layer on. -/
inductive Lineage (graph : Graph) : List String → String → Prop
  | start {id : String} (kind : graph.kind? id = some .inputLayer) : Lineage graph [id] id
  | next {ids : List String} {source id : String} (earlier : Lineage graph ids source)
      (kind : graph.kind? id = some .denseLayer)
      (plugged : graph.plugged id Handle.input = some source) : Lineage graph (ids ++ [id]) id

/-- The layer is what an input layer of the graph builds. -/
def Opens (graph : Graph) (layer : LayerSpec) : Prop :=
  layer.kind = .input ∧ layer.params = 0 ∧
    ∃ features, graph.params? layer.name = some (.inputLayer features) ∧
      layer.outputShape = .batch :: features.map .fixed ∧
      features ≠ [] ∧ ∀ length ∈ features, 0 < length

/-- The second layer is what a dense layer of the graph builds on the first: the last
axis is replaced, and there are a weight for each incoming feature and a bias per unit. -/
def Extends (graph : Graph) (previous layer : LayerSpec) : Prop :=
  ∃ units activation declared front width,
    graph.params? layer.name = some (.denseLayer units activation declared) ∧
    layer.kind = .dense units activation ∧
    previous.outputShape = front ++ [.fixed width] ∧
    layer.outputShape = front ++ [.fixed units] ∧
    layer.params = width * units + units

/-- The tensor lists the chain that ends in the node, layer by layer. -/
structure Describes (graph : Graph) (id : String) (tensor : SymbolicTensor) : Prop where
  lineage : graph.Lineage (tensor.layers.map (·.name)) id
  opens : ∃ first, tensor.layers.head? = some first ∧ graph.Opens first
  built : tensor.layers.IsChain graph.Extends
  shape : ∃ last, tensor.layers.getLast? = some last ∧ tensor.shape = last.outputShape

/-- No count that the graph asks for goes beyond 64 bits: neither the number of places in the
shape of a tensor nor the number of parameters of a layer. -/
structure Roomy (graph : Graph) : Prop where
  places : ∀ id values shape, graph.params? id = some (.tensor values shape) →
    shape.prod < Number.limit
  params : ∀ id tensor, graph.Flows Number.exact id tensor → ∀ layer ∈ tensor.layers,
    layer.params < Number.limit

theorem isShort_of_params? (short : ∀ node ∈ graph.nodes, node.params.isShort = true)
    {params : NodeParams} (fields : graph.params? id = some params) : params.isShort = true := by
  obtain ⟨node, found, rfl⟩ := Option.map_eq_some_iff.mp fields
  exact short node (mem_of_node? found)

namespace Flows

variable {keep : Nat → Nat} {tensor other : SymbolicTensor}

theorem describes (flows : graph.Flows Number.exact id tensor) : graph.Describes id tensor := by
  induction flows with
  | input fields nonempty positive =>
    exact {
      lineage := .start (kind?_of_params? fields)
      opens := ⟨_, rfl, rfl, rfl, _, fields, rfl, nonempty, positive⟩
      built := List.isChain_singleton _
      shape := ⟨_, rfl, rfl⟩ }
  | @dense id source units activation declared tensor front width fields plugged _ shape _ _ ih =>
    obtain ⟨first, head, opens⟩ := ih.opens
    obtain ⟨last, latest, given⟩ := ih.shape
    have further : graph.Extends last
        ⟨id, .dense units activation, front ++ [.fixed units], width * units + units⟩ :=
      ⟨units, activation, declared, front, width, fields, rfl, given ▸ shape, rfl, rfl⟩
    refine ⟨?_, ⟨first, ?_, opens⟩, ?_, ⟨_, List.getLast?_concat, rfl⟩⟩
    · rw [List.map_append]
      exact ih.lineage.next (kind?_of_params? fields) plugged
    · rw [List.head?_append, head]
      rfl
    · refine List.isChain_append.mpr ⟨ih.built, List.isChain_singleton _, ?_⟩
      intro previous listed layer here
      cases latest.symm.trans listed
      cases here
      exact further

/-- What flows out of a node has at most one reading. -/
theorem unique (flows : graph.Flows keep id tensor) (flows' : graph.Flows keep id other) :
    other = tensor := by
  induction flows generalizing other with
  | input fields =>
    cases flows' with
    | input fields' =>
      cases fields.symm.trans fields'
      rfl
    | dense fields' => cases fields.symm.trans fields'
  | dense fields plugged _ shape _ _ ih =>
    cases flows' with
    | input fields' => cases fields.symm.trans fields'
    | dense fields' plugged' earlier' shape' =>
      cases fields.symm.trans fields'
      cases plugged.symm.trans plugged'
      cases ih earlier'
      obtain ⟨rfl, last⟩ := List.append_inj' (shape.symm.trans shape') rfl
      cases last
      rfl

/-- Graphs that build the same let the same flow. -/
theorem congr (alike : left.AlikeUpstream right id) (flows : left.Flows keep id tensor) :
    right.Flows keep id tensor := by
  induction flows with
  | input fields nonempty positive =>
    exact .input ((alike _ .refl).inputLayer fields) nonempty positive
  | dense fields plugged _ shape sized agreed ih =>
    have here := alike _ .refl
    have earlier := ih (alike.upstream (.single (feeds_of_plugged plugged)))
    exact .dense (here.denseLayer fields) (here.plugged _ ▸ plugged) earlier shape sized agreed

/-- Where no count goes beyond 64 bits, what flows is the same without a bound. -/
theorem exact (roomy : graph.Roomy) (flows : graph.Flows Number.wrap id tensor) :
    graph.Flows Number.exact id tensor := by
  induction flows with
  | input fields nonempty positive => exact .input fields nonempty positive
  | @dense id _ units _ _ _ _ width fields plugged _ shape sized agreed ih =>
    have flows := Flows.dense fields plugged ih shape sized agreed
    have small : width * units + units < Number.limit :=
      roomy.params id _ flows _ (List.mem_append_right _ List.mem_cons_self)
    rw [Number.wrap_of_lt (Nat.lt_of_le_of_lt (Nat.le_add_right _ _) small),
      Number.wrap_of_lt small]
    exact flows

/-- The last axis of what flows is a fixed one. -/
theorem exists_width (flows : graph.Flows keep id tensor) :
    ∃ front width, tensor.shape = front ++ [.fixed width] := by
  cases flows with
  | @input _ features _ nonempty _ =>
    obtain ⟨front, width, rfl⟩ := List.eq_nil_or_concat features |>.resolve_left nonempty
    exact ⟨.batch :: front.map .fixed, width, by simp [Shape.batched]⟩
  | dense => exact ⟨_, _, rfl⟩

theorem layers_ne_nil (flows : graph.Flows keep id tensor) : tensor.layers ≠ [] := by
  cases flows with
  | input => exact List.cons_ne_nil _ _
  | dense => exact List.append_ne_nil_of_right_ne_nil _ (List.cons_ne_nil _ _)

/-- The first layer that is listed leads to the node. -/
theorem reaches_root (flows : graph.Flows keep id tensor) {root : String}
    (head : tensor.root = some root) : ReflTransGen graph.Feeds root id := by
  induction flows with
  | input =>
    cases head
    exact .refl
  | dense _ plugged earlier _ _ _ ih =>
    simp only [SymbolicTensor.root, List.head?_append_of_ne_nil _ earlier.layers_ne_nil] at head ih
    exact (ih head).tail (feeds_of_plugged plugged)

/-- A tensor out of an input layer consists of that layer. -/
theorem isInput (flows : graph.Flows keep id tensor) (kind : graph.kind? id = some .inputLayer) :
    tensor.isInput = true ∧ tensor.name = id := by
  cases flows with
  | input => exact ⟨rfl, rfl⟩
  | dense fields => cases (kind?_of_params? fields).symm.trans kind

/-- Short axes make few parameters. -/
theorem short (short : ∀ node ∈ graph.nodes, node.params.isShort = true)
    (flows : graph.Flows Number.exact id tensor) :
    (∀ length, .fixed length ∈ tensor.shape → length < 2 ^ 32) ∧
      ∀ layer ∈ tensor.layers, layer.params < Number.limit := by
  induction flows with
  | @input id features fields =>
    have lengths := isShort_of_params? short fields
    simp only [NodeParams.isShort, List.all_eq_true, decide_eq_true_eq] at lengths
    constructor
    · intro length listed
      simp only [Shape.batched, List.mem_cons, reduceCtorEq, List.mem_map, false_or] at listed
      obtain ⟨_, member, same⟩ := listed
      cases same
      exact lengths _ member
    · intro layer listed
      cases List.mem_singleton.mp listed
      exact Number.limit_pos
  | @dense id _ units _ _ tensor front width fields _ _ shape _ _ ih =>
    obtain ⟨axes, layers⟩ := ih
    have few : units < 2 ^ 32 := by
      simpa [NodeParams.isShort] using isShort_of_params? short fields
    have narrow : width < 2 ^ 32 := axes width (by simp [shape])
    constructor
    · intro length listed
      rcases List.mem_append.mp listed with earlier | last
      · exact axes length (by simp [shape, earlier])
      · cases List.mem_singleton.mp last
        exact few
    · intro layer listed
      rcases List.mem_append.mp listed with earlier | last
      · exact layers layer earlier
      · cases List.mem_singleton.mp last
        have product : width * units ≤ (2 ^ 32 - 1) * (2 ^ 32 - 1) :=
          Nat.mul_le_mul (Nat.le_sub_one_of_lt narrow) (Nat.le_sub_one_of_lt few)
        change width * units + units < 2 ^ 64
        omega

/-- The only node behind a layer that no edge ends in is an input layer, the first of
those it lists. -/
theorem exists_root (sound : graph.WellFormed) (flows : graph.Flows keep id tensor) :
    ∃ root input, tensor.root = some root ∧ graph.kind? root = some .inputLayer ∧
      graph.Flows keep root input ∧
      ∀ member, ReflTransGen graph.Feeds member id ∧ graph.inbound member = [] ↔ member = root := by
  induction flows with
  | @input id features fields nonempty positive =>
    have kind := kind?_of_params? fields
    have bare : graph.inbound id = [] :=
      inbound_eq_nil.mpr fun _ => not_feeds_inputLayer sound kind
    refine ⟨id, _, rfl, kind, .input fields nonempty positive, fun member => ⟨?_, ?_⟩⟩
    · rintro ⟨reaches, _⟩
      rcases Relation.ReflTransGen.cases_tail reaches with same | ⟨_, _, feeds⟩
      · exact same.symm
      · exact (not_feeds_inputLayer sound kind feeds).elim
    · rintro rfl
      exact ⟨.refl, bare⟩
  | @dense id source _ _ _ tensor _ _ fields plugged earlier _ _ _ ih =>
    obtain ⟨root, input, head, kind, flows, only⟩ := ih
    have feeds := feeds_of_plugged plugged
    refine ⟨root, input, ?_, kind, flows, fun member => ?_⟩
    · simp only [SymbolicTensor.root, List.head?_append_of_ne_nil _ earlier.layers_ne_nil] at head ⊢
      exact head
    · rw [← only member]
      constructor
      · rintro ⟨reaches, bare⟩
        refine ⟨?_, bare⟩
        rcases Relation.ReflTransGen.cases_tail reaches with rfl | ⟨last, reaches, feeds'⟩
        · exact (inbound_eq_nil.mp bare source feeds).elim
        · cases eq_of_feeds_denseLayer sound (kind?_of_params? fields) plugged feeds'
          exact reaches
      · rintro ⟨reaches, bare⟩
        exact ⟨reaches.tail feeds, bare⟩

end Flows

/-- There is room where every node asks for short axes. -/
theorem roomy_of_short (short : ∀ node ∈ graph.nodes, node.params.isShort = true) :
    graph.Roomy where
  places id values shape fields := by
    simpa [NodeParams.isShort] using isShort_of_params? short fields
  params _ _ flows := (flows.short short).2

/-- The walk behind a node finds the one node that no edge ends in. -/
@[simp] theorem origins_eq_singleton {root : String}
    (only : ∀ member, ReflTransGen graph.Feeds member id ∧ graph.inbound member = [] ↔
      member = root) : graph.origins [id] [id] = [root] := by
  rw [origins_eq_filter]
  have once := (nodup_ancestry graph id).filter fun id => (graph.inbound id).isEmpty
  apply List.perm_singleton.mp
  apply (List.perm_ext_iff_of_nodup once (List.nodup_singleton root)).mpr
  intro member
  simp only [List.mem_filter, mem_ancestry, List.isEmpty_iff, List.mem_singleton]
  exact only member

end Graph

end RecipeGraph
