import RecipeGraph.Proofs.Documents
import RecipeGraph.Proofs.Verdicts

/-!
# Fields that are overruled

A field that remembers a literal counts for nothing while anything is plugged into its
handle. Only numbers can be plugged in, and a run comes to them first, so that a product
always finds them compiled and never looks at the field. Two graphs that differ in such
fields only are therefore compiled alike, step by step.
-/

namespace RecipeGraph

open Relation (TransGen)

/-- The node without the fields of handles in use. -/
def Node.unfed (graph : Graph) (node : Node) : Node :=
  { node with params := node.params.unfed (graph.fed node.id) }

/-- Only products have fields that may be overruled. -/
theorem NodeParams.eq_of_unfed {params other : NodeParams} {fed : String → Bool}
    (same : other.unfed fed = params.unfed fed) (single : params.kind ≠ .multiply) :
    other = params := by
  cases params with
  | multiply a b => exact absurd rfl single
  | _ => cases other <;> first | exact same | cases same

namespace Graph

/-- The graph without the fields of handles in use. -/
def unfed (graph : Graph) : Graph :=
  { graph with nodes := graph.nodes.map (Node.unfed graph) }

variable {left right graph : Graph} {id : String}

@[simp] theorem outline_unfed (graph : Graph) : graph.unfed.outline = graph.outline := by
  simp [outline, unfed, Node.unfed, Node.kind, Function.comp_def]

@[simp] theorem node?_unfed (graph : Graph) (id : String) :
    graph.unfed.node? id = (graph.node? id).map (Node.unfed graph) := by
  unfold node? unfed
  rw [List.find?_map]
  rfl

theorem edges_of_unfed (same : left.unfed = right.unfed) : left.edges = right.edges := by
  have equal := congrArg Graph.edges same
  exact equal

theorem fed_of_unfed (same : left.unfed = right.unfed) : left.fed = right.fed := by
  funext id handle
  exact congrArg Option.isSome (plugged_of_edges (edges_of_unfed same) id handle)

theorem thins_of_unfed (same : left.unfed = right.unfed) : left.Thins right := by
  refine ⟨?_, by rw [edges_of_unfed same]⟩
  rw [← outline_unfed left, same, outline_unfed]

/-- Every node is in both graphs, and only its fields may differ, in what is overruled. -/
theorem exists_of_unfed (same : left.unfed = right.unfed) {node : Node}
    (found : left.node? id = some node) :
    ∃ other, right.node? id = some other ∧ other.id = node.id ∧ other.data = node.data ∧
      other.params.unfed (left.fed id) = node.params.unfed (left.fed id) := by
  have equal := congrArg (fun graph : Graph => graph.node? id) same
  simp only [node?_unfed, found, Option.map_some] at equal
  obtain ⟨other, there, alike⟩ := Option.map_eq_some_iff.mp equal.symm
  have named := congrArg Node.id alike
  have data := congrArg Node.data alike
  have params := congrArg Node.params alike
  simp only [Node.unfed, id_of_node? found, id_of_node? there, ← fed_of_unfed same]
    at named data params
  exact ⟨other, there, (id_of_node? there).trans (id_of_node? found).symm, data, params⟩

theorem data?_of_unfed (same : left.unfed = right.unfed) (id : String) :
    (left.node? id).map Node.data = (right.node? id).map Node.data := by
  have kept : ∀ graph : Graph, Node.data ∘ Node.unfed graph = Node.data := fun _ => rfl
  have equal := congrArg (fun graph : Graph => (graph.node? id).map Node.data) same
  simpa only [node?_unfed, Option.map_map, kept] using equal

theorem shares_of_unfed (same : left.unfed = right.unfed) (known : left.contains id = true) :
    left.Shares right id := by
  obtain ⟨node, found⟩ := contains_iff.mp known
  obtain ⟨other, there, _, data, _⟩ := exists_of_unfed same found
  exact ⟨node, other, found, there, by rw [data]⟩

/-- What is plugged into a product holds a number. -/
def Counts (graph : Graph) (id : String) : Prop :=
  graph.kind? id = some .multiply → ∀ source, graph.Feeds source id →
    ∃ node x, graph.node? source = some node ∧ node.data.output = some (.scalar x)

end Graph

namespace Node

variable {left right : Graph} {id : String} {node other : Node}

/-- An operand is the number that arrives, and the field counts only where nothing does. -/
theorem operand_of_unfed {handle : String} (edges : left.edges = right.edges)
    (shared : ∀ member, TransGen left.Feeds member id → left.Shares right member)
    (counts : ∀ source, left.Feeds source id →
      ∃ node x, left.node? source = some node ∧ node.data.output = some (.scalar x))
    (here : node.id = id) (there : other.id = id) {held held' : Option Float}
    (free : left.fed id handle = false → held' = held) :
    node.operand left handle held = other.operand right handle held' := by
  unfold operand
  rw [here, there, ← inputOutput?_shared edges shared]
  cases plugged : left.plugged id handle with
  | none => rw [free (by rw [Graph.fed, plugged]; rfl)]
  | some source =>
    obtain ⟨twin, x, found, output⟩ := counts source (Graph.feeds_of_plugged plugged)
    have arrives : left.inputOutput? id handle = some (.scalar x) := by
      unfold Graph.inputOutput?
      rw [Graph.inputNode?_eq_bind, plugged, Option.bind_some, found]
      exact output
    rw [arrives]

theorem compileMultiply_of_unfed (edges : left.edges = right.edges)
    (shared : ∀ member, TransGen left.Feeds member id → left.Shares right member)
    (counts : ∀ source, left.Feeds source id →
      ∃ node x, left.node? source = some node ∧ node.data.output = some (.scalar x))
    (here : node.id = id) (there : other.id = id) (product : node.kind = .multiply)
    (params : other.params.unfed (left.fed id) = node.params.unfed (left.fed id)) :
    node.compileMultiply left = other.compileMultiply right := by
  cases fields : node.params with
  | multiply a b =>
    cases fields' : other.params with
    | multiply a' b' =>
      rw [fields, fields'] at params
      obtain ⟨first, second⟩ := NodeParams.multiply.inj params
      have operand : node.operand left Handle.a a = other.operand right Handle.a a' :=
        operand_of_unfed edges shared counts here there fun free => by simpa [free] using first
      have operand' : node.operand left Handle.b b = other.operand right Handle.b b' :=
        operand_of_unfed edges shared counts here there fun free => by simpa [free] using second
      simp only [compileMultiply, fields, fields', operand, operand']
    | _ =>
      rw [fields, fields'] at params
      cases params
  | _ =>
    rw [Node.kind, fields] at product
    cases product

/-- Where numbers are plugged into products, overruled fields make no difference to a compiler. -/
theorem compileAs_of_unfed (sound : left.WellFormed) (same : left.unfed = right.unfed)
    (counts : left.Counts id) (found : left.node? id = some node)
    (found' : right.node? id = some other) :
    other.kind = node.kind ∧
      node.compileAs node.kind left = other.compileAs other.kind right := by
  have edges := Graph.edges_of_unfed same
  obtain ⟨twin, there, named, _, params⟩ := Graph.exists_of_unfed same found
  cases found'.symm.trans there
  have kind : other.kind = node.kind := by
    have kinds := congrArg NodeParams.kind params
    rwa [NodeParams.kind_unfed, NodeParams.kind_unfed] at kinds
  have shared : ∀ member, TransGen left.Feeds member id → left.Shares right member := by
    intro member leads
    have known := Graph.contains_iff.mpr ⟨node, found⟩
    exact Graph.shares_of_unfed same
      (Graph.contains_of_reaches sound known leads.to_reflTransGen)
  refine ⟨kind, ?_⟩
  rw [kind]
  -- The fields of other nodes are the same, and their compilers look at the same upstream.
  by_cases product : node.kind = .multiply
  · rw [product]
    have multiplies : left.kind? id = some .multiply := by
      rw [Graph.kind?, found, ← product]
      rfl
    exact compileMultiply_of_unfed edges shared (counts multiplies) (Graph.id_of_node? found)
      (Graph.id_of_node? there) product params
  · exact compileAs_congr edges shared found there (NodeParams.eq_of_unfed params product) _

end Node

namespace Store

open RecipeGraph.Graph (Ordered)

variable {left right store other final : Store} {graph : Graph} {passed later rest : List String}
  {id : String}

/-- Changes that have nothing to do with fields keep graphs apart in overruled fields only. -/
theorem unfed_modifyNode (same : store.unfed = other.unfed) (id : String) {change : Node → Node}
    (apart : ∀ graph node, (change node).unfed graph = change (node.unfed graph)) :
    (store.modifyNode id change).unfed = (other.modifyNode id change).unfed := by
  have moved : ∀ store : Store, (store.modifyNode id change).unfed.nodes =
      store.unfed.nodes.map fun node => if node.id = id then change node else node := by
    intro store
    change (store.nodes.map _).map (Node.unfed store.toGraph) =
      (store.nodes.map (Node.unfed store.toGraph)).map _
    rw [List.map_map, List.map_map]
    refine List.map_congr_left fun node _ => ?_
    change Node.unfed store.toGraph (if node.id = id then change node else node) =
      if node.id = id then change (node.unfed store.toGraph) else node.unfed store.toGraph
    split
    · exact apart _ node
    · rfl
  have nodes : (store.modifyNode id change).unfed.nodes =
      (other.modifyNode id change).unfed.nodes := by
    rw [moved, moved, same]
  have edges : store.edges = other.edges := Graph.edges_of_unfed same
  exact (Graph.mk.injEq ..).mpr ⟨nodes, edges⟩

theorem unfed_settle (same : store.unfed = other.unfed) (id : String) (artifact : Artifact) :
    (store.settle id artifact).unfed = (other.settle id artifact).unfed :=
  @unfed_modifyNode store other same id (Node.settled artifact) fun _ _ => rfl

theorem unfed_reject (same : store.unfed = other.unfed) (id : String) (fault : CompileFault) :
    (store.reject id fault).unfed = (other.reject id fault).unfed :=
  @unfed_modifyNode store other same id (Node.failed fault) fun _ _ => rfl

/-- Nodes that produce numbers hold one as soon as a run has passed them. -/
def Numbered (passed : List String) (store : Store) : Prop :=
  ∀ member ∈ passed, ∀ node, store.node? member = some node → node.kind.producesValue = true →
    ∃ x, node.data.output = some (.scalar x)

/-- A run comes to products when numbers are plugged into them. -/
theorem Numbered.counts (numbered : Numbered passed store) (sound : graph.WellFormed)
    (blank : store.blank = graph.blank) (ordered : graph.Ordered (passed ++ id :: rest)) :
    store.Counts id := by
  intro product source feeds
  have sound' := (Graph.thins_of_blank blank).wellFormed sound
  obtain ⟨kind, known, produces⟩ := Graph.producesValue_of_feeds sound' product feeds
  obtain ⟨node, found, rfl⟩ := Option.map_eq_some_iff.mp known
  rw [Graph.feeds_of_blank blank] at feeds
  obtain ⟨x, output⟩ :=
    numbered source (ordered.ancestors_before rfl (.single feeds)) node found produces
  exact ⟨node, x, found, output⟩

theorem Numbered.stage (numbered : Numbered passed store) {middle : Store}
    (stage : Stage Registry.standard store id middle) (apart : id ∉ passed) :
    Numbered (passed ++ [id]) middle := by
  intro member listed node found produces
  rcases List.mem_append.mp listed with old | new
  · have differs : member ≠ id := fun same => apart (same ▸ old)
    rw [stage.others differs] at found
    exact numbered member old node found produces
  · rw [List.mem_singleton.mp new] at found
    cases stage with
    | skipped _ unserved => cases unserved
    | @settled node' compiler artifact found' served result =>
      cases served
      rw [node?_settle, if_pos rfl, found'] at found
      cases found
      obtain ⟨x, rfl⟩ := Graph.scalar_of_compileAs produces result
      exact ⟨x, rfl⟩

/-- Two runs that differ in overruled fields go past a node alike. -/
theorem Stage.beside {middle : Store} (stage : Stage Registry.standard store id middle)
    (sound : store.WellFormed) (counts : store.Counts id) (same : store.unfed = other.unfed) :
    ∃ middle', Stage Registry.standard other id middle' ∧ middle.unfed = middle'.unfed := by
  cases stage with
  | skipped _ unserved => cases unserved
  | @settled node compiler artifact found served result =>
    cases served
    obtain ⟨twin, there, _⟩ := Graph.exists_of_unfed same found
    obtain ⟨_, equal⟩ := Node.compileAs_of_unfed sound same counts found there
    exact ⟨_, .settled there rfl (equal.symm.trans result), unfed_settle same id artifact⟩

/-- And they halt alike. -/
theorem Halt.beside {error : GraphError} (halt : Halt Registry.standard store id error final)
    (sound : store.WellFormed) (counts : store.Counts id) (same : store.unfed = other.unfed) :
    ∃ final', Halt Registry.standard other id error final' ∧ final.unfed = final'.unfed := by
  cases halt with
  | missing absent =>
    refine ⟨other, .missing ?_, same⟩
    cases there : other.node? id with
    | none => rfl
    | some node =>
      obtain ⟨twin, found, _⟩ := Graph.exists_of_unfed same.symm there
      cases absent.symm.trans found
  | @failed node compiler fault found served result =>
    cases served
    obtain ⟨twin, there, _⟩ := Graph.exists_of_unfed same found
    obtain ⟨_, equal⟩ := Node.compileAs_of_unfed sound same counts found there
    exact ⟨_, .failed there rfl (equal.symm.trans result), unfed_reject same id fault⟩

/-- The runs stay beside each other. -/
theorem Stages.beside (stages : Stages Registry.standard store later final)
    (sound : graph.WellFormed) (blank : store.blank = graph.blank)
    (ordered : graph.Ordered (passed ++ (later ++ rest))) (numbered : Numbered passed store)
    (same : store.unfed = other.unfed) :
    ∃ final', Stages Registry.standard other later final' ∧ final.unfed = final'.unfed ∧
      Numbered (passed ++ later) final := by
  -- All that a stage reads was passed before it, so that it finds numbers and no field counts.
  induction stages generalizing passed other with
  | nil =>
    rw [List.append_nil]
    exact ⟨other, .nil, same, numbered⟩
  | @cons store middle final first others stage _ ih =>
    have sound' := (Graph.thins_of_blank blank).wellFormed sound
    have counts := numbered.counts sound blank ordered
    obtain ⟨middle', stage', same'⟩ := stage.beside sound' counts same
    have apart : first ∉ passed := fun again =>
      (List.nodup_append.mp ordered.once).2.2 first again first (by simp) rfl
    obtain ⟨final', stages', alike, last⟩ := @ih middle' (passed ++ [first])
      (stage.blank.trans blank) (by simpa using ordered) (numbered.stage stage apart) same'
    exact ⟨final', .cons stage' stages', alike, by simpa using last⟩

/-- From their start on, compiles that differ in overruled fields stay beside each other, and
where they come to a product, numbers are plugged into it. -/
theorem Stages.beside_of_start {count : Nat} {front : List String} {middle : Store}
    (stages : Stages Registry.standard (left.emit (.compileStarted count)) front middle)
    (sound : left.WellFormed) (ordered : left.Ordered (front ++ rest))
    (same : left.unfed = right.unfed) :
    ∃ middle', Stages Registry.standard (right.emit (.compileStarted count)) front middle' ∧
      middle.unfed = middle'.unfed ∧ middle.WellFormed ∧
      ∀ next later, rest = next :: later → middle.Counts next := by
  have begun : Numbered [] (left.emit (.compileStarted count)) := fun _ none => nomatch none
  have alike : (left.emit (.compileStarted count)).unfed =
      (right.emit (.compileStarted count)).unfed := same
  obtain ⟨middle', stages', last, numbered⟩ := stages.beside sound rfl ordered begun alike
  refine ⟨middle', stages', last, (Graph.thins_of_blank stages.blank).wellFormed sound, ?_⟩
  rintro next later rfl
  exact numbered.counts sound stages.blank ordered

/-- Compiling a node with everything it depends on ends alike where only overruled fields differ,
and leaves graphs that differ in these only. -/
theorem compile_beside (sound : left.WellFormed) (same : left.unfed = right.unfed) (id : String) :
    (left.compile Registry.standard (left.ancestry id)).1 =
        (right.compile Registry.standard (right.ancestry id)).1 ∧
      (left.compile Registry.standard (left.ancestry id)).2.unfed =
        (right.compile Registry.standard (right.ancestry id)).2.unfed := by
  have edges := Graph.edges_of_unfed same
  have thins := Graph.thins_of_unfed same
  have sound' := thins.wellFormed sound
  have sorting := Graph.topoSort_of_edges edges id
  rw [← Graph.ancestry_of_edges edges] at sorting ⊢
  cases sorted : left.topoSort (left.ancestry id) with
  | error error =>
    obtain ⟨result, graph⟩ := compile_of_unsorted Registry.standard sorted
    obtain ⟨result', graph'⟩ := compile_of_unsorted Registry.standard (sorting ▸ sorted)
    rw [result, result', graph, graph']
    exact ⟨rfl, same⟩
  | ok order =>
    have ordered := ordered_of_topoSort sorted
    rcases stages_or_halt Registry.standard
        (left.emit (.compileStarted (left.ancestry id).length)) order with
      ⟨final, stages⟩ | ⟨before, next, rest, middle, error, final, rfl, stages, halt⟩
    · rw [← List.append_nil order] at ordered
      obtain ⟨final', stages', alike, _⟩ := stages.beside_of_start sound ordered same
      have served := Registry.standard.compilers.serves_of_thins thins
      rw [compile_of_stages sound sorted stages,
        compile_of_stages sound' (sorting ▸ sorted) stages', served]
      exact ⟨rfl, alike⟩
    · obtain ⟨middle', stages', alike, middle_sound, counts⟩ :=
        stages.beside_of_start sound ordered same
      obtain ⟨final', halt', last⟩ := halt.beside middle_sound (counts next rest rfl) alike
      rw [compile_of_halt sound sorted stages halt,
        compile_of_halt sound' (sorting ▸ sorted) stages' halt']
      exact ⟨rfl, last⟩

/-- What the one compile gives a node the other gives it too. -/
theorem Compiles.beside {member : String} {artifact : Artifact}
    (compiles : left.Compiles Registry.standard (left.ancestry id) member artifact)
    (sound : left.WellFormed) (same : left.unfed = right.unfed) :
    right.Compiles Registry.standard (right.ancestry id) member artifact := by
  obtain ⟨front, back, middle, node, compiler, sorted, stages, found, served, result⟩ := compiles
  cases served
  have edges := Graph.edges_of_unfed same
  have sorting := Graph.topoSort_of_edges edges id
  have ordered := ordered_of_topoSort sorted
  rw [← Graph.ancestry_of_edges edges] at sorting ⊢
  obtain ⟨middle', stages', alike, middle_sound, counts⟩ :=
    stages.beside_of_start sound ordered same
  obtain ⟨twin, there, _⟩ := Graph.exists_of_unfed alike found
  obtain ⟨_, equal⟩ :=
    Node.compileAs_of_unfed middle_sound alike (counts member back rfl) found there
  exact ⟨front, back, middle', twin, _, sorting ▸ sorted, stages', there, rfl,
    equal.symm.trans result⟩

end Store

namespace Session

/-- Compiling a node ends alike in both sessions: with the same result, with the same results on
all nodes that are compiled on the way, and with the same data on all nodes whatsoever. -/
structure CompilesAlike (left right : Session) (id : String) : Prop where
  result : (left.compile Registry.standard id).1 = (right.compile Registry.standard id).1
  outputs : ∀ member artifact,
    left.store.Compiles Registry.standard (left.store.ancestry id) member artifact ↔
      right.store.Compiles Registry.standard (right.store.ancestry id) member artifact
  data : ∀ member, ((left.compile Registry.standard id).2.store.node? member).map Node.data =
    ((right.compile Registry.standard id).2.store.node? member).map Node.data
  stores : (left.compile Registry.standard id).2.store.unfed =
    (right.compile Registry.standard id).2.store.unfed

/-- Fields of products count for nothing in a compile while their handles are in use. -/
theorem overruled_fields_never_count {left right : Session} (sound : left.store.WellFormed)
    (same : left.store.unfed = right.store.unfed) (id : String) : left.CompilesAlike right id := by
  have thins := Graph.thins_of_unfed same
  have sound' := thins.wellFormed sound
  have outputs : ∀ member artifact,
      left.store.Compiles Registry.standard (left.store.ancestry id) member artifact ↔
        right.store.Compiles Registry.standard (right.store.ancestry id) member artifact :=
    fun member artifact =>
      ⟨fun compiles => compiles.beside sound same, fun compiles => compiles.beside sound' same.symm⟩
  cases found : left.store.node? id with
  | none =>
    have missing : right.store.node? id = none := by
      have data := Graph.data?_of_unfed same id
      rw [found] at data
      exact Option.map_eq_none_iff.mp data.symm
    have untouched := compile_of_missing Registry.standard found
    have untouched' := compile_of_missing Registry.standard missing
    refine ⟨?_, outputs, ?_, ?_⟩ <;> rw [untouched, untouched']
    · exact Graph.data?_of_unfed same
    · exact same
  | some node =>
    have known := Graph.contains_iff.mpr ⟨node, found⟩
    have known' : right.store.contains id = true := by rw [thins.contains, known]
    obtain ⟨result, stores⟩ := Store.compile_beside sound same id
    obtain ⟨after, compiled, store, _⟩ := compile_spec Registry.standard sound known
    obtain ⟨after', compiled', store', _⟩ := compile_spec Registry.standard sound' known'
    have last : after.store.unfed = after'.store.unfed := by rw [store, store', stores]
    refine ⟨?_, outputs, ?_, ?_⟩ <;> rw [compiled, compiled']
    · exact result
    · exact Graph.data?_of_unfed last
    · exact last

/-- A product remembers the number that arrives. -/
def informed : Session :=
  Session.empty.run Registry.standard (overruled.take 1)

/-- It has been told another one. -/
def misled : Session :=
  Session.empty.run Registry.standard (overruled.take 2)

/-- What they are without the fields of handles in use. -/
def unminded : Graph where
  nodes := [
    { id := "v", params := .value (some 4.0) },
    { id := "m", params := .multiply none (some 2.0) },
    { id := "n", params := .multiply none (some 1.0) }]
  edges := [⟨"vm", "v", "m", none, some Handle.a⟩, ⟨"mn", "m", "n", none, some Handle.a⟩]

/-- A product that has been told 9 counts with the 4 that arrives. -/
theorem overruled_fields_never_count_misled :
    ((informed.store.node? "m").bind (·.params.bound? Handle.a) == some (some 4.0)) = true ∧
      ((misled.store.node? "m").bind (·.params.bound? Handle.a) == some (some 9.0)) = true ∧
      (((misled.compile Registry.standard "n").2.store.node? "n").bind (·.data.output) ==
        some (.scalar 8.0)) = true ∧
      informed.CompilesAlike misled "n" := by
  refine ⟨by decide +kernel, by decide +kernel, by decide +kernel, ?_⟩
  have reached : Reached Registry.standard Operation.OfDocument informed :=
    Reached.empty.run fun operation member =>
      overruled_ofDocument operation (List.mem_of_mem_take member)
  have same : informed.store.unfed = misled.store.unfed := by
    calc
      informed.store.unfed = unminded := rfl
      _ = misled.store.unfed := rfl
  exact overruled_fields_never_count reached.wellFormed same "n"

end Session

end RecipeGraph
