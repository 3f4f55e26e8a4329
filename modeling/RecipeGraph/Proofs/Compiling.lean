import RecipeGraph.Proofs.Lasting
import RecipeGraph.Proofs.Scheduling
import Mathlib.Data.List.Find

/-!
# How a compile goes

A compile touches nothing but the data of nodes. It goes through its nodes in
order, gives each the result of its compiler, and ends at the first that fails.
-/

namespace RecipeGraph

/-- The node with a compiled result and no errors. -/
def Node.settled (artifact : Artifact) (node : Node) : Node :=
  { node with data := { errors := [], output := some artifact, compiled := true } }

/-- The node with the fault that kept it from being compiled. -/
def Node.failed (fault : CompileFault) (node : Node) : Node :=
  { node with data := { node.data with errors := [fault.message], compiled := false } }

namespace Graph

/-- The graph with nothing left on its nodes. -/
def blank (graph : Graph) : Graph :=
  { graph with nodes := graph.nodes.map Node.fresh }

@[simp] theorem node?_blank (graph : Graph) (id : String) :
    graph.blank.node? id = (graph.node? id).map Node.fresh := by
  unfold node? blank
  rw [List.find?_map]
  rfl

theorem edges_of_blank {left right : Graph} (same : left.blank = right.blank) :
    left.edges = right.edges := by
  have equal := congrArg Graph.edges same
  exact equal

@[simp] theorem outline_blank (graph : Graph) : graph.blank.outline = graph.outline := by
  simp [outline, blank, Function.comp_def, Node.fresh, Node.kind]

theorem outline_of_blank {left right : Graph} (same : left.blank = right.blank) :
    left.outline = right.outline := by
  rw [← outline_blank left, same, outline_blank]

theorem thins_of_blank {left right : Graph} (same : right.blank = left.blank) :
    left.Thins right :=
  ⟨outline_of_blank same, by rw [edges_of_blank same]⟩

end Graph

def Node.noted (fault : CompileFault) (node : Node) : Node :=
  node.addError fault.message true

/-- The node marked as not compiled, whatever else it holds. -/
def Node.lowered (node : Node) : Node :=
  { node with data := { node.data with compiled := false } }

namespace Store

theorem modifyNode_congr {store : Store} {id : String} {left right : Node → Node}
    (same : ∀ node ∈ store.nodes, node.id = id → left node = right node) :
    store.modifyNode id left = store.modifyNode id right := by
  unfold modifyNode
  congr 2
  refine List.map_congr_left fun node member => ?_
  by_cases here : node.id = id
  · rw [if_pos here, if_pos here, same node member here]
  · rw [if_neg here, if_neg here]

/-- Where ids are unique, changing a node to a fixed one is changing that node. -/
theorem modifyNode_const {store : Store} (sound : store.WellFormed) {id : String} {node : Node}
    (found : store.node? id = some node) (change : Node → Node) :
    (store.modifyNode id fun _ => change node) = store.modifyNode id change := by
  refine modifyNode_congr fun other member here => ?_
  have same : other = node := List.inj_on_of_nodup_map sound.nodes_once member
    (Graph.mem_of_node? found) (here.trans (Graph.id_of_node? found).symm)
  rw [same]

theorem node?_modifyNode {store : Store} {id : String} {change : Node → Node}
    (keeps : ∀ node ∈ store.nodes, node.id = id → (change node).id = node.id) (other : String) :
    (store.modifyNode id change).node? other =
      (store.node? other).map fun node => if node.id = id then change node else node := by
  unfold Graph.node? modifyNode
  rw [List.find?_map]
  congr 1
  refine List.find?_congr fun node member => ?_
  by_cases here : node.id = id
  · simp [here, keeps node member here]
  · simp [here]

theorem node?_modifyNode_self {store : Store} {id : String} {change : Node → Node}
    (keeps : ∀ node, (change node).id = node.id) :
    (store.modifyNode id change).node? id = (store.node? id).map change := by
  rw [node?_modifyNode fun node _ _ => keeps node]
  refine Option.map_congr fun node found => ?_
  rw [if_pos (Graph.id_of_node? found)]

theorem node?_modifyNode_of_ne {store : Store} {id other : String} {change : Node → Node}
    (keeps : ∀ node, (change node).id = node.id) (apart : other ≠ id) :
    (store.modifyNode id change).node? other = store.node? other := by
  rw [node?_modifyNode fun node _ _ => keeps node]
  cases found : store.node? other with
  | none => rfl
  | some node => rw [Option.map_some, if_neg (Graph.id_of_node? found ▸ apart)]

theorem node?_modifyNode_ite {store : Store} {id other : String} {change : Node → Node}
    (keeps : ∀ node, (change node).id = node.id) :
    (store.modifyNode id change).node? other =
      if other = id then (store.node? other).map change else store.node? other := by
  split
  · next same =>
    rw [same]
    exact node?_modifyNode_self keeps
  · next apart => exact node?_modifyNode_of_ne keeps apart

theorem modifyNode_modifyNode {store : Store} {id : String} {first second : Node → Node}
    (keeps : ∀ node, (first node).id = node.id) :
    (store.modifyNode id first).modifyNode id second =
      store.modifyNode id fun node => second (first node) := by
  unfold modifyNode
  simp only [List.map_map]
  congr 2
  refine List.map_congr_left fun node _ => ?_
  by_cases here : node.id = id <;> simp [here, keeps]

@[simp] theorem blank_modifyNode {store : Store} {id : String} {change : Node → Node}
    (keeps : ∀ node, (change node).fresh = node.fresh) :
    (store.modifyNode id change).blank = store.blank := by
  unfold Graph.blank modifyNode
  simp only [List.map_map, Graph.mk.injEq, and_true]
  refine List.map_congr_left fun node _ => ?_
  by_cases here : node.id = id <;> simp [here, keeps]

@[simp] theorem blank_addError (store : Store) (id message : String) (clear : Bool) :
    (store.addError id message clear).2.blank = store.blank := by
  unfold addError
  split
  · exact blank_modifyNode fun _ => rfl
  · rfl

/-- The store once a node has its result. -/
def settle (store : Store) (id : String) (artifact : Artifact) : Store :=
  (store.modifyNode id (Node.settled artifact)).emit (.nodeUpdated id)

/-- The store once a node has failed, which is noticed twice. -/
def reject (store : Store) (id : String) (fault : CompileFault) : Store :=
  ((store.modifyNode id (Node.failed fault)).emit (.nodeUpdated id)).emit (.nodeUpdated id)

@[simp] theorem blank_settle (store : Store) (id : String) (artifact : Artifact) :
    (store.settle id artifact).blank = store.blank :=
  blank_modifyNode fun _ => rfl

@[simp] theorem blank_reject (store : Store) (id : String) (fault : CompileFault) :
    (store.reject id fault).blank = store.blank :=
  blank_modifyNode fun _ => rfl

theorem commit_eq {store : Store} (sound : store.WellFormed) {id : String} {node : Node}
    (found : store.node? id = some node) (artifact : Artifact) :
    store.commit id artifact = (.ok (), store.settle id artifact) := by
  have written := modifyNode_const sound found (Node.settled artifact)
  unfold commit updateNode settle
  rw [found, ← written]
  rfl

theorem fail_eq {store : Store} (sound : store.WellFormed) {id : String} {node : Node}
    (found : store.node? id = some node) (fault : CompileFault) :
    store.fail id fault = (.ok (), store.reject id fault) := by
  generalize noted : (store.modifyNode id (Node.noted fault)).emit (.nodeUpdated id) = marked
  have there : marked.node? id = some (node.noted fault) := by
    have moved := @node?_modifyNode_self store id (Node.noted fault) fun _ => rfl
    rw [found] at moved
    rw [← noted]
    exact moved
  have marked_sound : marked.WellFormed := by
    rw [← noted]
    exact (@thins_modifyNode store id (Node.noted fault) fun _ _ _ => ⟨rfl, rfl⟩).wellFormed sound
  have both : (marked.modifyNode id fun _ => (node.noted fault).lowered) =
      (store.modifyNode id (Node.failed fault)).emit (.nodeUpdated id) := by
    have twice := @modifyNode_modifyNode store id (Node.noted fault) Node.lowered fun _ => rfl
    rw [modifyNode_const marked_sound there Node.lowered, ← noted]
    exact congrArg (fun changed => emit changed (.nodeUpdated id)) twice
  have added : store.addError id fault.message true = (.ok (), marked) := by
    rw [addError, if_pos (Graph.contains_iff.mpr ⟨node, found⟩), ← noted]
    rfl
  unfold fail updateNode reject
  rw [added]
  simp only [there, ← both]
  rfl

theorem wellFormed_of_blank {left right : Store} (same : right.blank = left.blank)
    (sound : left.WellFormed) : right.WellFormed :=
  (Graph.thins_of_blank same).wellFormed sound

end Store

/-- Whether there is a compiler for the node of this id. -/
def Compilers.serves (compilers : Compilers) (graph : Graph) (id : String) : Bool :=
  ((graph.kind? id).bind compilers.serving).isSome

theorem Compilers.serves_of_thins {left right : Graph} (compilers : Compilers)
    (thins : left.Thins right) : compilers.serves right = compilers.serves left := by
  funext id
  unfold serves
  rw [thins.kind?]

theorem Compilers.serves_of_blank {left right : Graph} (compilers : Compilers)
    (same : right.blank = left.blank) : compilers.serves right = compilers.serves left :=
  compilers.serves_of_thins (Graph.thins_of_blank same)

/-- Compiling keeps a property of nodes: a node has it behind a fault, and with the result of
its compiler, provided that all nodes of the graph had it. -/
structure Compilers.Uphold (compilers : Compilers) (holds : Node → Prop) : Prop where
  settled : ∀ {graph : Graph} {node : Node} {compiler : Compiler} {artifact : Artifact},
    graph.Every holds → node ∈ graph.nodes → compilers.serving node.kind = some compiler →
    compiler graph node = .ok artifact → holds (node.settled artifact)
  failed : ∀ node fault, holds node → holds (node.failed fault)

namespace Registry

variable {registry : Registry} {kind : NodeKind}

/-- What serves a kind in a registry is one of the built-in compilers. -/
@[simp]
theorem serving_eq_some {compiler : Compiler} :
    registry.compilers.serving kind = some compiler ↔
      ∃ builtin, registry kind = some builtin ∧ Node.compileAs builtin = compiler :=
  Option.map_eq_some_iff

@[simp]
theorem serving_eq_none : registry.compilers.serving kind = none ↔ registry kind = none :=
  Option.map_eq_none_iff

end Registry

namespace Store

/-- A node is passed: it has been compiled, or there is no compiler for it. -/
inductive Stage (compilers : Compilers) (store : Store) (id : String) : Store → Prop
  | settled {node : Node} {compiler : Compiler} {artifact : Artifact}
      (found : store.node? id = some node) (served : compilers.serving node.kind = some compiler)
      (result : compiler store.toGraph node = .ok artifact) :
      Stage compilers store id (store.settle id artifact)
  | skipped {node : Node} (found : store.node? id = some node)
      (unserved : compilers.serving node.kind = none) : Stage compilers store id store

/-- Nodes are passed one after the other. -/
inductive Stages (compilers : Compilers) : Store → List String → Store → Prop
  | nil {store : Store} : Stages compilers store [] store
  | cons {store middle final : Store} {id : String} {rest : List String}
      (first : Stage compilers store id middle) (later : Stages compilers middle rest final) :
      Stages compilers store (id :: rest) final

/-- Why a node cannot be passed, and the store as it is left. -/
inductive Halt (compilers : Compilers) (store : Store) (id : String) : GraphError → Store → Prop
  | missing (absent : store.node? id = none) :
      Halt compilers store id (.nodeNotFound id) store
  | failed {node : Node} {compiler : Compiler} {fault : CompileFault}
      (found : store.node? id = some node) (served : compilers.serving node.kind = some compiler)
      (result : compiler store.toGraph node = .error fault) :
      Halt compilers store id (.compileFailure id fault) (store.reject id fault)

theorem Stage.blank {compilers : Compilers} {store final : Store} {id : String}
    (stage : Stage compilers store id final) : final.blank = store.blank := by
  cases stage with
  | settled => exact blank_settle _ _ _
  | skipped => rfl

theorem Stages.blank {compilers : Compilers} {store final : Store} {ids : List String}
    (stages : Stages compilers store ids final) : final.blank = store.blank := by
  induction stages with
  | nil => rfl
  | cons first _ ih => exact ih.trans first.blank

theorem Halt.blank {compilers : Compilers} {store final : Store} {id : String} {error : GraphError}
    (halt : Halt compilers store id error final) : final.blank = store.blank := by
  cases halt with
  | missing => rfl
  | failed => exact blank_reject _ _ _

/-- A node that is there halts a run with a fault, which is marked on it. -/
theorem Halt.failure {compilers : Compilers} {store final : Store} {id : String}
    {error : GraphError} (halt : Halt compilers store id error final)
    (known : store.contains id = true) : ∃ node fault, store.node? id = some node ∧
      error = .compileFailure id fault ∧ final = store.reject id fault := by
  cases halt with
  | missing absent =>
    rw [Graph.contains, absent] at known
    cases known
  | @failed node _ fault found => exact ⟨node, fault, found, rfl, rfl⟩

@[simp] theorem node?_settle (store : Store) (id other : String) (artifact : Artifact) :
    (store.settle id artifact).node? other =
      if other = id then (store.node? other).map (Node.settled artifact)
      else store.node? other :=
  node?_modifyNode_ite fun _ => rfl

@[simp] theorem node?_reject (store : Store) (id other : String) (fault : CompileFault) :
    (store.reject id fault).node? other =
      if other = id then (store.node? other).map (Node.failed fault) else store.node? other :=
  node?_modifyNode_ite fun _ => rfl

theorem Stage.others {compilers : Compilers} {store final : Store} {id other : String}
    (stage : Stage compilers store id final) (apart : other ≠ id) :
    final.node? other = store.node? other := by
  cases stage with
  | settled => rw [node?_settle, if_neg apart]
  | skipped => rfl

/-- Nodes that a run does not come to stay as they are. -/
theorem Stages.others {compilers : Compilers} {store final : Store} {ids : List String}
    {other : String} (stages : Stages compilers store ids final) (apart : other ∉ ids) :
    final.node? other = store.node? other := by
  induction stages with
  | nil => rfl
  | cons first _ ih =>
    rw [List.mem_cons, not_or] at apart
    rw [ih apart.2, first.others apart.1]

theorem Halt.others {compilers : Compilers} {store final : Store} {id other : String}
    {error : GraphError} (halt : Halt compilers store id error final) (apart : other ≠ id) :
    final.node? other = store.node? other := by
  cases halt with
  | missing => rfl
  | failed => rw [node?_reject, if_neg apart]

/-- With a compiler for every kind all nodes that are passed have a result. -/
theorem Stages.settled {store final : Store} {ids : List String} {id : String}
    (stages : Stages Registry.standard.compilers store ids final) (member : id ∈ ids) :
    ∃ node artifact, final.node? id = some node ∧
      node.data = { errors := [], output := some artifact, compiled := true } := by
  induction stages with
  | nil => cases member
  | @cons store middle final first rest stage later ih =>
    by_cases again : id ∈ rest
    · exact ih again
    · have here : id = first := (List.mem_cons.mp member).resolve_right again
      subst here
      rw [later.others again]
      cases stage with
      | @settled node compiler artifact found _ _ =>
        refine ⟨node.settled artifact, artifact, ?_, rfl⟩
        rw [node?_settle, if_pos rfl, found]
        rfl
      | skipped _ unserved => cases unserved

/-- A run passes all of its nodes, or passes some and halts at the next. -/
theorem stages_or_halt (compilers : Compilers) (store : Store) (ids : List String) :
    (∃ final, Stages compilers store ids final) ∨
    ∃ before id rest middle error final, ids = before ++ id :: rest ∧
      Stages compilers store before middle ∧ Halt compilers middle id error final := by
  induction ids generalizing store with
  | nil => exact .inl ⟨store, .nil⟩
  | cons first rest ih =>
    have further : ∀ {next : Store}, Stage compilers store first next →
        (∃ final, Stages compilers store (first :: rest) final) ∨
        ∃ before id after middle error final, first :: rest = before ++ id :: after ∧
          Stages compilers store before middle ∧ Halt compilers middle id error final := by
      intro next stage
      rcases ih next with
        ⟨final, stages⟩ | ⟨before, id, after, middle, error, final, split, stages, halt⟩
      · exact .inl ⟨final, .cons stage stages⟩
      · refine .inr ⟨first :: before, id, after, middle, error, final, ?_, .cons stage stages, halt⟩
        rw [split, List.cons_append]
    cases found : store.node? first with
    | none => exact .inr ⟨[], first, rest, store, _, store, rfl, .nil, .missing found⟩
    | some node =>
      cases served : compilers.serving node.kind with
      | none => exact further (.skipped found served)
      | some compiler =>
        cases result : compiler store.toGraph node with
        | ok artifact => exact further (.settled found served result)
        | error fault =>
          exact .inr ⟨[], first, rest, store, _, _, rfl, .nil, .failed found served result⟩

theorem serves_of_node? {compilers : Compilers} {graph : Graph} {id : String} {node : Node}
    (found : graph.node? id = some node) :
    compilers.serves graph id = (compilers.serving node.kind).isSome := by
  rw [Compilers.serves, Graph.kind?, found]
  rfl

/-- The run behind nodes that are passed, which are in the report by then. -/
theorem compileEach_of_stages {compilers : Compilers} {store middle : Store} {passed : List String}
    (stages : Stages compilers store passed middle) (sound : store.WellFormed)
    (report : CompileReport) (rest : List String) :
    compileEach compilers store report (passed ++ rest) = compileEach compilers middle {
      report with
      compiled := report.compiled ++ passed.filter (compilers.serves store.toGraph)
      skipped := report.skipped ++ passed.filter fun id => !compilers.serves store.toGraph id }
      rest := by
  induction stages generalizing report with
  | nil => simp
  | @cons store middle final id later stage _ ih =>
    have blank := stage.blank
    cases stage with
    | @settled node compiler artifact found served result =>
      have serves : compilers.serves store.toGraph id = true := by
        rw [serves_of_node? found, served]
        rfl
      have step : compileEach compilers store report (id :: later ++ rest) =
          compileEach compilers (store.settle id artifact)
            { report with compiled := report.compiled ++ [id] } (later ++ rest) := by
        simp only [List.cons_append, compileEach, found, served, result, commit_eq sound found]
      rw [step, ih (wellFormed_of_blank blank sound), compilers.serves_of_blank blank]
      simp [serves]
    | @skipped node found unserved =>
      have serves : compilers.serves store.toGraph id = false := by
        rw [serves_of_node? found, unserved]
        rfl
      have step : compileEach compilers store report (id :: later ++ rest) =
          compileEach compilers store { report with skipped := report.skipped ++ [id] }
            (later ++ rest) := by
        simp only [List.cons_append, compileEach, found, unserved]
      rw [step, ih sound]
      simp [serves]

theorem compileEach_of_halt {compilers : Compilers} {store final : Store} {id : String}
    {error : GraphError} (halt : Halt compilers store id error final) (sound : store.WellFormed)
    (report : CompileReport) (rest : List String) :
    compileEach compilers store report (id :: rest) = (.error error, final) := by
  cases halt with
  | missing absent => simp only [compileEach, absent]
  | failed found served result =>
    simp only [compileEach, found, served, result, fail_eq sound found]

/-- A compile whose nodes cannot be ordered touches no node and no edge. -/
theorem compile_of_unsorted (compilers : Compilers) {store : Store} {subset : List String}
    {error : GraphError} (unsorted : store.topoSort subset = .error error) :
    (store.compile compilers subset).1 = .error error ∧
      (store.compile compilers subset).2.toGraph = store.toGraph := by
  have same : compileOrdered compilers (store.emit (.compileStarted subset.length)) subset =
      (.error error, store.emit (.compileStarted subset.length)) := by
    have given : (store.emit (.compileStarted subset.length)).topoSort subset = .error error :=
      unsorted
    rw [compileOrdered, given]
  unfold compile
  rw [same]
  exact ⟨rfl, rfl⟩

section Ordered

variable {compilers : Compilers} {store : Store} {subset order : List String}

theorem compile_of_order (sorted : store.topoSort subset = .ok order) {final : Store}
    {result : Except GraphError CompileReport}
    (run : compileEach compilers (store.emit (.compileStarted subset.length)) ⟨order, [], []⟩ order =
      (result, final)) :
    store.compile compilers subset = (result, final.emit (.compileFinished result.isOk)) := by
  have given : (store.emit (.compileStarted subset.length)).topoSort subset = .ok order := sorted
  unfold compile compileOrdered
  rw [given]
  simp only [run]

/-- A compile that passes all of its nodes reports them. -/
theorem compile_of_stages (sound : store.WellFormed) (sorted : store.topoSort subset = .ok order)
    {final : Store}
    (stages : Stages compilers (store.emit (.compileStarted subset.length)) order final) :
    store.compile compilers subset = (.ok {
        order
        compiled := order.filter (compilers.serves store.toGraph)
        skipped := order.filter fun id => !compilers.serves store.toGraph id },
      final.emit (.compileFinished true)) := by
  refine compile_of_order sorted ?_
  have run := compileEach_of_stages stages sound ⟨order, [], []⟩ []
  rw [List.append_nil] at run
  exact run

/-- A compile ends with the node that halts it. -/
theorem compile_of_halt (sound : store.WellFormed) {before rest : List String} {id : String}
    (sorted : store.topoSort subset = .ok (before ++ id :: rest)) {middle final : Store}
    {error : GraphError}
    (stages : Stages compilers (store.emit (.compileStarted subset.length)) before middle)
    (halt : Halt compilers middle id error final) :
    store.compile compilers subset = (.error error, final.emit (.compileFinished false)) := by
  refine compile_of_order sorted ?_
  rw [compileEach_of_stages stages sound]
  exact compileEach_of_halt halt (wellFormed_of_blank stages.blank sound) _ rest

/-- A compile whose nodes are in order goes through them. -/
theorem compile_of_sorted (compilers : Compilers) (sound : store.WellFormed)
    (sorted : store.topoSort subset = .ok order) :
    (∃ final, Stages compilers (store.emit (.compileStarted subset.length)) order final ∧
      (store.compile compilers subset).1 = .ok {
        order
        compiled := order.filter (compilers.serves store.toGraph)
        skipped := order.filter fun id => !compilers.serves store.toGraph id } ∧
      (store.compile compilers subset).2.toGraph = final.toGraph) ∨
    ∃ before id rest middle error final, order = before ++ id :: rest ∧
      Stages compilers (store.emit (.compileStarted subset.length)) before middle ∧
      Halt compilers middle id error final ∧
      (store.compile compilers subset).1 = .error error ∧
      (store.compile compilers subset).2.toGraph = final.toGraph := by
  rcases stages_or_halt compilers (store.emit (.compileStarted subset.length)) order with
    ⟨final, stages⟩ | ⟨before, id, rest, middle, error, final, rfl, stages, halt⟩
  · rw [compile_of_stages sound sorted stages]
    exact .inl ⟨final, stages, rfl, rfl⟩
  · rw [compile_of_halt sound sorted stages halt]
    exact .inr ⟨before, id, rest, middle, error, final, rfl, stages, halt, rfl, rfl⟩

end Ordered

section Upholding

variable {compilers : Compilers} {store final : Store} {holds : Node → Prop}

/-- A node that has its result is a node of the property, if all nodes were. -/
theorem Stage.every (uphold : compilers.Uphold holds) (sound : store.WellFormed)
    (each : store.Every holds) {id : String} (stage : Stage compilers store id final) :
    final.Every holds := by
  cases stage with
  | @settled node compiler artifact found served result =>
    change (store.modifyNode id (Node.settled artifact)).Every holds
    rw [← modifyNode_const sound found]
    exact every_modifyNode each fun _ _ =>
      uphold.settled each (Graph.mem_of_node? found) served result
  | skipped => exact each

theorem Stages.every (uphold : compilers.Uphold holds) (sound : store.WellFormed)
    (each : store.Every holds) {ids : List String} (stages : Stages compilers store ids final) :
    final.Every holds := by
  induction stages with
  | nil => exact each
  | cons first _ ih => exact ih (wellFormed_of_blank first.blank sound) (first.every uphold sound each)

theorem Halt.every (uphold : compilers.Uphold holds) (each : store.Every holds) {id : String}
    {error : GraphError} (halt : Halt compilers store id error final) : final.Every holds := by
  cases halt with
  | missing => exact each
  | failed => exact every_modifyNode each fun node had => uphold.failed node _ had

theorem every_compile (uphold : compilers.Uphold holds) (sound : store.WellFormed)
    (each : store.Every holds) (subset : List String) :
    (store.compile compilers subset).2.Every holds := by
  cases sorted : store.topoSort subset with
  | error error =>
    rw [Graph.Every, (compile_of_unsorted compilers sorted).2]
    exact each
  | ok order =>
    have passed : ∀ {ids : List String} {final : Store},
        Stages compilers (store.emit (.compileStarted subset.length)) ids final →
        final.Every holds :=
      @fun ids final stages =>
        @Stages.every compilers (store.emit _) final holds uphold sound each ids stages
    rcases compile_of_sorted compilers sound sorted with
      ⟨final, stages, _, same⟩ | ⟨_, _, _, middle, _, final, _, stages, halt, _, same⟩
    · rw [Graph.Every, same]
      exact passed stages
    · rw [Graph.Every, same]
      exact halt.every uphold (passed stages)

end Upholding

/-- A compile touches no node outside its subset, and nothing but what compiling
leaves on the others. -/
theorem compile_frame (compilers : Compilers) {store : Store} (sound : store.WellFormed)
    (subset : List String) :
    (store.compile compilers subset).2.blank = store.blank ∧
      ∀ id, id ∉ subset → (store.compile compilers subset).2.node? id = store.node? id := by
  cases sorted : store.topoSort subset with
  | error error =>
    rw [(compile_of_unsorted compilers sorted).2]
    exact ⟨rfl, fun _ _ => rfl⟩
  | ok order =>
    have inside : ∀ id ∈ order, id ∈ subset := by
      intro id member
      rw [Graph.order_of_topoSort sorted] at member
      exact (Schedule.mem_order.mp member).1
    rcases compile_of_sorted compilers sound sorted with
      ⟨final, stages, _, same⟩ |
        ⟨before, next, rest, middle, error, final, split, stages, halt, _, same⟩
    · rw [same]
      exact ⟨stages.blank, fun id away => stages.others fun member => away (inside id member)⟩
    · rw [same]
      refine ⟨halt.blank.trans stages.blank, fun id away => ?_⟩
      have unlisted : id ∉ order := fun member => away (inside id member)
      rw [split, List.mem_append, List.mem_cons, not_or, not_or] at unlisted
      rw [halt.others unlisted.2.1, stages.others unlisted.1]
      rfl

end Store

end RecipeGraph
