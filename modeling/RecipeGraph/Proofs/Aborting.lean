import RecipeGraph.Proofs.Compiling

/-!
# Compiles stop at the first failure

A compile passes the nodes of its order one after the other and stops at the first
that it cannot pass. Nothing is taken back: nodes that were passed keep what they
got, and nodes behind the end are as they were.
-/

namespace RecipeGraph

/-- What a run makes of a node that it passes, with the graph as the nodes before
have left it: nothing if no compiler serves the node, or else what the compiler
gives. -/
inductive Node.Passed (compilers : Compilers) (earlier : Graph) (node : Node) : Node → Prop
  | skipped (unserved : compilers.serving node.kind = none) : Passed compilers earlier node node
  | compiled {compiler : Compiler} {artifact : Artifact}
      (served : compilers.serving node.kind = some compiler)
      (result : compiler earlier node = .ok artifact) :
      Passed compilers earlier node (node.settled artifact)

namespace Store

/-- How a run ends that has passed the front of its order and left the rest of it.
`middle` is the graph in which it ends. -/
inductive Ends (compilers : Compilers) (store : Store) (order rest : List String) (middle : Graph) :
    Except GraphError CompileReport → Graph → Prop
  | finished (all : rest = []) :
      Ends compilers store order rest middle (.ok {
        order
        compiled := order.filter (compilers.serves store.toGraph)
        skipped := order.filter fun id => !compilers.serves store.toGraph id }) middle
  | missing {id : String} (next : rest.head? = some id) (absent : store.node? id = none) :
      Ends compilers store order rest middle (.error (.nodeNotFound id)) middle
  | failed {id : String} {node : Node} {compiler : Compiler} {fault : CompileFault} {after : Graph}
      (next : rest.head? = some id) (found : store.node? id = some node)
      (served : compilers.serving node.kind = some compiler)
      (result : compiler middle node = .error fault)
      (marked : after.node? id = some (node.failed fault)) :
      Ends compilers store order rest middle (.error (.compileFailure id fault)) after

/-- How a compile goes, from the store before it to the graph behind it. -/
inductive CompileCourse (compilers : Compilers) (store : Store) (subset : List String) :
    Except GraphError CompileReport → Graph → Prop
  | cyclic {ids : List String} (loops : store.Loops subset)
      (listed : ids.Sublist (Sorting.distinct subset))
      (exactly : ∀ id, id ∈ ids ↔ id ∈ subset ∧
        BehindCycle (Sorting.within subset store.edges) id) :
      CompileCourse compilers store subset (.error (.cyclicGraph ids)) store.toGraph
  | ordered {result : Except GraphError CompileReport} {after : Graph}
      {order passed rest : List String} {middle : Store}
      (free : ¬ store.Loops subset)
      (sorted : store.topoSort subset = .ok order)
      (permuted : order.Perm (Sorting.distinct subset))
      (split : order = passed ++ rest)
      (stages : Stages compilers (store.emit (.compileStarted subset.length)) passed middle)
      (ends : Ends compilers store order rest middle.toGraph result after)
      (each : ∀ front id back, passed = front ++ id :: back → ∃ earlier node left,
        Stages compilers (store.emit (.compileStarted subset.length)) front earlier ∧
          store.node? id = some node ∧ node.Passed compilers earlier.toGraph left ∧
          after.node? id = some left)
      (others : ∀ id, id ∉ passed → rest.head? ≠ some id → after.node? id = store.node? id)
      (blank : after.blank = store.blank) :
      CompileCourse compilers store subset result after

theorem Stages.split {compilers : Compilers} {store final : Store} {front back : List String}
    (stages : Stages compilers store (front ++ back) final) :
    ∃ middle, Stages compilers store front middle ∧ Stages compilers middle back final := by
  induction front generalizing store with
  | nil => exact ⟨store, .nil, stages⟩
  | cons id rest ih =>
    cases stages with
    | cons first later =>
      obtain ⟨middle, left, right⟩ := ih later
      exact ⟨middle, .cons first left, right⟩

theorem Stages.append {compilers : Compilers} {store middle final : Store} {front back : List String}
    (early : Stages compilers store front middle) (late : Stages compilers middle back final) :
    Stages compilers store (front ++ back) final := by
  induction early with
  | nil => exact late
  | cons first _ ih => exact .cons first (ih late)

theorem Stage.passed {compilers : Compilers} {store final : Store} {id : String}
    (stage : Stage compilers store id final) : ∃ node left, store.node? id = some node ∧
      node.Passed compilers store.toGraph left ∧ final.node? id = some left := by
  cases stage with
  | @settled node compiler artifact found served result =>
    refine ⟨node, node.settled artifact, found, .compiled served result, ?_⟩
    rw [node?_settle, if_pos rfl, found]
    rfl
  | @skipped node found unserved => exact ⟨node, node, found, .skipped unserved, found⟩

/-- A node gets its result when the run comes to it and keeps it to the end. -/
theorem Stages.passed {compilers : Compilers} {store final : Store} {front back : List String}
    {id : String} (stages : Stages compilers store (front ++ id :: back) final)
    (once : (front ++ id :: back).Nodup) : ∃ earlier node left,
      Stages compilers store front earlier ∧ store.node? id = some node ∧
      node.Passed compilers earlier.toGraph left ∧ final.node? id = some left := by
  have apart := List.nodup_append.mp once
  obtain ⟨earlier, before, behind⟩ := stages.split
  cases behind with
  | cons stage later =>
    obtain ⟨node, left, found, passed, kept⟩ := stage.passed
    refine ⟨earlier, node, left, before, ?_, passed, ?_⟩
    · rw [← before.others fun again => apart.2.2 id again id List.mem_cons_self rfl]
      exact found
    · rw [later.others (List.nodup_cons.mp apart.2.1).1]
      exact kept

/-- A run with an order ends with its last node or with the first that halts it. -/
theorem ends_of_sorted (compilers : Compilers) {store : Store} (sound : store.WellFormed)
    {subset order : List String} (sorted : store.topoSort subset = .ok order)
    (once : order.Nodup) : ∃ passed rest middle, order = passed ++ rest ∧
      Stages compilers (store.emit (.compileStarted subset.length)) passed middle ∧
      Ends compilers store order rest middle.toGraph (store.compile compilers subset).1
        (store.compile compilers subset).2.toGraph ∧
      (∀ id, rest.head? ≠ some id →
        (store.compile compilers subset).2.node? id = middle.node? id) ∧
      (store.compile compilers subset).2.blank = store.blank := by
  rcases compile_of_sorted compilers sound sorted with
    ⟨final, stages, result, graph⟩ |
      ⟨passed, id, rest, middle, error, final, split, stages, halt, result, graph⟩
  · rw [result, graph]
    exact ⟨order, [], final, (List.append_nil _).symm, stages, .finished rfl, fun _ _ => rfl,
      stages.blank⟩
  · rw [result, graph]
    have unpassed : id ∉ passed := by
      rw [split] at once
      exact fun again => (List.nodup_append.mp once).2.2 id again id List.mem_cons_self rfl
    have untouched : middle.node? id = store.node? id := stages.others unpassed
    refine ⟨passed, id :: rest, middle, split, stages, ?_, fun other apart => ?_,
      halt.blank.trans stages.blank⟩
    · cases halt with
      | missing absent => exact .missing rfl (untouched.symm.trans absent)
      | @failed node compiler fault found served faulty =>
        refine .failed rfl (untouched.symm.trans found) served faulty ?_
        rw [node?_reject, if_pos rfl, found]
        rfl
    · exact halt.others fun same => apart (congrArg some same.symm)

/-- With any compilers and for any list of ids a compile either finds a cycle, and
changes nothing, or passes the front of its order and ends there. -/
theorem compile_passes_until_failure {store : Store} (sound : store.WellFormed)
    (compilers : Compilers) (subset : List String) :
    store.CompileCourse compilers subset (store.compile compilers subset).1
      (store.compile compilers subset).2.toGraph := by
  by_cases loops : store.Loops subset
  · obtain ⟨ids, unsorted, listed, exactly⟩ := Graph.topoSort_of_loops loops
    obtain ⟨result, graph⟩ := compile_of_unsorted compilers unsorted
    rw [result, graph]
    exact .cyclic loops listed exactly
  · obtain ⟨sorted, permuted⟩ := Graph.topoSort_of_loopless loops
    have once := permuted.nodup_iff.mpr (Sorting.nodup_distinct subset)
    obtain ⟨passed, rest, middle, split, stages, ends, kept, blank⟩ :=
      ends_of_sorted compilers sound sorted once
    rw [split] at once
    have apart := List.nodup_append.mp once
    refine .ordered loops sorted permuted split stages ends ?_ ?_ blank
    -- A node that was passed stands apart from the one at which the run ends.
    · rintro front id back rfl
      obtain ⟨earlier, node, left, before, found, made, last⟩ := stages.passed apart.1
      refine ⟨earlier, node, left, before, found, made, ?_⟩
      rw [kept id fun next => ?_, last]
      exact apart.2.2 id (by simp) id (List.mem_of_mem_head? next) rfl
    · intro id unpassed next
      rw [kept id next, stages.others unpassed]
      rfl

/-- A value, and a product that lacks its second factor. -/
def lacking : Store := run [
  .load {
    nodes := [
      { id := "m", params := .multiply none none },
      { id := "v", params := .value (some 4.0) }]
    edges := [⟨"vm", "v", "m", none, some Handle.a⟩] }]

/-- The product fails, and the value keeps what it got. -/
theorem compile_lacking :
    lacking.WellFormed ∧
      lacking.CompileCourse Registry.standard ["m", "v", "m"]
        (lacking.compile Registry.standard ["m", "v", "m"]).1
        (lacking.compile Registry.standard ["m", "v", "m"]).2.toGraph ∧
      ((lacking.compile Registry.standard ["m", "v", "m"]).2.node? "m").map
        (·.data.errors) = some [(CompileFault.missingOperand Handle.b).message] ∧
      ((lacking.compile Registry.standard ["m", "v", "m"]).2.node? "v").map
        (·.data.compiled) = some true := by
  have sound : lacking.WellFormed := foldl_apply_wellFormed empty_wellFormed _
  refine ⟨sound, compile_passes_until_failure sound Registry.standard _, ?_, ?_⟩
  · decide +kernel
  · decide +kernel

end Store

end RecipeGraph
