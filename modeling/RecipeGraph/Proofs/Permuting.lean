import RecipeGraph.Proofs.Verdicts

/-!
# Subsets listed in another order

A subset that has all sources of its nodes can be listed in any order. The runs may go
through it in different orders and stop at different nodes, but what a run makes of a
node is its verdict, and that does not depend on the run.
-/

namespace RecipeGraph

namespace Graph

variable {graph : Graph} {subset others : List String}

/-- The same nodes are on a cycle, or behind one. -/
theorem topoSort_perm_of_loops (same : ∀ id, id ∈ subset ↔ id ∈ others)
    (loops : graph.Loops subset) : ∃ ids ids', ids.Perm ids' ∧
      graph.topoSort subset = .error (.cyclicGraph ids) ∧
      graph.topoSort others = .error (.cyclicGraph ids') := by
  obtain ⟨ids, sorted, part, exactly⟩ := topoSort_of_loops loops
  obtain ⟨ids', sorted', part', exactly'⟩ := topoSort_of_loops (loops_congr same loops)
  have once := (Sorting.nodup_distinct subset).sublist part
  have once' := (Sorting.nodup_distinct others).sublist part'
  refine ⟨ids, ids', (List.perm_ext_iff_of_nodup once once').mpr fun id => ?_, sorted, sorted'⟩
  rw [exactly, exactly', same, Sorting.within_congr same]

end Graph

namespace Store

/-- Two compiles finish with the same graph, or find the same cycles, or each comes to
a node that fails in every run. -/
inductive EndAlike (registry : Registry) (graph : Graph) (left right : Result CompileReport) : Prop
  | finished {report other : CompileReport} (result : left.1 = .ok report)
      (result' : right.1 = .ok other) (compiled : report.compiled.Perm other.compiled)
      (skipped : report.skipped.Perm other.skipped) (same : left.2.toGraph = right.2.toGraph)
  | cyclic {ids ids' : List String} (result : left.1 = .error (.cyclicGraph ids))
      (result' : right.1 = .error (.cyclicGraph ids')) (same : ids.Perm ids')
  | failed {id other : String} {fault fault' : CompileFault}
      (result : left.1 = .error (.compileFailure id fault))
      (result' : right.1 = .error (.compileFailure other fault'))
      (verdict : Verdict registry graph id (.failed fault))
      (verdict' : Verdict registry graph other (.failed fault'))

variable {registry : Registry} {store : Store} {subset others : List String}

/-- A compile of a closed subset without a cycle passes all of it, or comes to a node
that fails in every run. -/
theorem compile_of_closed (registry : Registry) (sound : store.WellFormed)
    (known : ∀ id ∈ subset, store.contains id = true) (closed : store.ClosedUpstream subset)
    (free : ¬ store.Loops subset) :
    (∃ order final, order.Perm (Sorting.distinct subset) ∧
      Along registry store.toGraph order final ∧
      (store.compile registry subset).1 = .ok {
        order
        compiled := order.filter (registry.compilers.serves store.toGraph)
        skipped := order.filter fun id => !registry.compilers.serves store.toGraph id } ∧
      (store.compile registry subset).2.toGraph = final.toGraph) ∨
    ∃ id fault, id ∈ subset ∧ Verdict registry store.toGraph id (.failed fault) ∧
      (store.compile registry subset).1 = .error (.compileFailure id fault) := by
  obtain ⟨sorted, permuted⟩ := Graph.topoSort_of_loopless free
  have ordered := Graph.ordered_of_closed closed
  have start := Along.start registry store (.compileStarted subset.length)
  rcases compile_of_sorted registry sound sorted with
    ⟨final, stages, result, graph⟩ |
      ⟨before, next, rest, middle, error, final, split, stages, halt, result, _⟩
  · refine .inl ⟨_, final, permuted, ?_, result, graph⟩
    rw [← List.append_nil (Schedule.order _)] at ordered
    exact start.stages stages ordered
  · rw [split] at ordered permuted
    have along := start.stages stages ordered
    have listed : next ∈ subset := by
      refine Sorting.mem_distinct.mp (permuted.mem_iff.mp ?_)
      simp
    cases halt with
    | missing absent =>
      have there := known next listed
      rw [← (Graph.thins_of_blank along.blank).contains, Graph.contains, absent] at there
      cases there
    | @failed _ _ fault found served faulty =>
      obtain ⟨_, named, rfl⟩ := Registry.serving_eq_some.mp served
      have verdict := along.verdict ordered found named
      rw [faulty] at verdict
      exact .inr ⟨next, fault, listed, verdict, result⟩

/-- Runs through the same nodes leave the same graph. -/
theorem Along.toGraph_eq {order order' : List String} {final final' : Store}
    (along : Along registry store.toGraph order final)
    (along' : Along registry store.toGraph order' final') (sound : store.WellFormed)
    (same : ∀ id, id ∈ order ↔ id ∈ order') : final.toGraph = final'.toGraph := by
  have once := (wellFormed_of_blank along.blank sound).nodes_once
  refine Graph.eq_of_blank (along.blank.trans along'.blank.symm) once fun id => ?_
  by_cases listed : id ∈ order
  · obtain ⟨effect, verdict, _, left⟩ := along.decided id listed
    obtain ⟨effect', verdict', _, left'⟩ := along'.decided id ((same id).mp listed)
    rw [left, left', verdict.unique verdict']
  · rw [along.others id listed, along'.others id fun again => listed ((same id).mpr again)]

theorem closed_congr (same : ∀ id, id ∈ subset ↔ id ∈ others)
    (closed : store.ClosedUpstream subset) : store.ClosedUpstream others :=
  fun edge drawn target => (same _).mp (closed edge drawn ((same _).mpr target))

/-- A compile that finishes has passed all nodes of its subset. -/
theorem passes_of_order {order : List String} {final : Store}
    (permuted : order.Perm (Sorting.distinct subset))
    (along : Along registry store.toGraph order final) {id : String} (listed : id ∈ subset) :
    registry.Passes store.toGraph id :=
  along.passes (permuted.mem_iff.mpr (Sorting.mem_distinct.mpr listed))

theorem compile_endAlike (registry : Registry) (sound : store.WellFormed)
    (known : ∀ id ∈ subset, store.contains id = true) (closed : store.ClosedUpstream subset)
    (same : ∀ id, id ∈ subset ↔ id ∈ others) :
    EndAlike registry store.toGraph (store.compile registry subset)
      (store.compile registry others) := by
  have known' : ∀ id ∈ others, store.contains id = true := fun id listed =>
    known id ((same id).mpr listed)
  by_cases loops : store.Loops subset
  · obtain ⟨ids, ids', permuted, unsorted, unsorted'⟩ := Graph.topoSort_perm_of_loops same loops
    exact .cyclic (compile_of_unsorted registry unsorted).1
      (compile_of_unsorted registry unsorted').1 permuted
  have free : ¬ store.Loops others := fun again =>
    loops (Graph.loops_congr (fun id => (same id).symm) again)
  rcases compile_of_closed registry sound known closed loops with
    ⟨order, final, permuted, along, result, graph⟩ | ⟨id, fault, listed, verdict, result⟩ <;>
  rcases compile_of_closed registry sound known' (closed_congr same closed) free with
    ⟨order', final', permuted', along', result', graph'⟩ |
      ⟨other, fault', listed', verdict', result'⟩
  · have shuffled := permuted.trans ((Sorting.distinct_perm same).trans permuted'.symm)
    refine .finished result result' (shuffled.filter _) (shuffled.filter _) ?_
    rw [graph, graph']
    exact along.toGraph_eq along' sound fun id => shuffled.mem_iff
  · exact (verdict'.not_passes (passes_of_order permuted along ((same _).mpr listed'))).elim
  · exact (verdict.not_passes (passes_of_order permuted' along' ((same _).mp listed))).elim
  · exact .failed result result' verdict verdict'

/-- For any compilers, a subset with all sources of its nodes can be listed in any order,
and with repetitions: the compiles finish, or find a cycle, for both listings or for
neither. Then they leave the same graph and report the same nodes, or name the same nodes
on or behind a cycle. -/
theorem compile_listed_in_any_order (registry : Registry) (sound : store.WellFormed)
    (known : ∀ id ∈ subset, store.contains id = true) (closed : store.ClosedUpstream subset)
    (same : ∀ id, id ∈ subset ↔ id ∈ others) :
    ((∃ report, (store.compile registry subset).1 = .ok report) ↔
      ∃ other, (store.compile registry others).1 = .ok other) ∧
    ((∃ ids, (store.compile registry subset).1 = .error (.cyclicGraph ids)) ↔
      ∃ ids', (store.compile registry others).1 = .error (.cyclicGraph ids')) ∧
    (∀ ids ids', (store.compile registry subset).1 = .error (.cyclicGraph ids) →
      (store.compile registry others).1 = .error (.cyclicGraph ids') → ids.Perm ids') ∧
    ∀ report other, (store.compile registry subset).1 = .ok report →
      (store.compile registry others).1 = .ok other →
      (store.compile registry subset).2.toGraph = (store.compile registry others).2.toGraph ∧
        report.compiled.Perm other.compiled ∧ report.skipped.Perm other.skipped := by
  cases compile_endAlike registry sound known closed same with
  | finished result result' compiled skipped graphs =>
    rw [result, result']
    refine ⟨by simp, by simp, nofun, ?_⟩
    rintro _ _ ⟨⟩ ⟨⟩
    exact ⟨graphs, compiled, skipped⟩
  | cyclic result result' permuted =>
    rw [result, result']
    refine ⟨by simp, by simp, ?_, nofun⟩
    rintro _ _ ⟨⟩ ⟨⟩
    exact permuted
  | failed result result' =>
    rw [result, result']
    exact ⟨by simp, by simp, nofun, nofun⟩

/-- A model of two layers beside a product of a number with itself. -/
def forked : Store := run [
  .load {
    nodes := [
      { id := "q", params := .model .adam .mse 0.001 },
      { id := "v", params := .value (some 4.0) },
      { id := "d", params := .denseLayer 2 .relu none },
      { id := "i", params := .inputLayer [3] },
      { id := "m", params := .multiply none none }]
    edges := [
      ⟨"va", "v", "m", none, some Handle.a⟩, ⟨"vb", "v", "m", none, some Handle.b⟩,
      ⟨"id", "i", "d", none, some Handle.input⟩, ⟨"dq", "d", "q", none, some Handle.input⟩] }]

/-- The listings are compiled in different orders. -/
theorem compile_forked_in_any_order :
    forked.WellFormed ∧ forked.ClosedUpstream ["v", "m", "i", "d", "q"] ∧
    (∀ id ∈ ["v", "m", "i", "d", "q"], forked.contains id = true) ∧
    ∃ report other,
      (forked.compile Registry.standard ["v", "m", "i", "d", "q"]).1 = .ok report ∧
      (forked.compile Registry.standard ["q", "d", "i", "m", "v", "q"]).1 = .ok other ∧
      report.order ≠ other.order ∧ report.compiled.Perm other.compiled ∧
      (forked.compile Registry.standard ["v", "m", "i", "d", "q"]).2.toGraph =
        (forked.compile Registry.standard ["q", "d", "i", "m", "v", "q"]).2.toGraph := by
  have sound : forked.WellFormed := foldl_apply_wellFormed empty_wellFormed _
  have known : ∀ id ∈ ["v", "m", "i", "d", "q"], forked.contains id = true := by decide +kernel
  have closed : forked.ClosedUpstream ["v", "m", "i", "d", "q"] := by
    unfold Graph.ClosedUpstream
    decide +kernel
  have same : ∀ id, id ∈ ["v", "m", "i", "d", "q"] ↔ id ∈ ["q", "d", "i", "m", "v", "q"] := by
    intro id
    simp only [List.mem_cons, List.not_mem_nil, or_false]
    tauto
  obtain ⟨_, _, _, alike⟩ := compile_listed_in_any_order Registry.standard sound known closed same
  have finished : (match (forked.compile Registry.standard ["v", "m", "i", "d", "q"]).1,
      (forked.compile Registry.standard ["q", "d", "i", "m", "v", "q"]).1 with
    | .ok report, .ok other => report.order != other.order
    | _, _ => false) = true := by decide +kernel
  split at finished
  · next report other result result' =>
    obtain ⟨graphs, compiled, _⟩ := alike report other result result'
    exact ⟨sound, closed, known, report, other, result, result', by simpa using finished,
      compiled, graphs⟩
  · cases finished

end Store

end RecipeGraph
