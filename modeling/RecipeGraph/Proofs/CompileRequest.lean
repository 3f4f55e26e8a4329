import RecipeGraph.Service
import RecipeGraph.Proofs.Ordering
import RecipeGraph.Proofs.Sessions

/-!
# What a compile request can come to

There are four ways in which compiling a node can end. The node may not be there,
what it depends on may be cyclic, everything may be compiled, or some node may
fail, with everything before it compiled.
-/

namespace RecipeGraph

open Relation (ReflTransGen TransGen)

namespace Session

/-- The ways in which compiling a node can end, told apart by the graph before it.
`members` are the nodes that the node depends on. -/
inductive CompileOutcome (before : Session) (id : String) :
    Except GraphError CompileReport → Session → Prop
  | missing (absent : before.store.node? id = none) :
      CompileOutcome before id (.error (.nodeNotFound id)) before
  | cyclic {members ids : List String} {after : Session}
      (connected : before.store.connectedIds id = .ok members)
      (loop : ∃ looped, TransGen (Linked (Sorting.within members before.store.edges))
        looped looped)
      (listed : ids.Sublist members)
      (exactly : ∀ member, member ∈ ids ↔ member ∈ members ∧
        BehindCycle (Sorting.within members before.store.edges) member)
      (self : id ∈ ids)
      (unchanged : after.store.toGraph = before.store.toGraph) :
      CompileOutcome before id (.error (.cyclicGraph ids)) after
  | success {members order : List String} {after : Session}
      (connected : before.store.connectedIds id = .ok members)
      (free : ¬ ∃ looped, TransGen (Linked (Sorting.within members before.store.edges))
        looped looped)
      (permuted : order.Perm members)
      (forward : ∀ edge ∈ before.store.edges, edge.target ∈ members →
        [edge.source, edge.target].Sublist order)
      (last : order.getLast? = some id)
      (settled : ∀ member ∈ members, ∃ node, after.store.node? member = some node ∧
        node.data.compiled = true ∧ node.data.output.isSome = true ∧ node.data.errors = []) :
      CompileOutcome before id (.ok ⟨order, order, []⟩) after
  | failure {members : List String} {member : String} {fault : CompileFault} {after : Session}
      (connected : before.store.connectedIds id = .ok members)
      (free : ¬ ∃ looped, TransGen (Linked (Sorting.within members before.store.edges))
        looped looped)
      (listed : member ∈ members)
      (marked : ∃ node, after.store.node? member = some node ∧
        node.data.errors = [fault.message] ∧ node.data.compiled = false)
      (above : ∀ ancestor, TransGen before.store.Feeds ancestor member →
        ∃ node, after.store.node? ancestor = some node ∧ node.data.compiled = true) :
      CompileOutcome before id (.error (.compileFailure member fault)) after

variable {session : Session} {id : String}

theorem contains_of_mem_ancestry (sound : session.store.WellFormed)
    (known : session.store.contains id = true) {member : String}
    (found : member ∈ session.store.ancestry id) : session.store.contains member = true :=
  Graph.contains_of_reaches sound known (Graph.mem_ancestry.mp found)

@[simp]
theorem serves_standard {graph : Graph} {member : String} (known : graph.contains member = true) :
    Registry.standard.compilers.serves graph member = true := by
  obtain ⟨node, found⟩ := Graph.contains_iff.mp known
  simp [Compilers.serves, Registry.compilers, Graph.kind?, found, Registry.standard]

/-- The standard compilers pass over no node that is there. -/
theorem filter_serves_standard {graph : Graph} {order : List String}
    (known : ∀ member ∈ order, graph.contains member = true) :
    order.filter (Registry.standard.compilers.serves graph) = order ∧
      (order.filter fun member => !Registry.standard.compilers.serves graph member) = [] := by
  constructor
  · exact List.filter_eq_self.mpr fun member found => serves_standard (known member found)
  · refine List.filter_eq_nil_iff.mpr fun member found => ?_
    simp [serves_standard (known member found)]

/-- Where what a node depends on is cyclic, compiling it only says so. -/
theorem compile_of_cyclic (sound : session.store.WellFormed)
    (known : session.store.contains id = true)
    (behind : BehindCycle (session.store.upstream id) id) :
    CompileOutcome session id (session.compile Registry.standard id).1
      (session.compile Registry.standard id).2 := by
  obtain ⟨ids, unsorted, listed, exactly⟩ := Graph.topoSort_of_cyclic behind
  have stopped := Store.compile_of_unsorted Registry.standard unsorted
  obtain ⟨after, same, store, _⟩ := compile_spec Registry.standard sound known
  have loop := behind
  obtain ⟨looped, loop, _⟩ := loop
  rw [same, stopped.1]
  refine .cyclic (Graph.connectedIds_eq_ok sound known) ⟨looped, loop⟩ listed exactly ?_ ?_
  · exact (exactly id).mpr ⟨Graph.mem_ancestry_self _ id, behind⟩
  · rw [store]
    exact stopped.2

/-- Where nothing is cyclic, compiling a node compiles everything it depends on,
up to the first node that fails. -/
theorem compile_of_acyclic (sound : session.store.WellFormed)
    (known : session.store.contains id = true)
    (free : ¬ BehindCycle (session.store.upstream id) id) :
    CompileOutcome session id (session.compile Registry.standard id).1
      (session.compile Registry.standard id).2 := by
  obtain ⟨order, sorted, ordered, permuted, last⟩ := Graph.topoSort_of_acyclic free
  obtain ⟨after, same, store, _⟩ := compile_spec Registry.standard sound known
  have connected := Graph.connectedIds_eq_ok sound known
  have loopless : ¬ ∃ looped, TransGen (Linked (session.store.upstream id)) looped looped :=
    fun ⟨_, loop⟩ => free (Graph.behindCycle_self_of_loop loop)
  have known_all : ∀ member ∈ order, session.store.contains member = true :=
    fun member found => contains_of_mem_ancestry sound known (permuted.mem_iff.mp found)
  rcases Store.compile_of_sorted Registry.standard sound sorted with
    ⟨final, stages, result, graph⟩ |
    ⟨before, member, rest, middle, error, final, split, stages, halt, result, graph⟩
  · obtain ⟨all, none⟩ := filter_serves_standard known_all
    rw [same, result, all, none]
    refine .success connected loopless permuted ?_ last ?_
    · intro edge drawn target
      exact ordered.forward edge drawn (permuted.mem_iff.mpr target)
    · intro member found
      obtain ⟨node, artifact, reached, data⟩ := stages.settled (permuted.mem_iff.mpr found)
      refine ⟨node, ?_, by rw [data], by rw [data]; rfl, by rw [data]⟩
      rw [store, graph]
      exact reached
  · have listed : member ∈ order := by
      rw [split]
      simp
    have kept := (Graph.thins_of_blank stages.blank).contains member
    obtain ⟨node, fault, found, rfl, rfl⟩ := halt.failure (kept.trans (known_all member listed))
    rw [same, result]
    refine .failure connected loopless (permuted.mem_iff.mp listed) ?_ ?_
    · refine ⟨node.failed fault, ?_, rfl, rfl⟩
      rw [store, graph, Store.node?_reject, if_pos rfl, found]
      rfl
    · intro ancestor leads
      have earlier := ordered.ancestors_before split leads
      obtain ⟨above, artifact, reached, data⟩ := stages.settled earlier
      have apart : ancestor ≠ member := by
        have once := ordered.once
        rw [split] at once
        exact (List.nodup_append.mp once).2.2 _ earlier _ List.mem_cons_self
      refine ⟨above, ?_, by rw [data]⟩
      rw [store, graph, Store.node?_reject, if_neg apart]
      exact reached

theorem compile_outcome (sound : session.store.WellFormed) (id : String) :
    CompileOutcome session id (session.compile Registry.standard id).1
      (session.compile Registry.standard id).2 := by
  cases found : session.store.node? id with
  | none =>
    rw [compile_of_missing Registry.standard found]
    exact .missing found
  | some node =>
    have known := Graph.contains_iff.mpr ⟨node, found⟩
    by_cases behind : BehindCycle (session.store.upstream id) id
    · exact compile_of_cyclic sound known behind
    · exact compile_of_acyclic sound known behind

end Session

/-- The status of an answer to a compile request, and whether it speaks of
success, follow from the outcome. -/
def Response.Tells (response : Response) : Except GraphError CompileReport → Prop
  | .ok _ => response.status = 200 ∧
      ∃ body, response.content = .json body ∧ body.get? "success" = some (.bool true)
  | .error (.compileFailure _ _) => response.status = 200 ∧
      ∃ body, response.content = .json body ∧ body.get? "success" = some (.bool false)
  | .error (.cyclicGraph _) => response.status = 422
  | .error (.nodeNotFound _) => response.status = 404
  | .error _ => False

theorem Session.CompileOutcome.tells {before after : Session} {id : String}
    {result : Except GraphError CompileReport}
    (outcome : before.CompileOutcome id result after) :
    (Response.ofCompile result).Tells result := by
  cases outcome with
  | missing => rfl
  | cyclic => rfl
  | success => exact ⟨rfl, _, rfl, rfl⟩
  | failure => exact ⟨rfl, _, rfl, rfl⟩

/-- Compiles are asked for by a method that wants an answer with content. -/
theorem Request.method_of_compile {request : Request} {id : String}
    (asks : request.call = .ok (.view .compile id)) : request.method ≠ .head := by
  intro head
  unfold Request.call at asks
  split at asks
  · next route _ =>
    unfold Request.callAt at asks
    rw [head] at asks
    cases route with
    | view view segment =>
      change (if Method.get = view.method then (identifier segment).map (Call.view view)
        else .error .unknownMethod) = _ at asks
      split at asks
      · next method =>
        obtain ⟨_, _, same⟩ := Outcome.map_eq_ok.mp asks
        cases same
        simp [NodeView.method] at method
      · cases asks
    | node segment =>
      obtain ⟨_, _, same⟩ := Outcome.map_eq_ok.mp asks
      cases same
    | _ => cases asks
  · cases asks

/-- A compile request ends in one of the four ways, and is answered accordingly. -/
theorem Session.compile_request {session : Session}
    (reached : Reached Registry.standard (fun _ => True) session) (id : String) :
    session.CompileOutcome id (session.compile Registry.standard id).1
        (session.compile Registry.standard id).2 ∧
      ∀ (service : Service) (request : Request), service.registry = Registry.standard →
        service.session = session → request.call = .ok (.view .compile id) →
        (service.answer request).1.Tells (session.compile Registry.standard id).1 ∧
          (service.answer request).2.session = (session.compile Registry.standard id).2 := by
  have outcome := compile_outcome reached.wellFormed id
  refine ⟨outcome, ?_⟩
  rintro service request standard rfl asks
  have answered : service.answer request =
      (Response.ofCompile (service.session.compile Registry.standard id).1,
        service.withSession (service.session.compile Registry.standard id).2) := by
    unfold Service.answer
    rw [asks, ← standard]
    simp only [if_neg (Request.method_of_compile asks)]
    rfl
  rw [answered]
  exact ⟨outcome.tells, rfl⟩

/-- Compiling a value of the starter graph. -/
theorem Session.compile_request_starter :
    Session.scaffold.2.CompileOutcome "value1"
        (Session.scaffold.2.compile Registry.standard "value1").1
        (Session.scaffold.2.compile Registry.standard "value1").2 ∧
      ((Service.start Registry.standard true).answer
        ⟨.post, ⟨"/graph/nodes/value1/compile"⟩, none, ""⟩).1.Tells
          (Session.scaffold.2.compile Registry.standard "value1").1 := by
  have request := compile_request .starter "value1"
  refine ⟨request.1, (request.2 _ _ rfl rfl ?_).1⟩
  rfl

end RecipeGraph
