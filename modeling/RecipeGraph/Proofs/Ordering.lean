import RecipeGraph.Proofs.Scheduling

/-!
# Ordering what a node depends on

The ancestry of a node is closed under the edges into it, so an order of it that
respects the edges puts everything behind its sources, and the node itself last.
-/

namespace RecipeGraph

open Relation (ReflTransGen TransGen)

namespace Graph

/-- The edges among the nodes that a node depends on. -/
def upstream (graph : Graph) (id : String) : List Edge :=
  Sorting.within (graph.ancestry id) graph.edges

theorem linked_upstream {graph : Graph} {id source target : String}
    (feeds : graph.Feeds source target) (member : target ∈ graph.ancestry id) :
    Linked (graph.upstream id) source target := by
  have known := mem_ancestry_of_feeds feeds member
  obtain ⟨edge, drawn, rfl, rfl⟩ := feeds
  exact ⟨edge, Sorting.mem_within.mpr ⟨drawn, known, member⟩, rfl, rfl⟩

/-- A cycle among the nodes that a node depends on has that node behind it. -/
theorem behindCycle_self_of_loop {graph : Graph} {id looped : String}
    (loop : TransGen (Linked (graph.upstream id)) looped looped) :
    BehindCycle (graph.upstream id) id := by
  refine ⟨looped, loop, ?_⟩
  have member : looped ∈ graph.ancestry id := by
    obtain ⟨next, ⟨edge, inner, rfl, _⟩, _⟩ := TransGen.head'_iff.mp loop
    exact (Sorting.mem_within.mp inner).2.1
  have reaches := mem_ancestry.mp member
  clear loop member
  induction reaches using Relation.ReflTransGen.head_induction_on with
  | refl => exact .refl
  | head feeds later ih => exact .head (linked_upstream feeds (mem_ancestry.mpr later)) ih

/-- Every node stands once, behind the sources of all edges into it. -/
structure Ordered (graph : Graph) (order : List String) : Prop where
  once : order.Nodup
  forward : ∀ edge ∈ graph.edges, edge.target ∈ order →
    [edge.source, edge.target].Sublist order

namespace Ordered

variable {graph : Graph} {order before rest : List String}

theorem source_mem_prefix (ordered : graph.Ordered order) (split : order = before ++ rest)
    {source target : String} (feeds : graph.Feeds source target) (member : target ∈ before) :
    source ∈ before := by
  obtain ⟨edge, drawn, rfl, rfl⟩ := feeds
  have pair := ordered.forward edge drawn (split ▸ List.mem_append_left _ member)
  have once := ordered.once
  rw [split] at pair once
  obtain ⟨left, right, parts, inside, outside⟩ := List.sublist_append_iff.mp pair
  cases left with
  | cons first _ =>
    rw [List.cons_append] at parts
    rw [(List.cons.inj parts).1]
    exact inside.subset List.mem_cons_self
  | nil =>
    rw [List.nil_append] at parts
    have late : edge.target ∈ rest := outside.subset (by simp [← parts])
    exact ((List.nodup_append.mp once).2.2 _ member _ late rfl).elim

/-- Everything that leads to a node stands before it. -/
theorem ancestors_before {id : String} (ordered : graph.Ordered order)
    (split : order = before ++ id :: rest) {member : String}
    (leads : TransGen graph.Feeds member id) : member ∈ before := by
  have direct : ∀ source, graph.Feeds source id → source ∈ before := by
    intro source feeds
    have split' : order = (before ++ [id]) ++ rest := by rw [split]; simp
    have known := ordered.source_mem_prefix split' feeds (by simp)
    rcases List.mem_append.mp known with early | here
    · exact early
    · obtain ⟨edge, drawn, rfl, into⟩ := feeds
      have pair := ordered.forward edge drawn (by rw [into, split]; simp)
      have apart := ordered.once.sublist pair
      rw [List.mem_singleton.mp here, into] at apart
      simp at apart
  induction leads using Relation.TransGen.head_induction_on with
  | single feeds => exact direct _ feeds
  | head feeds _ ih => exact ordered.source_mem_prefix split feeds ih

end Ordered

@[simp] theorem distinct_ancestry (graph : Graph) (id : String) :
    Sorting.distinct (graph.ancestry id) = graph.ancestry id :=
  Sorting.distinct_eq_self (nodup_ancestry graph id)

/-- With every node the sources of all edges into it are listed. -/
def ClosedUpstream (graph : Graph) (subset : List String) : Prop :=
  ∀ edge ∈ graph.edges, edge.target ∈ subset → edge.source ∈ subset

@[simp] theorem closedUpstream_ancestry (graph : Graph) (id : String) :
    graph.ClosedUpstream (graph.ancestry id) :=
  fun edge drawn target => mem_ancestry_of_feeds ⟨edge, drawn, rfl, rfl⟩ target

theorem ordered_of_closed {graph : Graph} {subset : List String}
    (closed : graph.ClosedUpstream subset) :
    graph.Ordered (Schedule.ofEdges .newestFirst subset graph.edges).order where
  once := Schedule.nodup_order _ _ _
  forward edge drawn target :=
    Schedule.ordered drawn (closed edge drawn (Schedule.mem_order.mp target).1) target

theorem ordered_schedule (graph : Graph) (id : String) :
    graph.Ordered (Schedule.ofEdges .newestFirst (graph.ancestry id) graph.edges).order :=
  ordered_of_closed (closedUpstream_ancestry graph id)

/-- The last node of an ordered ancestry is the node whose ancestry it is. -/
theorem getLast?_of_ordered {graph : Graph} {id : String} {order : List String}
    (ordered : graph.Ordered order)
    (members : ∀ member, member ∈ order ↔ member ∈ graph.ancestry id) :
    order.getLast? = some id := by
  have self : id ∈ order := (members id).mpr (mem_ancestry_self graph id)
  cases shape : order.getLast? with
  | none =>
    rw [List.getLast?_eq_none_iff.mp shape] at self
    cases self
  | some last =>
    obtain ⟨before, split⟩ := List.getLast?_eq_some_iff.mp shape
    rw [split] at self
    rcases List.mem_append.mp self with early | here
    · have reaches : ReflTransGen graph.Feeds last id := by
        refine mem_ancestry.mp ((members last).mp ?_)
        rw [split]
        simp
      rcases Relation.reflTransGen_iff_eq_or_transGen.mp reaches with same | leads
      · rw [same]
      · obtain ⟨front, back, parts⟩ := List.append_of_mem early
        have split' : order = front ++ id :: (back ++ [last]) := by
          rw [split, parts]
          simp
        have again := ordered.ancestors_before split' leads
        have once := ordered.once
        rw [split, parts] at once
        refine ((List.nodup_append.mp once).2.2 last ?_ last List.mem_cons_self rfl).elim
        exact List.mem_append_left _ again
    · rw [List.mem_singleton.mp here]

/-- Without a cycle the ancestry is put in order, the node itself last. -/
theorem topoSort_of_acyclic {graph : Graph} {id : String}
    (free : ¬ BehindCycle (graph.upstream id) id) :
    ∃ order, graph.topoSort (graph.ancestry id) = .ok order ∧ graph.Ordered order ∧
      order.Perm (graph.ancestry id) ∧ order.getLast? = some id := by
  have loopless : ¬ graph.Loops (graph.ancestry id) := by
    rintro ⟨_, loop⟩
    exact free (behindCycle_self_of_loop loop)
  obtain ⟨sorted, permuted⟩ := topoSort_of_loopless loopless
  rw [distinct_ancestry] at permuted
  have ordered := ordered_schedule graph id
  exact ⟨_, sorted, ordered, permuted, getLast?_of_ordered ordered fun _ => permuted.mem_iff⟩

/-- With a cycle before a node its ancestry has no order. -/
theorem topoSort_of_cyclic {graph : Graph} {id : String}
    (behind : BehindCycle (graph.upstream id) id) :
    ∃ ids, graph.topoSort (graph.ancestry id) = .error (.cyclicGraph ids) ∧
      ids.Sublist (graph.ancestry id) ∧
      ∀ member, member ∈ ids ↔
        member ∈ graph.ancestry id ∧ BehindCycle (graph.upstream id) member := by
  obtain ⟨looped, loop, _⟩ := behind
  have loops : graph.Loops (graph.ancestry id) := ⟨looped, loop⟩
  have named := topoSort_of_loops loops
  rw [distinct_ancestry] at named
  exact named

end Graph

end RecipeGraph
