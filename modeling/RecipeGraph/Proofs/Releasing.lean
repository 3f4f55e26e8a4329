import RecipeGraph.Proofs.Scheduling

/-!
# What a schedule is made of

The ordering releases no edge into a node that waits for none, so it can be run with
counts that must not fall below zero. It ends with every node of the subset either in its
place, behind the sources of all edges into it, or left over because of a cycle.
-/

namespace RecipeGraph

open Relation (TransGen)

namespace Sorting

/-- Releases one edge into a node, provided that one is counted. -/
def release? (state : Sorting) (id : String) : Option Sorting :=
  if state.count id = 0 then none else some (state.release id)

/-- Takes the first node off the queue, provided that all edges which leave it are
counted. -/
def advance? (neighbours : Neighbours) (edges : List Edge) (state : Sorting) (id : String)
    (rest : List String) : Option Sorting :=
  (neighbours.of edges id).foldlM release? { state with done := state.done ++ [id], ready := rest }

/-- The ordering comes from the one state to the other, in which no node waits, and no
count falls below zero on the way. -/
inductive Drains (neighbours : Neighbours) (edges : List Edge) : Sorting → Sorting → Prop
  | idle {state : Sorting} (none_waits : state.ready = []) : Drains neighbours edges state state
  | round {state next final : Sorting} {id : String} {rest : List String}
      (waiting : state.ready = id :: rest)
      (counted : state.advance? neighbours edges id rest = some next)
      (later : Drains neighbours edges next final) : Drains neighbours edges state final

variable {neighbours : Neighbours} {ids owed : List String} {edges : List Edge} {state : Sorting} {id : String}
  {rest : List String}

/-- An edge that is owed is counted. -/
theorem Sound.release? (sound : Sound ids edges (id :: owed) state) (member : id ∈ ids) :
    state.release? id = some (state.release id) := by
  have counted := sound.counts id member
  rw [List.count_cons_self] at counted
  exact if_neg (by omega)

theorem Sound.releases? (sound : Sound ids edges owed state) (members : ∀ id ∈ owed, id ∈ ids) :
    owed.foldlM Sorting.release? state = some (owed.foldl Sorting.release state) := by
  induction owed generalizing state with
  | nil => rfl
  | cons id rest ih =>
    have here := members id List.mem_cons_self
    rw [List.foldlM_cons, sound.release? here]
    exact ih (sound.release here) fun other later => members other (List.mem_cons_of_mem _ later)

theorem Sound.advance? (sound : Sound ids edges [] state)
    (ends : ∀ edge ∈ edges, edge.target ∈ ids) (waiting : state.ready = id :: rest) :
    state.advance? neighbours edges id rest = some (state.advance neighbours edges id rest) := by
  refine (sound.finish neighbours waiting).releases? fun target owed => ?_
  obtain ⟨edge, drawn, _, rfl⟩ := neighbours.mem_of.mp owed
  exact ends edge drawn

/-- A run from a sound state is a run with counts. -/
theorem Sound.drains (sound : Sound ids edges [] state)
    (ends : ∀ edge ∈ edges, edge.target ∈ ids) :
    Drains neighbours edges state (state.run neighbours edges) := by
  fun_induction Sorting.run neighbours edges state with
  | case1 state idle => exact .idle idle
  | case2 state id rest waiting ih =>
    exact .round waiting (sound.advance? ends waiting) (ih (sound.advance ends waiting))

theorem distinct_append_singleton (front : List String) (last : String) :
    distinct (front ++ [last]) =
      if last ∈ front then distinct front else distinct front ++ [last] := by
  have known : (distinct front).contains last = true ↔ last ∈ front := by
    rw [List.contains_iff_mem, mem_distinct]
  unfold distinct at known ⊢
  rw [List.foldl_append, List.foldl_cons, List.foldl_nil]
  exact if_congr known rfl rfl

/-- Each id once means in the order of the first occurrences. -/
theorem pairwise_distinct (ids : List String) :
    (distinct ids).Pairwise fun a b => ids.idxOf a < ids.idxOf b := by
  induction ids using List.reverseRecOn with
  | nil => exact List.Pairwise.nil
  | append_singleton front last ih =>
    have grown : (distinct front).Pairwise fun a b =>
        (front ++ [last]).idxOf a < (front ++ [last]).idxOf b := by
      refine ih.imp_of_mem fun {a b} first second before => ?_
      rw [List.idxOf_append_of_mem (mem_distinct.mp first),
        List.idxOf_append_of_mem (mem_distinct.mp second)]
      exact before
    rw [distinct_append_singleton]
    split
    · exact grown
    · next fresh =>
      refine List.pairwise_append.mpr ⟨grown, List.pairwise_singleton _ _, ?_⟩
      intro a old b new
      rw [List.mem_singleton.mp new, List.idxOf_append_of_mem (mem_distinct.mp old),
        List.idxOf_append_of_notMem fresh]
      have inside := List.idxOf_lt_length_of_mem (mem_distinct.mp old)
      omega

end Sorting

namespace Schedule

open Sorting (within distinct Drains)

variable {neighbours : Neighbours} {subset : List String} {edges : List Edge}

/-- What a schedule of a subset has to be. -/
structure Exact (neighbours : Neighbours) (subset : List String) (edges : List Edge)
    (schedule : Schedule) : Prop where
  /-- It is what remains of a run in which no count falls below zero. -/
  drained : ∃ final, Drains neighbours (within subset edges)
      (Sorting.start (distinct subset) (within subset edges)) final ∧
    schedule.order = final.done ∧
    schedule.unscheduled = (final.pending.filter fun entry => 0 < entry.2).map (·.1)
  /-- No id stands twice in it, be it in the one list or in both. -/
  once : (schedule.order ++ schedule.unscheduled).Nodup
  covers : ∀ id, id ∈ schedule.order ++ schedule.unscheduled ↔ id ∈ subset
  forward : ∀ edge ∈ edges, edge.source ∈ subset → edge.target ∈ schedule.order →
    ∃ before behind, schedule.order = before ++ edge.target :: behind ∧ edge.source ∈ before
  left_over : ∀ id, id ∈ schedule.unscheduled ↔
    id ∈ subset ∧ BehindCycle (within subset edges) id
  in_turn : schedule.unscheduled.Pairwise fun a b => subset.idxOf a < subset.idxOf b

theorem drains_finalState (neighbours : Neighbours) (subset : List String) (edges : List Edge) :
    Drains neighbours (within (distinct subset) edges)
      (Sorting.start (distinct subset) (within (distinct subset) edges))
      (finalState neighbours subset edges) :=
  (Sorting.sound_start (Sorting.nodup_distinct subset)).drains fun _ member =>
    (Sorting.mem_within.mp member).2.2

theorem not_mem_unscheduled_of_mem_order {id : String}
    (placed : id ∈ (ofEdges neighbours subset edges).order) : id ∉ (ofEdges neighbours subset edges).unscheduled :=
  fun left => (mem_order.mp placed).2 (mem_unscheduled.mp left).2

theorem before_of_sublist {source target : String} {order : List String}
    (pair : [source, target].Sublist order) :
    ∃ before behind, order = before ++ target :: behind ∧ source ∈ before := by
  obtain ⟨front, rest, rfl, inside, later⟩ := List.cons_sublist_iff.mp pair
  obtain ⟨middle, behind, rfl⟩ := List.append_of_mem (List.singleton_sublist.mp later)
  exact ⟨front ++ middle, behind, by rw [List.append_assoc], List.mem_append_left _ inside⟩

/-- Nothing is left over exactly if no cycle runs within the subset. -/
@[simp] theorem isComplete_iff :
    (ofEdges neighbours subset edges).isComplete = true ↔
      ¬ ∃ looped, TransGen (Linked (within subset edges)) looped looped := by
  rw [isComplete, List.isEmpty_iff, List.eq_nil_iff_forall_not_mem]
  constructor
  · rintro none ⟨looped, loop⟩
    obtain ⟨_, ⟨edge, inner, rfl, _⟩, _⟩ := TransGen.head'_iff.mp loop
    refine none edge.source (mem_unscheduled.mpr ⟨(Sorting.mem_within.mp inner).2.1, ?_⟩)
    rw [Sorting.within_distinct]
    exact ⟨edge.source, loop, .refl⟩
  · intro free id left
    obtain ⟨looped, loop, _⟩ := (mem_unscheduled.mp left).2
    rw [Sorting.within_distinct] at loop
    exact free ⟨looped, loop⟩

/-- For any list of ids and any list of edges, and in whichever order the edges that leave a
node are listed, the ordering ends in such a schedule, and it accepts the schedule exactly if
no cycle runs within the subset. -/
theorem ofEdges_exact_and_sorted_iff (neighbours : Neighbours) (subset : List String)
    (edges : List Edge) :
    Exact neighbours subset edges (ofEdges neighbours subset edges) ∧
      ((∃ order, (ofEdges neighbours subset edges).sorted = .ok order) ↔
        ¬ ∃ looped, TransGen (Linked (within subset edges)) looped looped) := by
  refine ⟨?_, ?_⟩
  · constructor
    · have drains := drains_finalState neighbours subset edges
      rw [Sorting.within_distinct] at drains
      exact ⟨finalState neighbours subset edges, drains, rfl, rfl⟩
    · refine List.nodup_append.mpr ⟨nodup_order neighbours subset edges,
        (Sorting.nodup_distinct subset).sublist (unscheduled_sublist neighbours subset edges), ?_⟩
      rintro id placed _ left rfl
      exact not_mem_unscheduled_of_mem_order placed left
    · intro id
      rw [List.mem_append, mem_order, mem_unscheduled, ← and_or_left]
      exact and_iff_left (em' _)
    · intro edge drawn source target
      exact before_of_sublist (ordered drawn source target)
    · intro id
      rw [mem_unscheduled, Sorting.within_distinct]
    · exact (Sorting.pairwise_distinct subset).sublist (unscheduled_sublist neighbours subset edges)
  · rw [← @isComplete_iff neighbours, sorted]
    split <;> simp [*]

-- Two edges run side by side, one runs in a circle and one leaves the subset.
example : ofEdges .newestFirst ["c", "a", "b", "a", "d"] [
    ⟨"1", "a", "b", none, none⟩, ⟨"2", "a", "b", none, none⟩, ⟨"3", "c", "c", none, none⟩,
    ⟨"4", "c", "d", none, none⟩, ⟨"5", "b", "e", none, none⟩] =
      { order := ["a", "b"], unscheduled := ["c", "d"] } := by decide +kernel

end Schedule

end RecipeGraph
