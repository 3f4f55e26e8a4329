import RecipeGraph.Proofs.Releasing

/-!
# What an order depends on

The queue starts with the roots of a subset, the nodes into which no edge leads from within,
as the subset lists them. Whatever joins the queue later does so when the last edge into it is
released, and which edges are released in a round does not depend on the listing. So two
listings of the same nodes are put in the same order exactly if their roots stand in the same
order, and an order is put in order by leaving it as it is.
-/

namespace RecipeGraph

namespace Sorting

variable {neighbours : Neighbours} {edges : List Edge} {state other : Sorting}

/-- The same nodes are done, wait and are counted. In which order the counts are kept does not
matter. -/
structure Alongside (state other : Sorting) : Prop where
  done : other.done = state.done
  ready : other.ready = state.ready
  counts : ∀ id, other.count id = state.count id

theorem Alongside.release (same : state.Alongside other) (id : String) :
    (state.release id).Alongside (other.release id) := by
  cases counted : state.count id with
  | zero =>
    have counted' : other.count id = 0 := (same.counts id).trans counted
    simpa only [Sorting.release, counted, counted'] using same
  | succ n =>
    have counted' : other.count id = n + 1 := (same.counts id).trans counted
    rw [release_of_count counted, release_of_count counted']
    constructor
    · exact same.done
    · rw [same.ready]
    · intro waiting
      rw [count_lower counted, count_lower counted', same.counts]

theorem Alongside.releases (same : state.Alongside other) (ids : List String) :
    (ids.foldl Sorting.release state).Alongside (ids.foldl Sorting.release other) := by
  induction ids generalizing state other with
  | nil => exact same
  | cons id rest ih => exact ih (same.release id)

theorem Alongside.advance (same : state.Alongside other) (id : String) (rest : List String) :
    (state.advance neighbours edges id rest).Alongside (other.advance neighbours edges id rest) := by
  have finished : Alongside { state with done := state.done ++ [id], ready := rest }
      { other with done := other.done ++ [id], ready := rest } :=
    ⟨congrArg (· ++ [id]) same.done, rfl, same.counts⟩
  exact finished.releases _

theorem Alongside.run (same : state.Alongside other) :
    (state.run neighbours edges).Alongside (other.run neighbours edges) := by
  fun_induction Sorting.run neighbours edges state generalizing other with
  | case1 state idle => rwa [run_of_idle (same.ready.trans idle)]
  | case2 state id rest waiting ih =>
    rw [run_of_waiting (same.ready.trans waiting)]
    exact ih (same.advance id rest)

theorem release_extends (state : Sorting) (id : String) :
    state.done ++ state.ready <+: (state.release id).done ++ (state.release id).ready := by
  unfold release
  split
  · exact List.prefix_refl _
  · rw [← List.append_assoc]
    exact List.prefix_append _ _
  · exact List.prefix_refl _

theorem releases_extend (state : Sorting) (ids : List String) :
    state.done ++ state.ready <+:
      (ids.foldl release state).done ++ (ids.foldl release state).ready := by
  induction ids generalizing state with
  | nil => exact List.prefix_refl _
  | cons id rest ih => exact (release_extends state id).trans (ih _)

/-- What is done and what waits go first in everything that ever will be. -/
theorem run_extends (neighbours : Neighbours) (edges : List Edge) (state : Sorting) :
    state.done ++ state.ready <+:
      (state.run neighbours edges).done ++ (state.run neighbours edges).ready := by
  fun_induction Sorting.run neighbours edges state with
  | case1 state idle => exact List.prefix_refl _
  | case2 state id rest waiting ih =>
    have moved : state.done ++ state.ready = (state.done ++ [id]) ++ rest := by
      rw [waiting, List.append_assoc, List.singleton_append]
    rw [moved]
    exact (releases_extend ⟨state.done ++ [id], rest, state.pending⟩ _).trans ih

/-- Within a subset all edges into a node are counted at the start. -/
@[simp] theorem count_start_within (ids : List String) (edges : List Edge) (id : String) :
    (start ids (within ids edges)).count id = inDegree (within ids edges) id := by
  by_cases member : id ∈ ids
  · exact count_start member
  · have nowhere : inDegree (within ids edges) id = 0 := by
      rw [inDegree, List.length_eq_zero_iff, List.filter_eq_nil_iff]
      intro edge inner
      rw [decide_eq_true_iff]
      rintro rfl
      exact member (mem_within.mp inner).2.2
    have unlisted : (start ids (within ids edges)).pending.lookup id = none := by
      refine List.lookup_eq_none_iff.mpr fun entry listed => bne_iff_ne.mpr ?_
      obtain ⟨node, known, rfl⟩ := List.mem_map.mp listed
      exact fun same => member (same ▸ known)
    rw [nowhere, count, unlisted]
    rfl

end Sorting

namespace Schedule

open Sorting (within distinct)

variable {neighbours : Neighbours} {subset other : List String} {edges : List Edge} {id : String}

/-- No edge leads into the node from within the subset. -/
def IsRoot (subset : List String) (edges : List Edge) (id : String) : Prop :=
  ∀ edge ∈ edges, edge.source ∈ subset → edge.target ≠ id

instance (subset : List String) (edges : List Edge) (id : String) :
    Decidable (IsRoot subset edges id) :=
  inferInstanceAs (Decidable (∀ edge ∈ edges, edge.source ∈ subset → edge.target ≠ id))

/-- The roots among the nodes of a subset, as it lists them. -/
def roots (subset : List String) (edges : List Edge) : List String :=
  (distinct subset).filter fun id => IsRoot subset edges id

/-- Both lists have the roots of the first in the same order, by where each one occurs first. -/
def RootsAlike (subset other : List String) (edges : List Edge) : Prop :=
  ∀ a ∈ subset, ∀ b ∈ subset, IsRoot subset edges a → IsRoot subset edges b →
    (subset.idxOf a < subset.idxOf b ↔ other.idxOf a < other.idxOf b)

instance (subset other : List String) (edges : List Edge) :
    Decidable (RootsAlike subset other edges) :=
  inferInstanceAs (Decidable (∀ a ∈ subset, ∀ b ∈ subset, IsRoot subset edges a →
    IsRoot subset edges b → (subset.idxOf a < subset.idxOf b ↔ other.idxOf a < other.idxOf b)))

@[simp] theorem mem_roots : id ∈ roots subset edges ↔ id ∈ subset ∧ IsRoot subset edges id := by
  rw [roots, List.mem_filter, Sorting.mem_distinct, decide_eq_true_iff]

@[simp]
theorem nodup_roots (subset : List String) (edges : List Edge) : (roots subset edges).Nodup :=
  (Sorting.nodup_distinct subset).filter _

theorem pairwise_roots (subset : List String) (edges : List Edge) :
    (roots subset edges).Pairwise fun a b => subset.idxOf a < subset.idxOf b :=
  (Sorting.pairwise_distinct subset).sublist List.filter_sublist

theorem isRoot_congr (same : ∀ id, id ∈ subset ↔ id ∈ other) :
    IsRoot subset edges id ↔ IsRoot other edges id := by
  simp only [IsRoot, same]

theorem roots_perm (same : ∀ id, id ∈ subset ↔ id ∈ other) :
    (roots subset edges).Perm (roots other edges) := by
  refine (List.perm_ext_iff_of_nodup (nodup_roots _ _) (nodup_roots _ _)).mpr fun id => ?_
  rw [mem_roots, mem_roots, same, isRoot_congr same]

/-- Two ways to rank the ids agree where a list ascends by both. -/
theorem lt_iff_of_pairwise {rank rank' : String → Nat} {ids : List String}
    (ascends : ids.Pairwise fun a b => rank a < rank b)
    (ascends' : ids.Pairwise fun a b => rank' a < rank' b) {a b : String} (listed : a ∈ ids)
    (listed' : b ∈ ids) : rank a < rank b ↔ rank' a < rank' b := by
  induction ids with
  | nil => cases listed
  | cons first rest ih =>
    obtain ⟨below, later⟩ := List.pairwise_cons.mp ascends
    obtain ⟨below', later'⟩ := List.pairwise_cons.mp ascends'
    rcases List.mem_cons.mp listed with rfl | behind
    · rcases List.mem_cons.mp listed' with rfl | behind'
      · exact iff_of_false (Nat.lt_irrefl _) (Nat.lt_irrefl _)
      · exact iff_of_true (below b behind') (below' b behind')
    · rcases List.mem_cons.mp listed' with rfl | behind'
      · exact iff_of_false (Nat.lt_asymm (below a behind)) (Nat.lt_asymm (below' a behind))
      · exact ih later later' behind behind'

/-- Listings of the same nodes have the same list of roots if the one has them as the other
lists them. -/
theorem roots_eq_of_pairwise (same : ∀ id, id ∈ subset ↔ id ∈ other)
    (ascends : (roots subset edges).Pairwise fun a b => other.idxOf a < other.idxOf b) :
    roots subset edges = roots other edges :=
  (roots_perm same).eq_of_pairwise (fun _ _ _ _ less more => (Nat.lt_asymm less more).elim) ascends
    (pairwise_roots other edges)

theorem roots_eq_iff (same : ∀ id, id ∈ subset ↔ id ∈ other) :
    roots subset edges = roots other edges ↔ RootsAlike subset other edges := by
  constructor
  · intro equal a listed b listed' root root'
    have turned := pairwise_roots other edges
    rw [← equal] at turned
    exact lt_iff_of_pairwise (pairwise_roots subset edges) turned (mem_roots.mpr ⟨listed, root⟩)
      (mem_roots.mpr ⟨listed', root'⟩)
  · intro alike
    refine roots_eq_of_pairwise same ((pairwise_roots subset edges).imp_of_mem ?_)
    intro a b first second before
    have known := mem_roots.mp first
    have known' := mem_roots.mp second
    exact (alike a known.1 b known'.1 known.2 known'.2).mp before

/-- The roots are what waits at the start. -/
@[simp] theorem ready_start (subset : List String) (edges : List Edge) :
    (Sorting.start (distinct subset) (within (distinct subset) edges)).ready =
      roots subset edges := by
  refine List.filter_congr fun id listed => ?_
  have member := Sorting.mem_distinct.mp listed
  rw [Bool.eq_iff_iff, decide_eq_true_iff, decide_eq_true_iff, Sorting.within_distinct,
    Sorting.inDegree, List.length_eq_zero_iff, List.filter_eq_nil_iff]
  constructor
  · rintro none edge drawn source rfl
    exact none edge (Sorting.mem_within.mpr ⟨drawn, source, member⟩) (decide_eq_true rfl)
  · intro root edge inner into
    obtain ⟨drawn, source, _⟩ := Sorting.mem_within.mp inner
    exact root edge drawn source (of_decide_eq_true into)

/-- The roots come first in the order. -/
theorem order_extends_roots (neighbours : Neighbours) (subset : List String) (edges : List Edge) :
    roots subset edges <+: (ofEdges neighbours subset edges).order := by
  have first := Sorting.run_extends neighbours (within (distinct subset) edges)
    (Sorting.start (distinct subset) (within (distinct subset) edges))
  have idle := (finalState_sound neighbours subset edges).2
  rw [finalState] at idle
  rw [ready_start, idle, List.append_nil] at first
  exact first

theorem order_eq_of_roots (same : ∀ id, id ∈ subset ↔ id ∈ other)
    (equal : roots subset edges = roots other edges) :
    (ofEdges neighbours subset edges).order = (ofEdges neighbours other edges).order := by
  have inner : within (distinct subset) edges = within (distinct other) edges := by
    rw [Sorting.within_distinct, Sorting.within_distinct, Sorting.within_congr same]
  have starts : (Sorting.start (distinct subset) (within (distinct subset) edges)).Alongside
      (Sorting.start (distinct other) (within (distinct other) edges)) := by
    constructor
    · rfl
    · rw [ready_start, ready_start, equal]
    · intro id
      rw [Sorting.count_start_within, Sorting.count_start_within, inner]
  have ends : (finalState neighbours subset edges).Alongside (finalState neighbours other edges) := by
    unfold finalState
    rw [← inner] at starts ⊢
    exact starts.run
  exact ends.done.symm

/-- The same nodes are left over, as each listing has them. -/
theorem unscheduled_perm (same : ∀ id, id ∈ subset ↔ id ∈ other) :
    (ofEdges neighbours subset edges).unscheduled.Perm (ofEdges neighbours other edges).unscheduled := by
  have once := (Sorting.nodup_distinct subset).sublist (unscheduled_sublist neighbours subset edges)
  have once' := (Sorting.nodup_distinct other).sublist (unscheduled_sublist neighbours other edges)
  refine (List.perm_ext_iff_of_nodup once once').mpr fun id => ?_
  rw [mem_unscheduled, mem_unscheduled, Sorting.within_distinct, Sorting.within_distinct,
    Sorting.within_congr same, same]

/-- Equal orders start with the same roots. -/
theorem roots_eq_of_order (same : ∀ id, id ∈ subset ↔ id ∈ other)
    (equal : (ofEdges neighbours subset edges).order = (ofEdges neighbours other edges).order) :
    roots subset edges = roots other edges := by
  have first := order_extends_roots neighbours subset edges
  rw [equal] at first
  have length : (roots subset edges).length = (roots other edges).length :=
    (roots_perm same).length_eq
  exact (List.prefix_of_prefix_length_le first (order_extends_roots neighbours other edges)
    length.le).eq_of_length
    length

/-- A complete order has the roots of the subset in their order. -/
theorem roots_order (same : ∀ id, id ∈ subset ↔ id ∈ (ofEdges neighbours subset edges).order) :
    roots subset edges = roots (ofEdges neighbours subset edges).order edges := by
  refine roots_eq_of_pairwise same ?_
  have ascends := Sorting.pairwise_distinct (ofEdges neighbours subset edges).order
  rw [Sorting.distinct_eq_self (nodup_order neighbours subset edges)] at ascends
  exact ascends.sublist (order_extends_roots neighbours subset edges).sublist

/-- An order is accepted if it covers the subset. -/
@[simp] theorem sorted_eq_ok {order : List String} :
    (ofEdges neighbours subset edges).sorted = .ok order ↔
      (ofEdges neighbours subset edges).isComplete = true ∧
        order = (ofEdges neighbours subset edges).order := by
  unfold sorted
  split
  · next complete => simp [complete, eq_comm]
  · next partly => simp [partly]

theorem mem_order_of_isComplete (complete : (ofEdges neighbours subset edges).isComplete = true) :
    id ∈ subset ↔ id ∈ (ofEdges neighbours subset edges).order := by
  rw [mem_order, Sorting.within_distinct]
  refine (and_iff_left ?_).symm
  rintro ⟨looped, loop, _⟩
  exact isComplete_iff.mp complete ⟨looped, loop⟩

/-- An order is put in order by leaving it as it is. -/
theorem sorted_again {order : List String}
    (sorted : (ofEdges neighbours subset edges).sorted = .ok order) :
    (ofEdges neighbours order edges).sorted = .ok order := by
  obtain ⟨complete, rfl⟩ := sorted_eq_ok.mp sorted
  have same := fun id => @mem_order_of_isComplete neighbours subset edges id complete
  have complete' := isComplete_iff.mp complete
  rw [Sorting.within_congr same] at complete'
  exact sorted_eq_ok.mpr ⟨isComplete_iff.mpr complete', order_eq_of_roots same (roots_order same)⟩

/-- Listings of the same nodes are put in the same order exactly if they list the roots in the
same order, wherever the edges that leave a node are listed by the edges alone. In any case the
same nodes are left over. An order that covers its subset is put in order by leaving it as it
is. -/
theorem order_eq_iff_rootsAlike_and_sorted_again (neighbours : Neighbours)
    {subset other : List String} (same : ∀ id, id ∈ subset ↔ id ∈ other) (edges : List Edge) :
    ((ofEdges neighbours subset edges).order = (ofEdges neighbours other edges).order ↔
      RootsAlike subset other edges) ∧
    (ofEdges neighbours subset edges).unscheduled.Perm
      (ofEdges neighbours other edges).unscheduled ∧
    ∀ order, (ofEdges neighbours subset edges).sorted = .ok order →
      (ofEdges neighbours order edges).sorted = .ok order := by
  refine ⟨⟨fun equal => ?_, fun alike => ?_⟩, unscheduled_perm same, fun _ => sorted_again⟩
  · exact (roots_eq_iff same).mp (roots_eq_of_order same equal)
  · exact order_eq_of_roots same ((roots_eq_iff same).mpr alike)

/-- Two roots. From the one, two edges run side by side; from the other, one runs into a circle. -/
def spread : List Edge := [
  ⟨"1", "a", "b", none, none⟩, ⟨"2", "a", "b", none, none⟩, ⟨"3", "a", "c", none, none⟩,
  ⟨"4", "r", "d", none, none⟩, ⟨"5", "b", "d", none, none⟩, ⟨"6", "c", "d", none, none⟩,
  ⟨"7", "r", "p", none, none⟩, ⟨"8", "p", "q", none, none⟩, ⟨"9", "q", "p", none, none⟩]

/-- Listings with the roots in the same order are ordered alike, and one with the roots swapped is
not. Without the edge that closes the circle the order covers all nodes. -/
theorem order_eq_iff_spread :
    RootsAlike ["d", "a", "q", "b", "r", "c", "p"] ["p", "a", "c", "r", "a", "q", "b", "d"] spread ∧
    (ofEdges .newestFirst ["d", "a", "q", "b", "r", "c", "p"] spread).order =
      (ofEdges .newestFirst ["p", "a", "c", "r", "a", "q", "b", "d"] spread).order ∧
    (ofEdges .newestFirst ["d", "a", "q", "b", "r", "c", "p"] spread).order ≠
      (ofEdges .newestFirst ["r", "a", "b", "c", "d", "p", "q"] spread).order ∧
    ∃ order, Graph.topoSort ⟨[], spread.take 8⟩ ["d", "a", "q", "b", "r", "c", "p"] = .ok order ∧
      order ≠ ["d", "a", "q", "b", "r", "c", "p"] ∧
      Graph.topoSort ⟨[], spread.take 8⟩ order = .ok order := by
  have same : ∀ id, id ∈ ["d", "a", "q", "b", "r", "c", "p"] ↔
      id ∈ ["p", "a", "c", "r", "a", "q", "b", "d"] := by
    intro id
    simp only [List.mem_cons, List.not_mem_nil, or_false]
    tauto
  have same' : ∀ id, id ∈ ["d", "a", "q", "b", "r", "c", "p"] ↔
      id ∈ ["r", "a", "b", "c", "d", "p", "q"] := by
    intro id
    simp only [List.mem_cons, List.not_mem_nil, or_false]
    tauto
  obtain ⟨alike_iff, _⟩ := order_eq_iff_rootsAlike_and_sorted_again .newestFirst same spread
  obtain ⟨swapped_iff, _⟩ := order_eq_iff_rootsAlike_and_sorted_again .newestFirst same' spread
  obtain ⟨_, _, again⟩ :=
    order_eq_iff_rootsAlike_and_sorted_again .newestFirst same (spread.take 8)
  have alike : RootsAlike ["d", "a", "q", "b", "r", "c", "p"]
      ["p", "a", "c", "r", "a", "q", "b", "d"] spread := by decide +kernel
  have swapped : ¬ RootsAlike ["d", "a", "q", "b", "r", "c", "p"]
      ["r", "a", "b", "c", "d", "p", "q"] spread := by decide +kernel
  have covered : (Graph.topoSort ⟨[], spread.take 8⟩
      ["d", "a", "q", "b", "r", "c", "p"]).toOption = some ["a", "r", "c", "b", "p", "d", "q"] := by
    decide +kernel
  cases sorted : Graph.topoSort ⟨[], spread.take 8⟩ ["d", "a", "q", "b", "r", "c", "p"] with
  | error error =>
    rw [sorted] at covered
    cases covered
  | ok order =>
    rw [sorted] at covered
    cases covered
    exact ⟨alike, alike_iff.mpr alike, fun equal => swapped (swapped_iff.mp equal), _, rfl,
      by decide, again _ sorted⟩

end Schedule

end RecipeGraph
