import RecipeGraph.Schedule
import RecipeGraph.Proofs.Reachability
import Mathlib.Data.Fintype.Card
import Mathlib.Data.Set.Finite.List

/-!
# What the ordering achieves

The ordering releases the nodes that are not on a cycle or behind one, each
behind all nodes that lead to it. The invariant says what is counted for a node:
the edges into it from nodes that are not done, and those that the current round
still owes it.
-/

namespace RecipeGraph

open Relation (ReflTransGen TransGen)

/-- The node lies on a cycle of the edges or can be reached from one. -/
def BehindCycle (edges : List Edge) (id : String) : Prop :=
  ∃ looped, TransGen (Linked edges) looped looped ∧ ReflTransGen (Linked edges) looped id

/-- The targets that are listed are those of the edges that leave the node. -/
@[simp]
theorem Neighbours.mem_of {neighbours : Neighbours} {edges : List Edge} {id target : String} :
    target ∈ neighbours.of edges id ↔
      ∃ edge ∈ edges, edge.source = id ∧ edge.target = target := by
  rw [(neighbours.each_once edges id).mem_iff, List.mem_map]
  simp [and_assoc]

namespace Sorting

theorem foldl_distinct (ids seen : List String) (once : seen.Nodup) :
    (ids.foldl (fun seen id => if seen.contains id then seen else seen ++ [id]) seen).Nodup ∧
      ∀ id, id ∈ ids.foldl (fun seen id => if seen.contains id then seen else seen ++ [id]) seen ↔
        id ∈ seen ∨ id ∈ ids := by
  induction ids generalizing seen with
  | nil => exact ⟨once, by simp⟩
  | cons first rest ih =>
    rw [List.foldl_cons]
    by_cases old : first ∈ seen
    · rw [if_pos (List.contains_iff_mem.mpr old)]
      refine ⟨(ih seen once).1, fun id => ?_⟩
      rw [(ih seen once).2, List.mem_cons]
      constructor
      · exact fun known => known.imp_right Or.inr
      · rintro (known | rfl | later)
        · exact .inl known
        · exact .inl old
        · exact .inr later
    · rw [if_neg (fun again => old (List.contains_iff_mem.mp again))]
      have longer : (seen ++ [first]).Nodup :=
        List.nodup_append.mpr ⟨once, List.nodup_singleton first, by
          rintro id known _ last rfl
          exact old (List.mem_singleton.mp last ▸ known)⟩
      refine ⟨(ih _ longer).1, fun id => ?_⟩
      rw [(ih _ longer).2, List.mem_append, List.mem_singleton, List.mem_cons, or_assoc]

@[simp] theorem nodup_distinct (ids : List String) : (distinct ids).Nodup :=
  (foldl_distinct ids [] List.nodup_nil).1

@[simp] theorem mem_distinct {ids : List String} {id : String} : id ∈ distinct ids ↔ id ∈ ids := by
  have known := (foldl_distinct ids [] List.nodup_nil).2 id
  simpa [distinct] using known

theorem distinct_perm {ids others : List String} (same : ∀ id, id ∈ ids ↔ id ∈ others) :
    (distinct ids).Perm (distinct others) := by
  refine (List.perm_ext_iff_of_nodup (nodup_distinct ids) (nodup_distinct others)).mpr fun id => ?_
  rw [mem_distinct, mem_distinct, same]

@[simp] theorem distinct_eq_self {ids : List String} (once : ids.Nodup) : distinct ids = ids := by
  have grown : ∀ seen : List String, (seen ++ ids).Nodup →
      ids.foldl (fun seen id => if seen.contains id then seen else seen ++ [id]) seen =
        seen ++ ids := by
    clear once
    induction ids with
    | nil => simp
    | cons first rest ih =>
      intro seen once
      have fresh : first ∉ seen := fun old =>
        (List.nodup_append.mp once).2.2 first old first List.mem_cons_self rfl
      rw [List.foldl_cons, if_neg (fun again => fresh (List.contains_iff_mem.mp again))]
      rw [ih (seen ++ [first]) (by simpa using once)]
      simp
  exact grown [] once

@[simp] theorem mem_within {ids : List String} {edges : List Edge} {edge : Edge} :
    edge ∈ within ids edges ↔ edge ∈ edges ∧ edge.source ∈ ids ∧ edge.target ∈ ids := by
  simp [within]

/-- Number of edges into a node from nodes that are not done. -/
def awaited (edges : List Edge) (done : List String) (id : String) : Nat :=
  edges.countP fun edge => edge.target = id && !done.contains edge.source

@[simp] theorem awaited_nil (edges : List Edge) (id : String) :
    awaited edges [] id = inDegree edges id := by
  simp [awaited, inDegree, List.countP_eq_length_filter]

/-- A node that gets done stops being awaited by the targets of its edges. -/
theorem awaited_append {done : List String} {finished : String} (fresh : finished ∉ done)
    (neighbours : Neighbours) (edges : List Edge) (id : String) :
    awaited edges done id =
      awaited edges (done ++ [finished]) id + (neighbours.of edges finished).count id := by
  have counted : (neighbours.of edges finished).count id =
      edges.countP fun edge => edge.source = finished && edge.target = id := by
    rw [(neighbours.each_once edges finished).count_eq, List.count, List.countP_map,
      List.countP_filter]
    refine List.countP_congr fun edge _ => ?_
    simp [and_comm]
  rw [counted]
  unfold awaited
  clear counted
  induction edges with
  | nil => rfl
  | cons edge rest ih =>
    rw [List.countP_cons, List.countP_cons, List.countP_cons, ih]
    by_cases here : edge.source = finished
    · by_cases into : edge.target = id <;> simp [here, fresh, into]
      omega
    · simp [here]
      omega

@[simp] theorem awaited_eq_zero {edges : List Edge} {done : List String} {id : String} :
    awaited edges done id = 0 ↔ ∀ source, Linked edges source id → source ∈ done := by
  unfold awaited
  rw [List.countP_eq_zero]
  constructor
  · rintro none source ⟨edge, member, rfl, into⟩
    simpa [into] using none edge member
  · intro all edge member
    simpa using fun into => all edge.source ⟨edge, member, rfl, into⟩

@[simp] theorem lookup_lower (id other : String) (pending : List (String × Nat)) :
    (lower id pending).lookup other =
      if other = id then (pending.lookup other).map (· - 1) else pending.lookup other := by
  induction pending with
  | nil => simp [lower]
  | cons entry rest ih =>
    obtain ⟨key, n⟩ := entry
    unfold lower
    by_cases here : id = key
    · subst here
      by_cases same : other = id
      · subst same
        simp
      · have differs : (other == id) = false := by simpa using same
        simp [List.lookup_cons, differs, same]
    · rw [if_neg here, List.lookup_cons, List.lookup_cons, ih]
      by_cases same : other = key
      · subst same
        simp [Ne.symm here]
      · have differs : (other == key) = false := by simpa using same
        simp [differs]

@[simp] theorem keys_lower (id : String) (pending : List (String × Nat)) :
    (lower id pending).map (·.1) = pending.map (·.1) := by
  induction pending with
  | nil => rfl
  | cons entry rest ih =>
    obtain ⟨key, n⟩ := entry
    unfold lower
    split
    · rfl
    · rw [List.map_cons, List.map_cons, ih]

/-- What releasing an edge into a node does while one is counted. -/
theorem release_of_count {state : Sorting} {id : String} {n : Nat}
    (counted : state.count id = n + 1) :
    state.release id = { state with
      ready := if n = 0 then state.ready ++ [id] else state.ready
      pending := lower id state.pending } := by
  unfold release
  cases n with
  | zero => simp [counted]
  | succ n => simp [counted]

theorem count_lower {state : Sorting} {id : String} {n : Nat} (counted : state.count id = n + 1)
    (ready : List String) (other : String) :
    count ⟨state.done, ready, lower id state.pending⟩ other =
      if other = id then n else state.count other := by
  unfold count
  rw [lookup_lower]
  split
  · next same =>
    rw [same, lookup_of_count counted]
    simp
  · rfl

/-- How the parts of a state belong together while the round owes the nodes of
`owed` one release each. -/
structure Sound (ids : List String) (edges : List Edge) (owed : List String)
    (state : Sorting) : Prop where
  keys : state.pending.map (·.1) = ids
  once : (state.done ++ state.ready).Nodup
  counts : ∀ id ∈ ids, state.count id = awaited edges state.done id + owed.count id
  released : ∀ id, id ∈ state.done ++ state.ready ↔ id ∈ ids ∧ state.count id = 0
  ordered : ∀ edge ∈ edges, edge.target ∈ state.done →
    [edge.source, edge.target].Sublist state.done
  grounded : ∀ id ∈ state.done, Acc (Linked edges) id

variable {neighbours : Neighbours} {ids : List String} {edges : List Edge}

@[simp] theorem count_start {id : String} (member : id ∈ ids) :
    (start ids edges).count id = inDegree edges id := by
  unfold count start
  induction ids with
  | nil => cases member
  | cons first rest ih =>
    rw [List.map_cons, List.lookup_cons]
    by_cases same : id = first
    · simp [same]
    · have differs : (id == first) = false := by simpa using same
      rw [differs]
      exact ih ((List.mem_cons.mp member).resolve_left same)

theorem sound_start (once : ids.Nodup) : Sound ids edges [] (start ids edges) where
  keys := by simp [start, Function.comp_def]
  once := once.sublist List.filter_sublist
  counts id member := by
    rw [count_start member]
    exact (awaited_nil edges id).symm
  released id := by
    constructor
    · intro waiting
      have found := List.mem_filter.mp (show id ∈ ids.filter _ from waiting)
      refine ⟨found.1, ?_⟩
      rw [count_start found.1]
      simpa using found.2
    · rintro ⟨member, none⟩
      rw [count_start member] at none
      exact List.mem_filter.mpr ⟨member, by simpa using none⟩
  ordered _ _ done := nomatch done
  grounded _ done := nomatch done

/-- Releasing an edge that is owed. -/
theorem Sound.release {state : Sorting} {id : String} {owed : List String}
    (sound : Sound ids edges (id :: owed) state) (member : id ∈ ids) :
    Sound ids edges owed (state.release id) := by
  obtain ⟨n, counted⟩ : ∃ n, state.count id = n + 1 := by
    refine ⟨awaited edges state.done id + owed.count id, ?_⟩
    rw [sound.counts id member, List.count_cons_self]
    omega
  have waits : id ∉ state.done ++ state.ready := by
    intro released
    have none := ((sound.released id).mp released).2
    omega
  have grown : ∀ other,
      other ∈ state.done ++ (if n = 0 then state.ready ++ [id] else state.ready) ↔
        other ∈ state.done ++ state.ready ∨ n = 0 ∧ other = id := by
    intro other
    split <;> simp [*, or_assoc]
  rw [release_of_count counted]
  constructor
  · exact (keys_lower _ _).trans sound.keys
  · by_cases last : n = 0
    · rw [if_pos last]
      change (state.done ++ (state.ready ++ [id])).Nodup
      rw [← List.append_assoc, List.nodup_append]
      refine ⟨sound.once, List.nodup_singleton id, ?_⟩
      rintro other released _ this rfl
      exact waits (List.mem_singleton.mp this ▸ released)
    · rw [if_neg last]
      exact sound.once
  · intro other known
    rw [count_lower counted]
    have before := sound.counts other known
    split
    · next same =>
      subst same
      rw [List.count_cons_self] at before
      change n = awaited edges state.done other + _
      omega
    · next apart =>
      rw [before, List.count_cons_of_ne (Ne.symm apart)]
  · intro other
    rw [count_lower counted, grown, sound.released other]
    by_cases same : other = id
    · subst same
      rw [if_pos rfl]
      constructor
      · rintro (⟨_, none⟩ | ⟨last, _⟩)
        · omega
        · exact ⟨member, last⟩
      · rintro ⟨_, last⟩
        exact .inr ⟨last, rfl⟩
    · simp [same]
  · exact sound.ordered
  · exact sound.grounded

theorem Sound.releases {state : Sorting} {owed : List String}
    (sound : Sound ids edges owed state) (members : ∀ id ∈ owed, id ∈ ids) :
    Sound ids edges [] (owed.foldl Sorting.release state) := by
  induction owed generalizing state with
  | nil => exact sound
  | cons id rest ih =>
    exact ih (sound.release (members id List.mem_cons_self))
      fun other later => members other (List.mem_cons_of_mem _ later)

/-- Taking a node off the queue makes it done and owes its targets a release. -/
theorem Sound.finish (neighbours : Neighbours) {state : Sorting} {id : String} {rest : List String}
    (sound : Sound ids edges [] state) (waiting : state.ready = id :: rest) :
    Sound ids edges (neighbours.of edges id)
      { state with done := state.done ++ [id], ready := rest } := by
  have same : (state.done ++ [id]) ++ rest = state.done ++ state.ready := by
    rw [waiting, List.append_assoc, List.singleton_append]
  have fresh : id ∉ state.done := by
    have once := sound.once
    rw [waiting] at once
    exact fun done => (List.nodup_append.mp once).2.2 id done id List.mem_cons_self rfl
  have due := (sound.released id).mp
    (List.mem_append_right _ (waiting ▸ List.mem_cons_self))
  have sources : ∀ source, Linked edges source id → source ∈ state.done := by
    have counted := sound.counts id due.1
    rw [due.2, List.count_nil, Nat.add_zero] at counted
    exact awaited_eq_zero.mp counted.symm
  constructor
  · exact sound.keys
  · exact same ▸ sound.once
  · intro other known
    have counted := sound.counts other known
    rw [List.count_nil, Nat.add_zero, awaited_append fresh neighbours] at counted
    exact counted
  · intro other
    rw [same]
    exact sound.released other
  · intro edge member done
    rcases List.mem_append.mp done with old | new
    · exact (sound.ordered edge member old).trans (List.sublist_append_left _ _)
    · rw [List.mem_singleton.mp new]
      have before := sources edge.source ⟨edge, member, rfl, List.mem_singleton.mp new⟩
      exact (List.singleton_sublist.mpr before).append (List.Sublist.refl [id])
  · intro other done
    rcases List.mem_append.mp done with old | new
    · exact sound.grounded other old
    · rw [List.mem_singleton.mp new]
      exact Acc.intro id fun source linked => sound.grounded source (sources source linked)

theorem Sound.advance (ends : ∀ edge ∈ edges, edge.target ∈ ids) {state : Sorting} {id : String}
    {rest : List String} (sound : Sound ids edges [] state) (waiting : state.ready = id :: rest) :
    Sound ids edges [] (state.advance neighbours edges id rest) := by
  refine (sound.finish neighbours waiting).releases fun target owed => ?_
  obtain ⟨edge, drawn, _, rfl⟩ := neighbours.mem_of.mp owed
  exact ends edge drawn

@[simp] theorem run_of_idle {edges : List Edge} {state : Sorting} (idle : state.ready = []) :
    run neighbours edges state = state := by
  rw [run.eq_def]
  split
  · rfl
  · next waiting =>
    rw [idle] at waiting
    cases waiting

theorem run_of_waiting {edges : List Edge} {state : Sorting} {id : String} {rest : List String}
    (waiting : state.ready = id :: rest) :
    run neighbours edges state =
      run neighbours edges (state.advance neighbours edges id rest) := by
  rw [run.eq_def]
  split
  · next idle =>
    rw [idle] at waiting
    cases waiting
  · next found =>
    rw [waiting] at found
    cases found
    rfl

theorem Sound.run (ends : ∀ edge ∈ edges, edge.target ∈ ids) {state : Sorting}
    (sound : Sound ids edges [] state) :
    Sound ids edges [] (state.run neighbours edges) ∧
      (state.run neighbours edges).ready = [] := by
  fun_induction Sorting.run neighbours edges state with
  | case1 state idle => exact ⟨sound, idle⟩
  | case2 state id rest waiting ih => exact ih (sound.advance ends waiting)

/-- When no node waits any more, the nodes done are those that no infinite walk
backwards starts from. -/
theorem Sound.mem_done_iff {state : Sorting} (sound : Sound ids edges [] state)
    (idle : state.ready = []) (ends : ∀ edge ∈ edges, edge.source ∈ ids) {id : String} :
    id ∈ state.done ↔ id ∈ ids ∧ Acc (Linked edges) id := by
  have released := sound.released
  rw [idle, List.append_nil] at released
  constructor
  · intro done
    exact ⟨((released id).mp done).1, sound.grounded id done⟩
  · rintro ⟨member, grounded⟩
    induction grounded with
    | intro id _ ih =>
      refine (released id).mpr ⟨member, ?_⟩
      rw [sound.counts id member, List.count_nil, Nat.add_zero, awaited_eq_zero]
      rintro source ⟨edge, drawn, rfl, into⟩
      exact ih edge.source ⟨edge, drawn, rfl, into⟩ (ends edge drawn)

end Sorting

theorem not_acc_of_behindCycle {edges : List Edge} {id : String} (behind : BehindCycle edges id) :
    ¬ Acc (Linked edges) id := by
  obtain ⟨looped, loop, reaches⟩ := behind
  intro grounded
  have start : Acc (TransGen (Linked edges)) looped := by
    rcases Relation.reflTransGen_iff_eq_or_transGen.mp reaches with same | further
    · exact (same ▸ grounded).transGen
    · exact (grounded.inv_of_transGen further).transGen
  clear reaches grounded
  induction start with
  | intro looped _ ih => exact ih looped loop loop

/-- In a finite graph an endless walk backwards comes through a cycle. -/
theorem acc_of_not_behindCycle {edges : List Edge} {id : String}
    (free : ¬ BehindCycle edges id) : Acc (Linked edges) id := by
  let Before : Type := { source // source ∈ edges.map (·.source) ∧
    TransGen (Linked edges) source id }
  have : Finite Before := by
    refine Set.Finite.to_subtype ((List.finite_toSet (edges.map (·.source))).subset ?_)
    exact fun source member => member.1
  let Leads : Before → Before → Prop := fun left right => TransGen (Linked edges) left.1 right.1
  have : IsTrans Before Leads := ⟨fun _ _ _ => TransGen.trans⟩
  have : Std.Irrefl Leads :=
    ⟨fun member loop => free ⟨member.1, loop, member.2.2.to_reflTransGen⟩⟩
  have founded : WellFounded Leads := Finite.wellFounded_of_trans_of_irrefl Leads
  have known : ∀ {source target}, Linked edges source target → source ∈ edges.map (·.source) := by
    rintro _ _ ⟨edge, drawn, rfl, _⟩
    exact List.mem_map_of_mem drawn
  have grounded : ∀ member : Before, Acc (Linked edges) member.1 := by
    intro member
    induction member using founded.induction with
    | h member ih =>
      refine Acc.intro _ fun source linked => ?_
      exact ih ⟨source, known linked, .head linked member.2.2⟩ (.single linked)
  exact Acc.intro _ fun source linked => grounded ⟨source, known linked, .single linked⟩

theorem acc_iff_not_behindCycle {edges : List Edge} {id : String} :
    Acc (Linked edges) id ↔ ¬ BehindCycle edges id :=
  ⟨fun grounded behind => not_acc_of_behindCycle behind grounded, acc_of_not_behindCycle⟩

namespace Schedule

open Sorting (within distinct Sound)

variable {neighbours : Neighbours} {subset : List String} {edges : List Edge}

/-- The state in which the ordering of a subset ends. -/
def finalState (neighbours : Neighbours) (subset : List String) (edges : List Edge) : Sorting :=
  (Sorting.start (distinct subset) (within (distinct subset) edges)).run neighbours
    (within (distinct subset) edges)

theorem finalState_sound (neighbours : Neighbours) (subset : List String) (edges : List Edge) :
    Sound (distinct subset) (within (distinct subset) edges) []
        (finalState neighbours subset edges) ∧
      (finalState neighbours subset edges).ready = [] :=
  (Sorting.sound_start (Sorting.nodup_distinct subset)).run fun _ member =>
    (Sorting.mem_within.mp member).2.2

@[simp] theorem nodup_order (neighbours : Neighbours) (subset : List String) (edges : List Edge) :
    (ofEdges neighbours subset edges).order.Nodup := by
  have once := (finalState_sound neighbours subset edges).1.once
  exact once.sublist (List.sublist_append_left _ _)

/-- A node gets its place in the order unless it is behind a cycle of the subset. -/
@[simp] theorem mem_order {id : String} :
    id ∈ (ofEdges neighbours subset edges).order ↔
      id ∈ subset ∧ ¬ BehindCycle (within (distinct subset) edges) id := by
  obtain ⟨sound, idle⟩ := finalState_sound neighbours subset edges
  have ends : ∀ edge ∈ within (distinct subset) edges, edge.source ∈ distinct subset :=
    fun _ member => (Sorting.mem_within.mp member).2.1
  apply (sound.mem_done_iff idle ends).trans
  rw [Sorting.mem_distinct, acc_iff_not_behindCycle]

/-- Every edge of the subset points forward in the order. -/
theorem ordered {edge : Edge} (drawn : edge ∈ edges) (source : edge.source ∈ subset)
    (target : edge.target ∈ (ofEdges neighbours subset edges).order) :
    [edge.source, edge.target].Sublist (ofEdges neighbours subset edges).order := by
  refine (finalState_sound neighbours subset edges).1.ordered edge ?_ target
  refine Sorting.mem_within.mpr ⟨drawn, ?_, ?_⟩
  · exact Sorting.mem_distinct.mpr source
  · exact Sorting.mem_distinct.mpr (mem_order.mp target).1

/-- What is left over keeps the order of the subset. -/
@[simp]
theorem unscheduled_sublist (neighbours : Neighbours) (subset : List String) (edges : List Edge) :
    (ofEdges neighbours subset edges).unscheduled.Sublist (distinct subset) := by
  rw [← (finalState_sound neighbours subset edges).1.keys]
  exact List.filter_sublist.map _

theorem mem_unscheduled_iff_count {id : String} :
    id ∈ (ofEdges neighbours subset edges).unscheduled ↔
      id ∈ distinct subset ∧ (finalState neighbours subset edges).count id ≠ 0 := by
  have keys := (finalState_sound neighbours subset edges).1.keys
  have once : ((finalState neighbours subset edges).pending.map (·.1)).Nodup :=
    keys ▸ Sorting.nodup_distinct subset
  unfold Sorting.count
  constructor
  · intro left
    obtain ⟨entry, kept, rfl⟩ := List.mem_map.mp left
    have member := List.mem_filter.mp kept
    refine ⟨keys ▸ List.mem_map_of_mem member.1, ?_⟩
    rw [lookup_of_mem once member.1]
    exact Nat.ne_of_gt (of_decide_eq_true member.2)
  · rintro ⟨member, counted⟩
    rw [← keys] at member
    obtain ⟨entry, stored, rfl⟩ := List.mem_map.mp member
    rw [lookup_of_mem once stored] at counted
    refine List.mem_map_of_mem (List.mem_filter.mpr ⟨stored, ?_⟩)
    exact decide_eq_true (Nat.pos_of_ne_zero counted)

/-- What is left over is what lies on a cycle of the subset or behind one. -/
@[simp] theorem mem_unscheduled {id : String} :
    id ∈ (ofEdges neighbours subset edges).unscheduled ↔
      id ∈ subset ∧ BehindCycle (within (distinct subset) edges) id := by
  have final := finalState_sound neighbours subset edges
  have released := final.1.released id
  have done : id ∈ (finalState neighbours subset edges).done ↔ _ := mem_order
  rw [final.2, List.append_nil, done] at released
  rw [mem_unscheduled_iff_count]
  constructor
  · rintro ⟨member, counted⟩
    refine ⟨Sorting.mem_distinct.mp member, ?_⟩
    apply Classical.byContradiction
    intro free
    exact counted (released.mp ⟨Sorting.mem_distinct.mp member, free⟩).2
  · rintro ⟨member, behind⟩
    refine ⟨Sorting.mem_distinct.mpr member, fun counted => ?_⟩
    exact (released.mpr ⟨Sorting.mem_distinct.mpr member, counted⟩).2 behind

end Schedule

theorem Sorting.within_congr {ids others : List String} (same : ∀ id, id ∈ ids ↔ id ∈ others)
    (edges : List Edge) : within ids edges = within others edges := by
  refine List.filter_congr fun edge _ => ?_
  have known : ∀ id, ids.contains id = others.contains id := by
    intro id
    rw [Bool.eq_iff_iff, List.contains_iff_mem, List.contains_iff_mem, same]
  rw [known, known]

@[simp] theorem Sorting.within_distinct (ids : List String) (edges : List Edge) :
    within (distinct ids) edges = within ids edges :=
  within_congr (fun _ => mem_distinct) edges

namespace Graph

variable {graph : Graph} {subset others : List String}

/-- A cycle of edges runs within the subset. -/
def Loops (graph : Graph) (subset : List String) : Prop :=
  ∃ looped, TransGen (Linked (Sorting.within subset graph.edges)) looped looped

theorem loops_congr (same : ∀ id, id ∈ subset ↔ id ∈ others) (loops : graph.Loops subset) :
    graph.Loops others := by
  rw [Loops, Sorting.within_congr same] at loops
  exact loops

theorem order_of_topoSort {order : List String} (sorted : graph.topoSort subset = .ok order) :
    order = (Schedule.ofEdges .newestFirst subset graph.edges).order := by
  rw [topoSort, Schedule.sorted] at sorted
  split at sorted
  · exact (Except.ok.inj sorted).symm
  · cases sorted

/-- With a cycle the ordering gives up and names all nodes on or behind one. -/
theorem topoSort_of_loops (loops : graph.Loops subset) :
    ∃ ids, graph.topoSort subset = .error (.cyclicGraph ids) ∧
      ids.Sublist (Sorting.distinct subset) ∧
      ∀ id, id ∈ ids ↔ id ∈ subset ∧ BehindCycle (Sorting.within subset graph.edges) id := by
  have listed : ∀ id, id ∈ (Schedule.ofEdges .newestFirst subset graph.edges).unscheduled ↔
      id ∈ subset ∧ BehindCycle (Sorting.within subset graph.edges) id := by
    intro id
    rw [Schedule.mem_unscheduled, Sorting.within_distinct]
  refine ⟨_, ?_, Schedule.unscheduled_sublist _ subset graph.edges, listed⟩
  obtain ⟨looped, loop⟩ := loops
  have member : looped ∈ subset := by
    obtain ⟨next, ⟨edge, inner, rfl, _⟩, _⟩ := TransGen.head'_iff.mp loop
    exact (Sorting.mem_within.mp inner).2.1
  have left := (listed looped).mpr ⟨member, looped, loop, .refl⟩
  have incomplete : (Schedule.ofEdges .newestFirst subset graph.edges).isComplete ≠ true := by
    intro complete
    rw [List.isEmpty_iff.mp complete] at left
    cases left
  rw [topoSort, Schedule.sorted, if_neg incomplete]

/-- Without a cycle the subset is ordered, each id once. -/
theorem topoSort_of_loopless (free : ¬ graph.Loops subset) :
    graph.topoSort subset = .ok (Schedule.ofEdges .newestFirst subset graph.edges).order ∧
      (Schedule.ofEdges .newestFirst subset graph.edges).order.Perm (Sorting.distinct subset) := by
  have nowhere : ∀ id, ¬ BehindCycle (Sorting.within (Sorting.distinct subset) graph.edges) id := by
    rintro id ⟨looped, loop, _⟩
    rw [Sorting.within_distinct] at loop
    exact free ⟨looped, loop⟩
  have complete : (Schedule.ofEdges .newestFirst subset graph.edges).isComplete = true := by
    refine List.isEmpty_iff.mpr (List.eq_nil_iff_forall_not_mem.mpr fun id left => ?_)
    exact nowhere id (Schedule.mem_unscheduled.mp left).2
  refine ⟨by rw [topoSort, Schedule.sorted, if_pos complete], ?_⟩
  refine (List.perm_ext_iff_of_nodup (Schedule.nodup_order _ _ _) (Sorting.nodup_distinct _)).mpr ?_
  intro id
  rw [Schedule.mem_order, Sorting.mem_distinct]
  exact and_iff_left (nowhere id)

end Graph

end RecipeGraph
