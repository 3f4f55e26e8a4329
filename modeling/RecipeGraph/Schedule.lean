import RecipeGraph.Failure
import RecipeGraph.Graph

/-!
Ordering nodes so that every edge points forward.

Nodes without an unreleased edge into them wait in a queue. Taking one off
releases the edges that leave it, and a node joins the queue when the last edge
into it is released. Nodes on a cycle, or behind one, are never released. In
which order the edges that leave a node are released is up to whoever lists
them; when nodes are compiled it is the newest edge first.
-/

namespace RecipeGraph

/-- Lists the targets of the edges that leave a node, once for each edge. -/
structure Neighbours where
  of : List Edge → String → List String
  each_once : ∀ edges id,
    (of edges id).Perm ((edges.filter fun edge => edge.source = id).map (·.target))

/-- The newest edge comes first. -/
def Neighbours.newestFirst : Neighbours where
  of edges id := ((edges.filter fun edge => edge.source = id).map (·.target)).reverse
  each_once _ _ := List.reverse_perm _

/-- How far the ordering has come. `pending` counts for every node, in the order
of the subset, the edges into it that are not released. -/
structure Sorting where
  done : List String
  ready : List String
  pending : List (String × Nat)
deriving DecidableEq, Repr

namespace Sorting

/-- Each id once, where it occurs first. -/
def distinct (ids : List String) : List String :=
  ids.foldl (fun seen id => if seen.contains id then seen else seen ++ [id]) []

/-- The edges with both ends in a set of nodes. -/
def within (ids : List String) (edges : List Edge) : List Edge :=
  edges.filter fun edge => ids.contains edge.source && ids.contains edge.target

def inDegree (edges : List Edge) (id : String) : Nat :=
  (edges.filter fun edge => edge.target = id).length

def start (ids : List String) (edges : List Edge) : Sorting where
  done := []
  ready := ids.filter fun id => inDegree edges id = 0
  pending := ids.map fun id => (id, inDegree edges id)

def count (state : Sorting) (id : String) : Nat :=
  (state.pending.lookup id).getD 0

/-- Takes one off the count of a node. -/
def lower (id : String) : List (String × Nat) → List (String × Nat)
  | [] => []
  | (other, n) :: rest =>
    if id = other then (other, n - 1) :: rest else (other, n) :: lower id rest

/-- Releases one edge into a node. A node without such an edge is left alone. -/
def release (state : Sorting) (id : String) : Sorting :=
  match state.count id with
  | 0 => state
  | 1 => { state with ready := state.ready ++ [id], pending := lower id state.pending }
  | _ => { state with pending := lower id state.pending }

/-- Takes the first node off the queue. -/
def advance (neighbours : Neighbours) (edges : List Edge) (state : Sorting) (id : String)
    (rest : List String) : Sorting :=
  (neighbours.of edges id).foldl release { state with done := state.done ++ [id], ready := rest }

def total : List (String × Nat) → Nat
  | [] => 0
  | (_, n) :: rest => n + total rest

/-- Edges to release and nodes to take off the queue. -/
def weight (state : Sorting) : Nat :=
  total state.pending + state.ready.length

@[simp] theorem total_lower {id : String} {pending : List (String × Nat)} {n : Nat}
    (found : pending.lookup id = some (n + 1)) :
    total (lower id pending) + 1 = total pending := by
  induction pending with
  | nil => simp at found
  | cons entry rest ih =>
    obtain ⟨other, m⟩ := entry
    by_cases same : id = other
    · subst same
      rw [List.lookup_cons_self, Option.some.injEq] at found
      simp only [lower, if_true, total]
      omega
    · have differs : (id == other) = false := by simpa using same
      rw [List.lookup_cons, differs] at found
      have := ih found
      simp only [lower, if_neg same, total]
      omega

theorem lookup_of_count {state : Sorting} {id : String} {n : Nat}
    (counted : state.count id = n + 1) : state.pending.lookup id = some (n + 1) := by
  unfold count at counted
  cases found : state.pending.lookup id with
  | none => simp [found] at counted
  | some m => simp [found] at counted; simp [counted]

theorem weight_release (state : Sorting) (id : String) :
    (state.release id).weight ≤ state.weight := by
  unfold release
  split
  · exact Nat.le_refl _
  · next counted =>
    have := total_lower (lookup_of_count counted)
    simp only [weight, List.length_append, List.length_singleton]
    omega
  · next n positive several =>
    obtain ⟨n, counted⟩ : ∃ n, state.count id = n + 1 :=
      Nat.exists_eq_succ_of_ne_zero positive
    have := total_lower (lookup_of_count counted)
    simp only [weight]
    omega

theorem weight_releases (ids : List String) (state : Sorting) :
    (ids.foldl release state).weight ≤ state.weight := by
  induction ids generalizing state with
  | nil => exact Nat.le_refl _
  | cons id rest ih => exact Nat.le_trans (ih _) (weight_release state id)

theorem weight_advance (neighbours : Neighbours) (edges : List Edge) {state : Sorting}
    {id : String} {rest : List String} (waiting : state.ready = id :: rest) :
    (state.advance neighbours edges id rest).weight < state.weight := by
  refine Nat.lt_of_le_of_lt (weight_releases _ _) ?_
  simp [weight, waiting]

/-- Takes nodes off the queue until none waits. -/
def run (neighbours : Neighbours) (edges : List Edge) (state : Sorting) : Sorting :=
  match _h : state.ready with
  | [] => state
  | id :: rest => run neighbours edges (state.advance neighbours edges id rest)
termination_by state.weight
decreasing_by exact weight_advance neighbours edges _h

end Sorting

/-- Nodes in the order in which they were released, and the others in the order
of the subset. -/
structure Schedule where
  order : List String
  unscheduled : List String
deriving DecidableEq, Repr

namespace Schedule

def ofEdges (neighbours : Neighbours) (subset : List String) (edges : List Edge) : Schedule :=
  let ids := Sorting.distinct subset
  let inner := Sorting.within ids edges
  let final := (Sorting.start ids inner).run neighbours inner
  ⟨final.done, (final.pending.filter fun entry => 0 < entry.2).map (·.1)⟩

def isComplete (schedule : Schedule) : Bool :=
  schedule.unscheduled.isEmpty

/-- The order, if it covers the whole subset. -/
def sorted (schedule : Schedule) : Except GraphError (List String) :=
  if schedule.isComplete then .ok schedule.order
  else .error (.cyclicGraph schedule.unscheduled)

end Schedule

/-- Order in which the nodes of a subset are compiled. -/
def Graph.topoSort (graph : Graph) (subset : List String) : Except GraphError (List String) :=
  (Schedule.ofEdges .newestFirst subset graph.edges).sorted

end RecipeGraph
