import RecipeGraph.Proofs.Verdicts

/-!
# Compiling again and in another order

What a compile makes of the nodes is decided by what no compile changes. A second compile
of the same node therefore does nothing new, and compiles of different nodes can be
exchanged.
-/

namespace RecipeGraph

namespace Graph

variable {registry : Registry} {graph : Graph}

/-- A second compile ends in the same way and leaves everything as it is. -/
theorem Obeys.twice {id : String} {result again : Except GraphError CompileReport}
    {after later : Graph} (first : graph.Obeys registry id result after)
    (second : after.Obeys registry id again later) (unique : graph.ids.Nodup) :
    again = result ∧ later = after := by
  have alike := first.resembles.symm
  refine ⟨(alike.decides second.decides).unique first.decides, ?_⟩
  have ids : later.ids = graph.ids := by
    rw [ids_eq_outline, ids_eq_outline, outline_of_blank (second.blank.trans first.blank)]
  apply eq_of_blank second.blank (ids ▸ unique)
  intro member
  obtain ⟨change, touches, left⟩ := first.each member
  obtain ⟨change', touches', left'⟩ := second.each member
  cases (alike.touches touches').unique touches
  rw [left', left, Option.map_map]
  exact Option.map_congr fun node _ => touches.twice node

/-- Which of two nodes is compiled first makes no difference in the end. -/
theorem Obeys.swap {x y : String} {left right forth back : Graph}
    {first second first' second' : Except GraphError CompileReport}
    (leftward : graph.Obeys registry x first left) (forward : left.Obeys registry y second forth)
    (rightward : graph.Obeys registry y first' right)
    (backward : right.Obeys registry x second' back) (unique : graph.ids.Nodup) : forth = back := by
  have blank := forward.blank.trans leftward.blank
  have ids : forth.ids = graph.ids := by
    rw [ids_eq_outline, ids_eq_outline, outline_of_blank blank]
  apply eq_of_blank (blank.trans (backward.blank.trans rightward.blank).symm) (ids ▸ unique)
  intro member
  obtain ⟨change, touches, there⟩ := leftward.each member
  obtain ⟨_, touches', there'⟩ := forward.each member
  obtain ⟨other, others, known⟩ := rightward.each member
  obtain ⟨_, others', known'⟩ := backward.each member
  cases (leftward.resembles.symm.touches touches').unique others
  cases (rightward.resembles.symm.touches others').unique touches
  rw [there', there, known', known, Option.map_map, Option.map_map]
  exact Option.map_congr fun node _ => touches.commute others node

end Graph

namespace Session

variable {registry : Registry} {session : Session} {x y : String}

/-- The sessions hold the same nodes and edges, and the same fingerprints. -/
structure Same (left right : Session) : Prop where
  graph : left.store.toGraph = right.store.toGraph
  fingerprints : ∀ id, left.fingerprint? id = right.fingerprint? id

/-- What is recorded for a node that is looked at depends on that node and on fields and
edges. -/
theorem tracked_congr {left right : Session} (blank : left.store.blank = right.store.blank)
    {id : String} (node : left.store.node? id = right.store.node? id) :
    left.tracked id = right.tracked id := by
  unfold tracked isCompiled current
  rw [node, Fingerprint.capture_of_blank blank]

/-- What compiling a node does to the session. -/
structure Follows (registry : Registry) (session : Session) (id : String)
    (result : Except GraphError CompileReport) (after : Session) : Prop where
  obeys : session.store.Obeys registry id result after.store.toGraph
  frame : ∀ other, other ∉ session.store.ancestry id →
    after.store.node? other = session.store.node? other
  recorded : ∀ other, after.fingerprint? other =
    if other ∈ session.store.ancestry id then after.tracked other else session.fingerprint? other

theorem compile_follows (registry : Registry) (sound : session.store.WellFormed) {id : String}
    (known : session.store.contains id = true) :
    Follows registry session id (session.compile registry id).1
      (session.compile registry id).2 := by
  obtain ⟨after, same, store, _, recorded⟩ := compile_spec registry sound known
  obtain ⟨blank, frame⟩ := Store.compile_frame registry sound (session.store.ancestry id)
  have obeys := Store.compile_obeys registry sound known
  rw [same]
  rw [← store] at blank frame obeys
  exact ⟨obeys, frame, recorded⟩

namespace Follows

variable {result : Except GraphError CompileReport} {after : Session} {id : String}

theorem wellFormed (follows : Follows registry session id result after)
    (sound : session.store.WellFormed) : after.store.WellFormed :=
  Store.wellFormed_of_blank follows.obeys.blank sound

theorem contains (follows : Follows registry session id result after) (other : String) :
    after.store.contains other = session.store.contains other :=
  (Graph.thins_of_blank follows.obeys.blank).contains other

theorem ancestry (follows : Follows registry session id result after) (other : String) :
    after.store.ancestry other = session.store.ancestry other :=
  Graph.ancestry_of_edges (Graph.edges_of_blank follows.obeys.blank) other

theorem twice {again : Except GraphError CompileReport} {later : Session}
    (first : Follows registry session id result after)
    (second : Follows registry after id again later) (sound : session.store.WellFormed) :
    again = result ∧ later.Same after := by
  obtain ⟨results, graphs⟩ := first.obeys.twice second.obeys sound.nodes_once
  refine ⟨results, graphs, fun other => ?_⟩
  rw [second.recorded, first.recorded, first.ancestry]
  split
  · exact tracked_congr (congrArg Graph.blank graphs) (by rw [graphs])
  · rfl

/-- Behind both compiles every node they come to is recorded as it is then. -/
theorem recorded_of_both {second : Except GraphError CompileReport} {later : Session}
    (leftward : Follows registry session x result after)
    (forward : Follows registry after y second later) (other : String) :
    later.fingerprint? other =
      if other ∈ session.store.ancestry x ∨ other ∈ session.store.ancestry y then
        later.tracked other
      else session.fingerprint? other := by
  rw [forward.recorded, leftward.recorded, leftward.ancestry]
  by_cases behind : other ∈ session.store.ancestry y
  · rw [if_pos behind, if_pos (.inr behind)]
  · rw [if_neg behind]
    by_cases ahead : other ∈ session.store.ancestry x
    · have kept := forward.frame other (leftward.ancestry y ▸ behind)
      rw [if_pos ahead, if_pos (.inl ahead), tracked_congr forward.obeys.blank kept]
    · rw [if_neg ahead, if_neg (not_or.mpr ⟨ahead, behind⟩)]

theorem swap {right forth back : Session}
    {second first' second' : Except GraphError CompileReport}
    (leftward : Follows registry session x result after)
    (forward : Follows registry after y second forth)
    (rightward : Follows registry session y first' right)
    (backward : Follows registry right x second' back) (sound : session.store.WellFormed) :
    forth.Same back := by
  have graphs := leftward.obeys.swap forward.obeys rightward.obeys backward.obeys sound.nodes_once
  refine ⟨graphs, fun other => ?_⟩
  rw [leftward.recorded_of_both forward, rightward.recorded_of_both backward]
  exact if_congr or_comm (tracked_congr (congrArg Graph.blank graphs) (by rw [graphs])) rfl

end Follows

/-- With any compilers, compiling a node again ends as it did before and changes nothing,
and of two nodes either can be compiled first. What fails fails both times, and what is
cyclic leaves the nodes alone. -/
theorem compile_again_and_swapped
    (reached : Reached registry (fun _ => True) session)
    (here : session.store.contains x = true) (there : session.store.contains y = true) :
    (((session.compile registry x).2.compile registry x).1 = (session.compile registry x).1 ∧
      ((session.compile registry x).2.compile registry x).2.Same (session.compile registry x).2) ∧
    ((session.compile registry x).2.compile registry y).2.Same
      ((session.compile registry y).2.compile registry x).2 := by
  have sound := reached.wellFormed
  have first := compile_follows registry sound here
  have other := compile_follows registry sound there
  have again := compile_follows registry (first.wellFormed sound) ((first.contains x).trans here)
  have further := compile_follows registry (first.wellFormed sound) ((first.contains y).trans there)
  have back := compile_follows registry (other.wellFormed sound) ((other.contains x).trans here)
  exact ⟨first.twice again sound, first.swap further other back sound⟩

/-- Two products in a row, of which the last lacks a factor. -/
def unfinished : Session := Session.empty.run Registry.standard [
  .load {
    nodes := [
      { id := "v", params := .value (some 4.0) },
      { id := "m", params := .multiply none (some 2.0) },
      { id := "n", params := .multiply none none }]
    edges := [⟨"vm", "v", "m", none, some Handle.a⟩, ⟨"mn", "m", "n", none, some Handle.a⟩] }]

/-- The last product fails twice, and it does not matter whether the first one is compiled
before it or behind it. -/
theorem compile_again_and_swapped_unfinished :
    unfinished.store.contains "n" = true ∧ unfinished.store.contains "m" = true ∧
      (unfinished.compile Registry.standard "n").1.isOk = false ∧
      ((unfinished.compile Registry.standard "n").2.compile Registry.standard "n").1 =
        (unfinished.compile Registry.standard "n").1 ∧
      ((unfinished.compile Registry.standard "n").2.compile Registry.standard "m").2.Same
        ((unfinished.compile Registry.standard "m").2.compile Registry.standard "n").2 := by
  have last : unfinished.store.contains "n" = true := by decide +kernel
  have first : unfinished.store.contains "m" = true := by decide +kernel
  have reached : Reached Registry.standard (fun _ => True) unfinished :=
    Reached.empty.run fun _ _ => trivial
  have same := compile_again_and_swapped reached last first
  exact ⟨last, first, by decide +kernel, same.1.1, same.2⟩

end Session

end RecipeGraph
