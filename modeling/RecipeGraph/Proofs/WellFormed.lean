import RecipeGraph.Proofs.Merging
import RecipeGraph.Graph
import Mathlib.Data.List.Nodup

/-!
# Well-formed graphs

Edges are checked when they are drawn and never again. That they stay allowed
rests on the outline of the graph, the ids and kinds of its nodes, which little
else than adding and removing nodes can change.
-/

namespace RecipeGraph

theorem lookup_of_mem {entries : List (String × α)} {entry : String × α}
    (once : (entries.map (·.1)).Nodup) (member : entry ∈ entries) :
    entries.lookup entry.1 = some entry.2 := by
  induction entries with
  | nil => cases member
  | cons first rest ih =>
    obtain ⟨apart, later_once⟩ := List.nodup_cons.mp once
    rcases List.mem_cons.mp member with rfl | later
    · exact List.lookup_cons_self
    · have differs : (entry.1 == first.1) = false := by
        refine beq_false_of_ne fun same => apart ?_
        exact List.mem_map.mpr ⟨entry, later, same⟩
      rw [List.lookup_cons, differs]
      exact ih later_once later

namespace Graph

/-- Ids and kinds of the nodes. -/
def outline (graph : Graph) : List (String × NodeKind) :=
  graph.nodes.map fun node => (node.id, node.kind)

def kind? (graph : Graph) (id : String) : Option NodeKind :=
  (graph.node? id).map Node.kind

/-- The edge joins two different nodes, and they may be joined by its handles. -/
def Carries (graph : Graph) (edge : Edge) : Prop :=
  edge.source ≠ edge.target ∧
    ∃ source target, graph.node? edge.source = some source ∧
      graph.node? edge.target = some target ∧
      source.mayFeed target edge.sourceHandle edge.targetHandle = true

/-- Ids are unique, every edge is allowed and names the handle in which it ends,
and no two edges end in the same handle. -/
structure WellFormed (graph : Graph) : Prop where
  nodes_once : graph.ids.Nodup
  edges_once : (graph.edges.map (·.id)).Nodup
  carried : ∀ edge ∈ graph.edges, graph.Carries edge
  handled : ∀ edge ∈ graph.edges, edge.targetHandle.isSome = true
  unshared : (graph.edges.map fun edge => (edge.target, edge.targetHandle)).Nodup

/-- Nodes that are in both graphs are of the same kind in both. -/
def KeepsKinds (before after : Graph) : Prop :=
  ∀ id old new, before.node? id = some old → after.node? id = some new → new.kind = old.kind

theorem id_of_node? {graph : Graph} {id : String} {node : Node}
    (found : graph.node? id = some node) : node.id = id := by
  simpa using List.find?_some found

theorem mem_of_node? {graph : Graph} {id : String} {node : Node}
    (found : graph.node? id = some node) : node ∈ graph.nodes :=
  List.mem_of_find?_eq_some found

theorem contains_iff {graph : Graph} {id : String} :
    graph.contains id = true ↔ ∃ node, graph.node? id = some node := by
  rw [contains, Option.isSome_iff_exists]

theorem node?_isSome_of_mem {graph : Graph} {node : Node} (member : node ∈ graph.nodes) :
    ∃ found, graph.node? node.id = some found := by
  apply Option.isSome_iff_exists.mp
  rw [node?, List.find?_isSome]
  exact ⟨node, member, by simp⟩

theorem node?_of_mem {graph : Graph} {node : Node} (once : graph.ids.Nodup)
    (member : node ∈ graph.nodes) : graph.node? node.id = some node := by
  obtain ⟨found, reached⟩ := node?_isSome_of_mem member
  have same : found = node := List.inj_on_of_nodup_map once (mem_of_node? reached) member
    (id_of_node? reached)
  rw [reached, same]

theorem edge?_of_mem {graph : Graph} {edge : Edge} (once : (graph.edges.map (·.id)).Nodup)
    (member : edge ∈ graph.edges) : graph.edge? edge.id = some edge := by
  have known : (graph.edge? edge.id).isSome = true := by
    rw [edge?, List.find?_isSome]
    exact ⟨edge, member, by simp⟩
  obtain ⟨found, reached⟩ := Option.isSome_iff_exists.mp known
  have same : found = edge := List.inj_on_of_nodup_map once
    (List.mem_of_find?_eq_some reached) member (by simpa using List.find?_some reached)
  rw [reached, same]

theorem kind?_eq_lookup (graph : Graph) (id : String) :
    graph.kind? id = graph.outline.lookup id := by
  unfold kind? node? outline
  induction graph.nodes with
  | nil => rfl
  | cons node rest ih =>
    by_cases same : node.id = id
    · subst same
      simp
    · have differs : (id == node.id) = false := by simpa using Ne.symm same
      simpa [List.find?_cons, List.lookup_cons, same, differs] using ih

theorem ids_eq_outline (graph : Graph) : graph.ids = graph.outline.map (·.1) := by
  simp [ids, outline, Function.comp_def]

theorem carries_of_mayFeed {graph : Graph} {edge : Edge} {source target : Node}
    (sourced : graph.node? edge.source = some source)
    (targeted : graph.node? edge.target = some target)
    (feeds : source.mayFeed target edge.sourceHandle edge.targetHandle = true) :
    graph.Carries edge := by
  refine ⟨?_, source, target, sourced, targeted, feeds⟩
  rw [← id_of_node? sourced, ← id_of_node? targeted]
  exact of_decide_eq_true (Bool.and_eq_true_iff.mp feeds).1

/-- Whether an edge is allowed depends on the kinds of its ends only. -/
theorem carries_iff {graph : Graph} {edge : Edge} :
    graph.Carries edge ↔ edge.source ≠ edge.target ∧
      ∃ source target, graph.kind? edge.source = some source ∧
        graph.kind? edge.target = some target ∧
        target.accepts source edge.sourceHandle edge.targetHandle = true := by
  refine and_congr_right fun apart => ?_
  constructor
  · rintro ⟨source, target, sourced, targeted, feeds⟩
    refine ⟨source.kind, target.kind, ?_, ?_, ?_⟩
    · rw [kind?, sourced, Option.map_some]
    · rw [kind?, targeted, Option.map_some]
    · exact (Bool.and_eq_true_iff.mp feeds).2
  · rintro ⟨_, _, sourced, targeted, feeds⟩
    obtain ⟨source, left, rfl⟩ := Option.map_eq_some_iff.mp sourced
    obtain ⟨target, right, rfl⟩ := Option.map_eq_some_iff.mp targeted
    refine ⟨source, target, left, right, Bool.and_eq_true_iff.mpr ⟨?_, feeds⟩⟩
    rw [id_of_node? left, id_of_node? right]
    exact decide_eq_true apart

theorem Carries.congr {before after : Graph} {edge : Edge} (carries : before.Carries edge)
    (source : after.kind? edge.source = before.kind? edge.source)
    (target : after.kind? edge.target = before.kind? edge.target) : after.Carries edge := by
  rw [carries_iff] at *
  rwa [source, target]

/-- The graph keeps its outline and draws no new edge. -/
structure Thins (before after : Graph) : Prop where
  outline : after.outline = before.outline
  edges : after.edges.Sublist before.edges

namespace Thins

@[simp] theorem refl (graph : Graph) : graph.Thins graph :=
  ⟨rfl, List.Sublist.refl _⟩

theorem trans {first second third : Graph} (left : first.Thins second)
    (right : second.Thins third) : first.Thins third :=
  ⟨right.outline.trans left.outline, right.edges.trans left.edges⟩

theorem kind? {before after : Graph} (thins : before.Thins after) (id : String) :
    after.kind? id = before.kind? id := by
  rw [kind?_eq_lookup, kind?_eq_lookup, thins.outline]

theorem contains {before after : Graph} (thins : before.Thins after) (id : String) :
    after.contains id = before.contains id := by
  have known : ∀ graph : Graph, graph.contains id = (graph.kind? id).isSome :=
    fun _ => Option.isSome_map.symm
  rw [known, thins.kind?, known]

theorem ids {before after : Graph} (thins : before.Thins after) : after.ids = before.ids := by
  rw [ids_eq_outline, ids_eq_outline, thins.outline]

theorem carries {before after : Graph} {edge : Edge} (thins : before.Thins after)
    (carries : before.Carries edge) : after.Carries edge :=
  carries.congr (thins.kind? _) (thins.kind? _)

theorem wellFormed {before after : Graph} (thins : before.Thins after)
    (sound : before.WellFormed) : after.WellFormed where
  nodes_once := thins.ids ▸ sound.nodes_once
  edges_once := sound.edges_once.sublist (thins.edges.map _)
  carried edge member := thins.carries (sound.carried edge (thins.edges.subset member))
  handled edge member := sound.handled edge (thins.edges.subset member)
  unshared := sound.unshared.sublist (thins.edges.map _)

theorem keepsKinds {before after : Graph} (thins : before.Thins after) :
    before.KeepsKinds after := by
  intro id old new was is
  have same := thins.kind? id
  rw [Graph.kind?, Graph.kind?, was, is] at same
  exact Option.some.inj same

end Thins

end Graph

end RecipeGraph
