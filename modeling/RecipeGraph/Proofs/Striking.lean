import RecipeGraph.Proofs.Lasting
import RecipeGraph.Proofs.Rewiring

/-!
# What an edit strikes

An edit of a node can be told from the fingerprint of the node, and it does nothing to nodes
that do not depend on the node. So the fingerprints in which it shows are those of the nodes
that depend on the edited one.
-/

namespace RecipeGraph

namespace Graph.Matches

variable {left right : Graph} {id : String}

/-- Where graphs match, none of the edges that count has gone, unless another has come in
its place. -/
theorem keeps (same : left.Matches right id) {edge : Edge} {keep : Edge → Bool}
    {added : List Edge} (edges : right.edges = left.edges.filter keep ++ added)
    (drawn : edge ∈ left.edges) (listed : edge.target ∈ left.ancestry id)
    (elsewhere : ∀ other ∈ added, other.target ≠ edge.target) : keep edge = true := by
  have kept : right.inbound edge.target = (left.inbound edge.target).filter keep := by
    have none : added.filter (fun other => other.target = edge.target) = [] :=
      List.filter_eq_nil_iff.mpr fun other member => by simpa using elsewhere other member
    rw [Graph.inbound, Graph.inbound, edges, List.filter_append, none, List.append_nil,
      List.filter_filter, List.filter_filter]
    exact List.filter_congr fun other _ => Bool.and_comm _ _
  have lengths := congrArg List.length (same.ends listed)
  rw [Graph.ends, Graph.ends, List.length_map, List.length_map, kept] at lengths
  refine List.length_filter_eq_length_iff.mp lengths edge (List.mem_filter.mpr ⟨drawn, ?_⟩)
  simp

theorem exists_node (same : left.Matches right id) {member : String}
    (listed : member ∈ left.ancestry id) : ∃ node, right.node? member = some node := by
  obtain ⟨_, node, _, found, _⟩ := same.fields member listed
  exact ⟨node, found⟩

end Graph.Matches

namespace Graph

/-- The second graph comes from an edit of this node in the first: it can be told from the
node, and none of the nodes that do not depend on the node have been touched, nor have the
edges into them. -/
structure StruckAt (before : Graph) (struck : String) (after : Graph) : Prop where
  told : ¬ before.Matches after struck
  spared : ∀ id, struck ∉ before.ancestry id → after.node? id = before.node? id
  cut : ∃ keep, after.edges = before.edges.filter keep ∧
    ∀ edge ∈ before.edges, keep edge = false → struck ∈ before.ancestry edge.target

variable {before after : Graph} {struck id : String}

namespace StruckAt

theorem not_mem_of_matches (edit : before.StruckAt struck after) (same : before.Matches after id) :
    struck ∉ before.ancestry id :=
  fun listed => edit.told (same.upstream listed)

/-- What a node depends on that does not depend on the edited one is as it was. -/
theorem node?_upstream (edit : before.StruckAt struck after) (away : struck ∉ before.ancestry id)
    {member : String} (listed : member ∈ before.ancestry id) :
    after.node? member = before.node? member :=
  edit.spared member fun above => away (ancestry_subset listed above)

/-- What matched before the edit matches behind it where the edit is not felt. -/
theorem matches_of_not_mem (edit : before.StruckAt struck after) (same : before.Matches before id)
    (away : struck ∉ before.ancestry id) : before.Matches after id where
  edges := by
    obtain ⟨keep, edges, lost⟩ := edit.cut
    rw [edges, List.filter_filter, feeding]
    refine congrArg (List.map Edge.connection) (List.filter_congr fun edge drawn => ?_)
    by_cases into : edge.target ∈ before.ancestry id
    · have kept : keep edge = true := by
        by_contra gone
        have above := lost edge drawn (Bool.eq_false_iff.mpr gone)
        exact away (ancestry_subset into above)
      rw [kept, Bool.and_true]
    · simp [into]
  fields member listed := by
    obtain ⟨node, node', found, found', equal⟩ := same.fields member listed
    exact ⟨node, node', found, (edit.node?_upstream away listed).trans found', equal⟩

/-- An edit of a node shows in the fingerprints of the nodes that depend on it, if they
matched before. -/
theorem matches_iff (edit : before.StruckAt struck after) (same : before.Matches before id) :
    before.Matches after id ↔ struck ∉ before.ancestry id :=
  ⟨edit.not_mem_of_matches, edit.matches_of_not_mem same⟩

/-- Where a fingerprint matches, the edit has not touched what the node depends on. -/
theorem node?_of_matches (edit : before.StruckAt struck after) (same : before.Matches after id)
    {member : String} (listed : member ∈ before.ancestry id) :
    after.node? member = before.node? member :=
  edit.node?_upstream (edit.not_mem_of_matches same) listed

end StruckAt

theorem source_mem_ancestry {edge : Edge} (drawn : edge ∈ before.edges) :
    edge.source ∈ before.ancestry edge.target :=
  mem_ancestry_of_feeds ⟨edge, drawn, rfl, rfl⟩ (mem_ancestry_self _ _)

end Graph

namespace Store

variable {store after : Store} {id : String}

/-- A node hands nothing on to itself. -/
@[simp]
theorem node?_updated_self (sound : store.WellFormed) {patch : NodePatch} {node patched : Node}
    (found : store.node? id = some node) (fits : node.patched patch = .ok patched) :
    (store.updateNode id patch).2.node? id = some patched := by
  have named : patched.id = id := (Node.patched_ok fits).id.trans (Graph.id_of_node? found)
  rw [node?_updated found fits, if_pos rfl, Option.map_some, Node.hear_of_calm]
  rintro edge leaves ⟨into, _⟩
  obtain ⟨_, drawn, source⟩ := mem_outlets.mp leaves
  exact (sound.carried edge drawn).1 (source.trans (into.trans named).symm)

theorem struckAt_updateNode (sound : store.WellFormed) {patch : NodePatch} {node patched : Node}
    (found : store.node? id = some node) (fits : node.patched patch = .ok patched)
    (changed : (node.params == patched.params) = false) :
    store.StruckAt id (store.updateNode id patch).2.toGraph where
  told same := by
    obtain ⟨old, new, there, here, params⟩ := same.fields id (Graph.mem_ancestry_self _ id)
    cases found.symm.trans there
    cases (node?_updated_self sound found fits).symm.trans here
    rw [changed] at params
    cases params
  spared member away := by
    have apart : member ≠ id := by
      rintro rfl
      exact away (Graph.mem_ancestry_self _ _)
    rw [node?_updated found fits, if_neg apart]
    cases there : store.node? member with
    | none => rfl
    | some other =>
      rw [Option.map_some, Node.hear_of_calm]
      rintro edge leaves ⟨into, _⟩
      obtain ⟨_, drawn, source⟩ := mem_outlets.mp leaves
      have target := into.trans (Graph.id_of_node? there)
      exact away (target ▸ source ▸ Graph.source_mem_ancestry drawn)
  cut := ⟨fun _ => true, by rw [edges_updateNode, List.filter_true], nofun⟩

theorem struckAt_detach (sound : store.WellFormed) {edge : Edge} (drawn : edge ∈ store.edges) :
    store.StruckAt edge.target (store.detach edge).toGraph where
  told same := by
    have edges : (store.detach edge).edges =
        (store.edges.filter fun other => other.id ≠ edge.id) ++ [] := by
      rw [List.append_nil, edges_detach]
    have kept := same.keeps edges drawn (Graph.mem_ancestry_self _ _) (by simp)
    simp at kept
  spared member away := by
    rw [node?_detach]
    cases there : store.node? member with
    | none => rfl
    | some node =>
      rw [Option.map_some, Node.unplugged_of_ne]
      intro into
      have target := into.trans (Graph.id_of_node? there)
      exact away (target ▸ Graph.mem_ancestry_self _ _)
  cut := by
    refine ⟨fun other => other.id ≠ edge.id, edges_detach _ _, fun other there gone => ?_⟩
    have named : other.id = edge.id := by simpa using gone
    rw [List.inj_on_of_nodup_map sound.edges_once there drawn named]
    exact Graph.mem_ancestry_self _ _

/-- What is left of a graph without one of its nodes. -/
theorem removeNode_of_ok (sound : store.WellFormed) {removed : Node}
    (done : store.removeNode id = (.ok removed, after)) :
    after.edges = (store.edges.filter fun edge => !edge.touches id) ∧
      ∀ member, member ≠ id → after.node? member =
        (store.node? member).map ((store.edges.filter (·.touches id)).foldl Node.unplugged) := by
  unfold removeNode at done
  split at done
  · simp only at done
    split at done
    · cases done
      refine ⟨edges_detachAll_filter sound.edges_once _, fun member apart => ?_⟩
      exact (node?_dropNode_of_ne _ apart).trans (node?_detachAll _ _ _)
    · cases done
  · cases done

theorem struckAt_removeNode (sound : store.WellFormed) {removed : Node}
    (done : store.removeNode id = (.ok removed, after)) : store.StruckAt id after.toGraph := by
  obtain ⟨edges, nodes⟩ := removeNode_of_ok sound done
  have above : ∀ edge ∈ store.edges, edge.touches id = true → id ∈ store.ancestry edge.target := by
    intro edge drawn touches
    rcases Bool.or_eq_true_iff.mp touches with source | target
    · rw [← of_decide_eq_true source]
      exact Graph.source_mem_ancestry drawn
    · rw [of_decide_eq_true target]
      exact Graph.mem_ancestry_self _ _
  refine ⟨fun same => ?_, fun member away => ?_, ⟨_, edges, fun edge drawn gone => ?_⟩⟩
  · obtain ⟨node, found⟩ := same.exists_node (Graph.mem_ancestry_self _ id)
    rw [node?_of_removeNode done] at found
    cases found
  · have apart : member ≠ id := by
      rintro rfl
      exact away (Graph.mem_ancestry_self _ _)
    rw [nodes member apart]
    cases there : store.node? member with
    | none => rfl
    | some node =>
      rw [Option.map_some, Node.foldl_unplugged_of_spared]
      intro edge taken into
      obtain ⟨drawn, touches⟩ := List.mem_filter.mp taken
      have target := into.trans (Graph.id_of_node? there)
      exact away (target ▸ above edge drawn touches)
  · exact above edge drawn (by simpa using gone)

end Store

end RecipeGraph
