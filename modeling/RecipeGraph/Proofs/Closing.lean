import RecipeGraph.Proofs.Freshness
import RecipeGraph.Proofs.Recording
import RecipeGraph.Proofs.Striking
import RecipeGraph.Proofs.Verdicts

/-!
# Compiled nodes and what they depend on

What a compiled node depends on is compiled too. Compiles keep this, and so do edits that
take nothing from nodes for which a matching fingerprint vouches.
-/

namespace RecipeGraph

open Relation (TransGen)

namespace Session

/-- Whatever a compiled node depends on is compiled. -/
def Closed (session : Session) : Prop :=
  ∀ id, session.isCompiled id = true → ∃ members, session.store.connectedIds id = .ok members ∧
    ∀ member ∈ members, session.isCompiled member = true

variable {session before middle after : Session}

theorem closed_iff (sound : session.store.WellFormed) :
    session.Closed ↔ ∀ id, session.isCompiled id = true →
      ∀ member ∈ session.store.ancestry id, session.isCompiled member = true := by
  constructor
  · intro closed id compiled
    obtain ⟨members, connected, all⟩ := closed id compiled
    rw [Graph.connectedIds_eq_ok sound (contains_of_isCompiled compiled)] at connected
    cases connected
    exact all
  · intro all id compiled
    exact ⟨_, Graph.connectedIds_eq_ok sound (contains_of_isCompiled compiled), all id compiled⟩

@[simp]
theorem isCompiled_of_node? {id : String} {node : Node} (found : session.store.node? id = some node) :
    session.isCompiled id = node.data.compiled := by
  rw [isCompiled, found]

namespace Closed

/-- What leaves edges and marks alone leaves sessions closed. -/
theorem carry (closed : before.Closed) (sound : before.store.WellFormed)
    (sound' : after.store.WellFormed) (edges : after.store.edges = before.store.edges)
    (same : ∀ id, after.isCompiled id = before.isCompiled id) : after.Closed := by
  rw [closed_iff sound] at closed
  rw [closed_iff sound']
  intro id compiled member listed
  rw [Graph.ancestry_of_edges edges] at listed
  rw [same] at compiled ⊢
  exact closed id compiled member listed

/-- Dropping what is stale leaves sessions closed, unless the edit before it has dropped
something that fingerprints do not tell. -/
theorem swept (closed : before.Closed) (tracked : before.Tracked) (keyed : middle.Keyed)
    (sound : before.store.WellFormed) (sound' : middle.store.WellFormed)
    (traced : middle.store.Every (Tracked.Traced before))
    (entries : ∀ id, middle.store.contains id = true →
      middle.fingerprint? id = before.fingerprint? id)
    (spared : ∀ id member, before.isCompiled id = true → middle.isCompiled id = true →
      before.store.Matches middle.store.toGraph id → member ∈ before.store.ancestry id →
      before.isCompiled member = true → middle.isCompiled member = true) :
    middle.invalidateStale.Closed := by
  rw [closed_iff sound] at closed
  rw [closed_iff (invalidateStale_wellFormed sound')]
  intro id compiled member listed
  rw [isCompiled_invalidateStale sound'] at compiled ⊢
  obtain ⟨standing, kept⟩ := compiled
  have earlier := Tracked.isCompiled_of_traced traced standing
  have same := (tracked.not_stale_iff keyed (entries id (contains_of_isCompiled standing))
    earlier).mp kept
  have edges := Graph.edges_of_blank (blank_invalidateStale sound')
  rw [Graph.ancestry_of_edges edges, same.ancestry] at listed
  have had := closed id earlier member listed
  have still := spared id member earlier standing same listed had
  refine ⟨still, ?_⟩
  exact (tracked.not_stale_iff keyed (entries member (contains_of_isCompiled still)) had).mpr
    (same.upstream listed)

end Closed

section Spared

variable {session after : Session} {id member : String}

theorem isCompiled_of_same (same : after.store.node? member = session.store.node? member)
    (compiled : session.isCompiled member = true) : after.isCompiled member = true := by
  rw [isCompiled, same]
  exact compiled

/-- Edges that go do nothing to a node that a matching fingerprint vouches for. -/
theorem unplugged_of_matches {node : Node} {gone : Edge → Bool} {added : List Edge} {right : Graph}
    (same : session.store.Matches right id) (listed : member ∈ session.store.ancestry id)
    (edges : right.edges = (session.store.edges.filter fun edge => !gone edge) ++ added)
    (elsewhere : ∀ other ∈ added, other.target ≠ member)
    (found : session.store.node? member = some node) :
    (session.store.edges.filter gone).foldl Node.unplugged node = node := by
  apply Node.foldl_unplugged_of_spared
  intro edge taken into
  obtain ⟨drawn, goes⟩ := List.mem_filter.mp taken
  have target : edge.target = member := into.trans (Graph.id_of_node? found)
  have kept := same.keeps edges drawn (target ▸ listed) (target ▸ elsewhere)
  rw [goes] at kept
  cases kept

theorem spared_updateNode (sound : session.store.WellFormed) {target : String} {patch : NodePatch}
    (proper : patch.OfDocument)
    (same : session.store.Matches (session.store.updateNode target patch).2.toGraph id)
    (listed : member ∈ session.store.ancestry id) (compiled : session.isCompiled member = true) :
    (session.withStore (session.store.updateNode target patch).2).isCompiled member = true := by
  rcases Store.updateNode_cases session.store target patch with
    ⟨_, failed⟩ | ⟨source, patched, found, fits⟩
  · rw [failed]
    exact compiled
  · obtain ⟨node, there, marked⟩ := isCompiled_iff.mp compiled
    have updated := Store.node?_updated found fits member
    by_cases here : member = target
    · subst here
      cases found.symm.trans there
      refine isCompiled_iff.mpr ⟨patched, Store.node?_updated_self sound found fits, ?_⟩
      have kept := (Node.patched_ok fits).compiled
      rw [proper.2.2.2] at kept
      exact kept.trans marked
    · rw [if_neg here, there, Option.map_some] at updated
      obtain ⟨old, new, known, known', params⟩ := same.fields member listed
      cases there.symm.trans known
      cases updated.symm.trans known'
      rw [Node.hear_of_calm (Node.calm_of_params params)] at updated
      exact isCompiled_iff.mpr ⟨node, updated, marked⟩

end Spared

/-- With a compiler for every kind, what passes has a result. -/
theorem settled_of_passes {graph : Graph} {id : String} {effect : Effect}
    (verdict : Verdict Registry.standard graph id effect) (passes : effect.passes = true) :
    ∃ artifact, effect = .settled artifact := by
  cases effect with
  | settled artifact => exact ⟨artifact, rfl⟩
  | failed fault => cases passes
  | kept output =>
    cases verdict with
    | skipped _ unserved => cases unserved
    | @reached _ filled node compiler _ _ _ _ _ _ _ _ made =>
      cases result : node.compileAs compiler filled <;> rw [result] at made <;> cases made

/-- A node that a run gives a result stands behind results of all it depends on. -/
theorem settled_of_touched {store : Store} {id dependent member : String} {effect : Effect}
    (comes : store.Comes Registry.standard id dependent)
    (verdict : Verdict Registry.standard store.toGraph dependent effect)
    (passes : effect.passes = true) (listed : member ∈ store.ancestry dependent)
    {change : Node → Node} (touches : store.Touches Registry.standard id member change) :
    ∃ artifact, change = Node.settled artifact := by
  have passed : store.Comes Registry.standard id member ∧
      Registry.standard.Passes store.toGraph member := by
    rcases Relation.reflTransGen_iff_eq_or_transGen.mp (Graph.mem_ancestry.mp listed) with
      rfl | leads
    · exact ⟨comes, effect, verdict, passes⟩
    · obtain ⟨front, back, sorted, all⟩ := comes
      have before := (Store.ordered_of_topoSort sorted).ancestors_before rfl leads
      exact ⟨Graph.comes_of_passed sorted all before, all member before⟩
  obtain ⟨reached, other, verdict', went⟩ := passed
  obtain ⟨artifact, rfl⟩ := settled_of_passes verdict' went
  exact ⟨artifact, touches.unique (.touched reached verdict')⟩

/-- A compile that spares a node with a result takes no result from what it depends on. -/
theorem compiled_of_recompiled {session : Session} (fresh : session.Fresh) {dependent : String}
    (compiled : session.isCompiled dependent = true) {member : String}
    (listed : member ∈ session.store.ancestry dependent) {old new : Node}
    (had : old.data.compiled = true)
    (changed : Store.Recompiled session.store.toGraph member old new) :
    new.data.compiled = true := by
  cases changed with
  | untouched same => rw [same, had]
  | made artifact means data => rw [data]
  | refused meaningless =>
    obtain ⟨node, found, marked⟩ := isCompiled_iff.mp compiled
    rw [fresh.marked node (Graph.mem_of_node? found)] at marked
    obtain ⟨value, output⟩ := Option.isSome_iff_exists.mp marked
    obtain ⟨_, means, _⟩ := fresh.meant dependent node value found output
    obtain ⟨meaning, above⟩ := means.upstream (Graph.mem_ancestry.mp listed)
    exact (meaningless meaning above).elim

theorem Closed.compile {session : Session} (closed : session.Closed) (fresh : session.Fresh)
    {id : String} (known : session.store.contains id = true) :
    (session.compile Registry.standard id).2.Closed := by
  obtain ⟨after, same, store, _⟩ := compile_spec Registry.standard fresh.sound known
  have obeys := Store.compile_obeys Registry.standard fresh.sound known
  rw [← store] at obeys
  rw [same]
  change after.Closed
  rw [closed_iff fresh.sound] at closed
  rw [closed_iff (Store.wellFormed_of_blank obeys.blank fresh.sound)]
  intro dependent compiled member listed
  rw [Graph.ancestry_of_edges (Graph.edges_of_blank obeys.blank)] at listed
  obtain ⟨new, found, marked⟩ := isCompiled_iff.mp compiled
  obtain ⟨change, touches, left⟩ := obeys.each dependent
  obtain ⟨old, here, rfl⟩ := Option.map_eq_some_iff.mp (left.symm.trans found)
  obtain ⟨source, there⟩ := Graph.contains_iff.mp
    (Graph.contains_of_reaches fresh.sound (Graph.contains_iff.mpr ⟨old, here⟩)
      (Graph.mem_ancestry.mp listed))
  obtain ⟨change', touches', left'⟩ := obeys.each member
  rw [there] at left'
  refine isCompiled_iff.mpr ⟨_, left', ?_⟩
  cases touches with
  | untouched =>
    have earlier := isCompiled_iff.mpr ⟨old, here, marked⟩
    obtain ⟨source', there', had⟩ := isCompiled_iff.mp (closed dependent earlier member listed)
    cases there.symm.trans there'
    rw [store] at left'
    exact compiled_of_recompiled fresh earlier listed had
      (Store.compile_recompiles fresh.sound fresh.finite id there left')
  | @touched effect comes verdict =>
    have passes : effect.passes = true := by
      cases effect with
      | failed => cases marked
      | _ => rfl
    obtain ⟨artifact, rfl⟩ := settled_of_touched comes verdict passes listed touches'
    rfl

end Session

end RecipeGraph
