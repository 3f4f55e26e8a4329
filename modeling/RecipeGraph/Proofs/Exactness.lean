import RecipeGraph.Proofs.Closing

/-!
# What an edit invalidates

Where no fingerprint is out of date, an edit of a node drops the results of all nodes that
depend on it, and no others. What the edit does to the graph shows in the fingerprint of the
node itself and does not reach a node that does not depend on it. Only an edit that goes
unnoticed leaves results: a patch that names no fields, of a node whose literal cannot be
written and is lost.
-/

namespace RecipeGraph

namespace Session

open Tracked (Traced isCompiled_of_traced traced_lasting every_traced)

variable {session before middle after : Session} {struck id : String}

/-- A fingerprint is recorded for every compiled node, be it out of date or not. -/
def Vouched (session : Session) : Prop :=
  ∀ id, session.isCompiled id = true → ∃ fingerprint, session.fingerprint? id = some fingerprint

namespace Vouched

theorem carry (vouched : before.Vouched) (traced : after.store.Every (Traced before))
    (entries : ∀ id, after.isCompiled id = true → after.fingerprint? id = before.fingerprint? id) :
    after.Vouched := by
  intro id compiled
  rw [entries id compiled]
  exact vouched id (isCompiled_of_traced traced compiled)

theorem compile (vouched : session.Vouched) (registry : Registry)
    (sound : session.store.WellFormed) (known : session.store.contains id = true) :
    (session.compile registry id).2.Vouched := by
  intro member compiled
  rcases recorded_compile registry sound known compiled with ⟨now, _, recorded⟩ | ⟨earlier, entry⟩
  · exact ⟨now, recorded⟩
  · rw [entry]
    exact vouched member earlier

theorem steps {registry : Registry} {operation : Operation} (vouched : session.Vouched)
    (sound : session.store.WellFormed) (plain : operation.Plain)
    (steps : Steps registry session operation after) : after.Vouched := by
  have traced := every_edited (traced_lasting session) (every_traced sound)
    (plain.brings_traced session)
  cases steps with
  | idle => exact vouched
  | loaded done same =>
    intro id compiled
    cases (isCompiled_built done same id).symm.trans compiled
  | added => exact vouched.carry traced fun _ _ => rfl
  | @swept _ middle store entries =>
    have edited := edited_wellFormed sound operation
    rw [← store] at edited traced
    intro id compiled
    obtain ⟨node, found, marked⟩ := isCompiled_iff.mp compiled
    obtain ⟨standing, entry, _⟩ := invalidateStale_spec edited found marked
    have there : middle.isCompiled id = true := isCompiled_iff.mpr ⟨node, standing, marked⟩
    rw [entry, entries id (contains_of_isCompiled there)]
    exact vouched id (isCompiled_of_traced traced there)
  | unnoticed => exact vouched.carry traced fun _ _ => rfl
  | compiled found => exact vouched.compile registry sound (Graph.contains_iff.mpr ⟨_, found⟩)
  | @noted target message =>
    have traced : (session.store.addError target message false).2.Every (Traced session) :=
      Store.every_addError (every_traced sound) target fun _ had => had
    exact vouched.carry traced fun _ _ => rfl

/-- If nothing recorded is out of date, the fingerprints of all compiled nodes match. -/
theorem tracked (vouched : session.Vouched) (current : session.stale = []) : session.Tracked := by
  intro id compiled
  obtain ⟨fingerprint, recorded⟩ := vouched id compiled
  refine ⟨fingerprint, recorded, Bool.eq_false_iff.mpr fun stale => ?_⟩
  have listed := mem_stale recorded stale
  rw [current] at listed
  cases listed

end Vouched

theorem Reached.vouched {registry : Registry}
    (reached : Reached registry Operation.Plain session) : session.Vouched := by
  refine reached.keeps (fun _ compiled => nomatch compiled) trivial ?_
  exact fun earlier plain vouched =>
    vouched.steps earlier.wellFormed plain (steps_apply registry _ _)

/-- An operation that edits the node, succeeds and leads to the session. -/
inductive Strikes (session : Session) (struck : String) : Operation → Session → Prop
  /-- A patch that gives the node other fields. -/
  | patched {patch : NodePatch} {after : Session} {old new : Node}
      (done : session.updateNode struck patch = (.ok (), after))
      (found : session.store.node? struck = some old) (left : after.store.node? struck = some new)
      (changed : (old.params == new.params) = false) :
      Strikes session struck (.updateNode struck patch) after
  | unplugged {edge : Edge} {gone : String} {after : Session}
      (done : session.removeEdge gone = (.ok edge, after)) (into : edge.target = struck) :
      Strikes session struck (.removeEdge gone) after
  | removed {node : Node} {after : Session}
      (done : session.removeNode struck = (.ok node, after)) :
      Strikes session struck (.removeNode struck) after

/-- A compiled node that is still there has lost its result if it depended on the edited node,
and nothing has happened to what was on it if not. -/
def DropsDependents (session : Session) (struck : String) (after : Session) : Prop :=
  ∀ id node left, session.store.node? id = some node → node.data.compiled = true →
    after.store.node? id = some left →
    ∃ members, session.store.connectedIds id = .ok members ∧
      ((left.data.compiled = false ∧ left.data.output = none) ↔ struck ∈ members) ∧
      (struck ∉ members → left.data = node.data)

/-- A patch without any fields costs the node a literal that is not finite, and a node that
depends on it and hears nothing of that is compiled. -/
inductive Overlooks (session : Session) (struck : String) : Operation → Prop
  | intro {patch : NodePatch} {source node : Node} {dependent : String}
      (bare : patch.config = some []) (found : session.store.node? struck = some source)
      (lossy : source.params.keepsLiterals = false)
      (depends : struck ∈ session.store.ancestry dependent)
      (known : session.store.node? dependent = some node) (compiled : node.data.compiled = true)
      (calm : source.kind = .value → ∀ edge ∈ session.store.edges, edge.source = struck →
        ¬ node.Stirred none edge) :
      Overlooks session struck (.updateNode struck patch)

/-- A patch that succeeds fits its node. -/
theorem exists_patched_of_updateNode {patch : NodePatch} {old : Node}
    (done : session.updateNode struck patch = (.ok (), after))
    (found : session.store.node? struck = some old) : ∃ new, old.patched patch = .ok new := by
  rcases Store.updateNode_cases session.store struck patch with
    ⟨_, failed⟩ | ⟨_, new, known, fits⟩
  · rw [Session.updateNode, failed] at done
    cases done
  · cases found.symm.trans known
    exact ⟨new, fits⟩

theorem dropsDependents_of (sound : session.store.WellFormed)
    (lost : ∀ id node left, session.store.node? id = some node → node.data.compiled = true →
      after.store.node? id = some left → struck ∈ session.store.ancestry id →
      left.data.compiled = false ∧ left.data.output = none)
    (kept : ∀ id node left, session.store.node? id = some node → node.data.compiled = true →
      after.store.node? id = some left → struck ∉ session.store.ancestry id → left = node) :
    session.DropsDependents struck after := by
  intro id node left found compiled still
  have known := Graph.contains_iff.mpr ⟨node, found⟩
  refine ⟨_, Graph.connectedIds_eq_ok sound known, ⟨fun dropped => ?_, ?_⟩, ?_⟩
  · by_contra away
    rw [kept id node left found compiled still away, compiled] at dropped
    cases dropped.1
  · exact lost id node left found compiled still
  · intro away
    rw [kept id node left found compiled still away]

/-- The session in the middle of such an edit: the graph has been edited, and what is out of
date has not been looked for yet. -/
structure Halfway (session : Session) (struck : String) (middle : Session) : Prop where
  sound : middle.store.WellFormed
  keyed : middle.Keyed
  entries : ∀ id, middle.store.contains id = true →
    middle.fingerprint? id = session.fingerprint? id
  edit : session.store.StruckAt struck middle.store.toGraph

namespace Halfway

theorem updateNode (sound : session.store.WellFormed) (keyed : session.Keyed) {patch : NodePatch}
    {old new : Node} (touches : patch.touchesParams = true)
    (done : session.updateNode struck patch = (.ok (), after))
    (found : session.store.node? struck = some old) (left : after.store.node? struck = some new)
    (changed : (old.params == new.params) = false) :
    ∃ middle, session.Halfway struck middle ∧ after = middle.invalidateStale := by
  obtain ⟨patched, fits⟩ := exists_patched_of_updateNode done found
  have sound' : (session.store.updateNode struck patch).2.WellFormed :=
    edited_wellFormed sound (.updateNode struck patch)
  have here := Store.node?_updated_self sound found fits
  have same : after =
      (session.withStore (session.store.updateNode struck patch).2).invalidateStale := by
    rw [Session.updateNode, Store.updateNode_eq found fits] at done
    rw [← (Prod.mk.inj done).2, Store.updateNode_eq found fits, touches]
    rfl
  have blank := @blank_invalidateStale
    (session.withStore (session.store.updateNode struck patch).2) sound'
  rw [← same] at blank
  obtain ⟨_, there, params⟩ := Graph.params_of_blank blank.symm here
  cases left.symm.trans there
  rw [params] at changed
  exact ⟨session.withStore (session.store.updateNode struck patch).2, ⟨sound', keyed,
    fun _ _ => rfl, Store.struckAt_updateNode sound found fits changed⟩, same⟩

theorem removeEdge (sound : session.store.WellFormed) (keyed : session.Keyed) {edge : Edge}
    {gone : String} (done : session.removeEdge gone = (.ok edge, after)) :
    ∃ middle, session.Halfway edge.target middle ∧ after = middle.invalidateStale := by
  have sound' : (session.store.removeEdge gone).2.WellFormed :=
    edited_wellFormed sound (.removeEdge gone)
  unfold Session.removeEdge Store.removeEdge at done
  unfold Store.removeEdge at sound'
  cases found : session.store.edge? gone with
  | none =>
    rw [found] at done
    cases done
  | some other =>
    rw [found] at done sound'
    cases done
    have drawn := List.mem_of_find?_eq_some found
    exact ⟨session.withStore (session.store.detach edge),
      ⟨sound', keyed, fun _ _ => rfl, Store.struckAt_detach sound drawn⟩, rfl⟩

theorem removeNode (sound : session.store.WellFormed) (keyed : session.Keyed) {node : Node}
    (done : session.removeNode struck = (.ok node, after)) :
    ∃ middle, session.Halfway struck middle ∧ after = middle.invalidateStale := by
  have sound' : (session.store.removeNode struck).2.WellFormed :=
    edited_wellFormed sound (.removeNode struck)
  unfold Session.removeNode at done
  split at done
  · next store removed =>
    cases done
    rw [removed] at sound'
    have moved : (session.withStore store).Keyed := keyed
    exact ⟨_, ⟨sound', moved.forget struck, fun _ known => fingerprint?_of_removeNode removed known,
      Store.struckAt_removeNode sound removed⟩, rfl⟩
  · cases done

/-- What is out of date then are the nodes that depend on the edited one. -/
theorem mem_stale_iff (halfway : session.Halfway struck middle) (tracked : session.Tracked)
    (compiled : session.isCompiled id = true) (there : middle.store.contains id = true) :
    id ∈ middle.stale ↔ struck ∈ session.store.ancestry id := by
  rw [← not_iff_not, tracked.not_stale_iff halfway.keyed (halfway.entries id there) compiled,
    halfway.edit.matches_iff (tracked.matches tracked rfl compiled compiled)]

/-- A compiled node that depends on the edited one loses its result, and any other is as it
was. -/
theorem dropsDependents (halfway : session.Halfway struck middle) (tracked : session.Tracked)
    (sound : session.store.WellFormed) : session.DropsDependents struck middle.invalidateStale := by
  have swept : ∀ {id : String} {node left : Node}, session.store.node? id = some node →
      node.data.compiled = true → middle.invalidateStale.store.node? id = some left →
      ∃ old, middle.store.node? id = some old ∧
        (if id ∈ middle.stale then old.uncompiled else old) = left ∧
        (id ∈ middle.stale ↔ struck ∈ session.store.ancestry id) := by
    intro id node left found compiled still
    have each := ((invalidateAll_spec halfway.sound middle.stale).2 id).1
    obtain ⟨old, there, swept⟩ := Option.map_eq_some_iff.mp (each.symm.trans still)
    exact ⟨old, there, swept, halfway.mem_stale_iff tracked
      (isCompiled_iff.mpr ⟨node, found, compiled⟩) (Graph.contains_iff.mpr ⟨old, there⟩)⟩
  refine dropsDependents_of sound ?_ ?_
  · intro id node left found compiled still listed
    obtain ⟨old, _, same, stale⟩ := swept found compiled still
    rw [← same, if_pos (stale.mpr listed)]
    exact ⟨rfl, rfl⟩
  · intro id node left found compiled still away
    obtain ⟨old, there, same, stale⟩ := swept found compiled still
    rw [if_neg (stale.not.mpr away)] at same
    rw [halfway.edit.spared id away, found] at there
    rw [← same, Option.some.inj there]

end Halfway

section Unnoticed

variable {patch : NodePatch} {old new : Node}

/-- A patch that names no fields and still changes them costs the node a literal. -/
theorem lossy_of_changed (untouched : patch.touchesParams = false)
    (fits : old.patched patch = .ok new) (changed : (old.params == new.params) = false)
    (same : (old.params == old.params) = true) :
    patch.config = some [] ∧ old.params.keepsLiterals = false := by
  constructor
  · rcases Node.params_patched fits with ⟨_, kept⟩ | ⟨fields, given, _⟩
    · rw [kept, same] at changed
      cases changed
    · refine bare_of_untouched untouched ?_
      rw [given]
      rfl
  · refine Bool.eq_false_iff.mpr fun kept => ?_
    rw [Store.params_of_untouched kept untouched fits, same] at changed
    cases changed

/-- The literal that is lost is handed on as none. -/
theorem literal_of_lossy (bare : patch.config = some []) (fits : old.patched patch = .ok new)
    (lossy : old.params.keepsLiterals = false) (value : old.kind = .value) :
    new.params.literal = none := by
  rcases Node.params_patched fits with ⟨given, _⟩ | ⟨fields, given, merged⟩
  · rw [bare] at given
    cases given
  · rw [bare] at given
    cases given
    exact NodeParams.literal_of_merge_nil value lossy merged

/-- An edit that overlooks no node drops what depends on the node, although it is not noticed. -/
theorem dropsDependents_of_unnoticed (sound : session.store.WellFormed) (tracked : session.Tracked)
    (untouched : patch.touchesParams = false) (found : session.store.node? struck = some old)
    (fits : old.patched patch = .ok new) (changed : (old.params == new.params) = false)
    (sees : ¬ session.Overlooks struck (.updateNode struck patch)) :
    session.DropsDependents struck
      (session.withStore (session.store.updateNode struck patch).2) := by
  refine dropsDependents_of sound ?_ ?_
  · intro id node left known compiled still depends
    have standing := isCompiled_iff.mpr ⟨node, known, compiled⟩
    obtain ⟨_, _, here, here', same⟩ :=
      (tracked.matches tracked rfl standing standing).fields struck depends
    cases found.symm.trans here
    cases found.symm.trans here'
    obtain ⟨bare, lossy⟩ := lossy_of_changed untouched fits changed same
    have stirs : old.kind = .value ∧ ∃ edge ∈ session.store.edges, edge.source = struck ∧
        node.Stirred none edge := by
      by_contra calm
      exact sees (.intro bare found lossy depends known compiled fun value edge drawn leaves stirred =>
        calm ⟨value, edge, drawn, leaves, stirred⟩)
    obtain ⟨value, edge, drawn, leaves, stirred⟩ := stirs
    -- A value hears nothing, so that the node is another one.
    have apart : id ≠ struck := by
      rintro rfl
      cases found.symm.trans known
      exact Node.not_stirred_of_value value stirred
    have heard : (session.store.updateNode struck patch).2.node? id = some left := still
    rw [Store.node?_updated found fits, if_neg apart, known, literal_of_lossy bare fits lossy value]
      at heard
    cases heard
    have outlet : edge ∈ session.store.outlets struck patch new.kind :=
      Store.mem_outlets.mpr ⟨⟨by rw [bare]; rfl, (Store.kind_patched fits).trans value⟩, drawn, leaves⟩
    exact (Node.foldl_hear_cases _ _ _).resolve_left fun ⟨_, calm⟩ => calm edge outlet stirred
  · intro id node left known compiled still away
    have spared := (Store.struckAt_updateNode sound found fits changed).spared id away
    exact Option.some.inj (still.symm.trans (spared.trans known))

theorem not_dropsDependents_of_overlooks (sound : session.store.WellFormed) (plain : patch.Plain)
    (found : session.store.node? struck = some old) (fits : old.patched patch = .ok new)
    (overlooks : session.Overlooks struck (.updateNode struck patch)) :
    ¬ session.DropsDependents struck
      (session.withStore (session.store.updateNode struck patch).2) := by
  cases overlooks with
  | @intro _ source node dependent bare found' lossy depends known compiled calm =>
    cases found.symm.trans found'
    intro drops
    have left : ∃ left, (session.store.updateNode struck patch).2.node? dependent = some left ∧
        left.data.compiled = true := by
      by_cases same : dependent = struck
      · subst same
        cases found.symm.trans known
        refine ⟨new, Store.node?_updated_self sound found fits, ?_⟩
        rw [(Node.patched_ok fits).compiled, plain.2.2]
        exact compiled
      · refine ⟨node, ?_, compiled⟩
        rw [Store.node?_updated found fits, if_neg same, known, Option.map_some, Node.hear_of_calm]
        intro edge outlet
        obtain ⟨⟨_, value⟩, drawn, leaves⟩ := Store.mem_outlets.mp outlet
        have value := (Store.kind_patched fits).symm.trans value
        rw [literal_of_lossy bare fits lossy value]
        exact calm value edge drawn leaves
    obtain ⟨left, still, marked⟩ := left
    obtain ⟨members, connected, lost, _⟩ := drops dependent node left known compiled still
    rw [Graph.connectedIds_eq_ok sound (Graph.contains_iff.mpr ⟨node, known⟩)] at connected
    cases connected
    rw [(lost.mpr depends).1] at marked
    cases marked

end Unnoticed

/-- An edit of a node takes the results of the compiled nodes that depend on it, and does nothing
to all other compiled nodes that are still there, exactly if it is not a patch without any fields
that costs the node a literal behind the back of a compiled node. -/
theorem dropsDependents_iff {registry : Registry} (reached : Reached registry Operation.Plain session)
    (current : session.stale = []) {operation : Operation} (plain : operation.Plain)
    (strikes : session.Strikes struck operation after) :
    session.DropsDependents struck after ↔ ¬ session.Overlooks struck operation := by
  have sound := reached.wellFormed
  have tracked := reached.vouched.tracked current
  have noticed : ∀ {middle : Session}, session.Halfway struck middle →
      after = middle.invalidateStale → session.DropsDependents struck after :=
    fun halfway same => same ▸ halfway.dropsDependents tracked sound
  cases strikes with
  | @patched patch _ old _ done found left changed =>
    cases touches : patch.touchesParams with
    | true =>
      obtain ⟨middle, halfway, same⟩ :=
        Halfway.updateNode sound reached.keyed touches done found left changed
      refine iff_of_true (noticed halfway same) fun overlooks => ?_
      cases overlooks with
      | intro bare =>
        rw [NodePatch.touchesParams, bare] at touches
        cases touches
    | false =>
      obtain ⟨new, fits⟩ := exists_patched_of_updateNode done found
      have same := Session.updateNode_of_untouched session struck touches
      rw [done] at same
      subst same
      cases left.symm.trans (Store.node?_updated_self sound found fits)
      constructor
      · exact fun drops overlooks =>
          not_dropsDependents_of_overlooks sound plain found fits overlooks drops
      · exact dropsDependents_of_unnoticed sound tracked touches found fits changed
  | unplugged done into =>
    subst into
    obtain ⟨middle, halfway, same⟩ := Halfway.removeEdge sound reached.keyed done
    refine iff_of_true (noticed halfway same) fun overlooks => ?_
    cases overlooks
  | removed done =>
    obtain ⟨middle, halfway, same⟩ := Halfway.removeNode sound reached.keyed done
    refine iff_of_true (noticed halfway same) fun overlooks => ?_
    cases overlooks

/-- A patch without any fields empties the value, which stays compiled. -/
theorem not_dropsDependents_unbounded : ∃ after,
    (Session.empty.run Registry.standard unbounded).stale = [] ∧
      (Session.empty.run Registry.standard unbounded).Strikes "v"
        (.updateNode "v" { config := some [] }) after ∧
      ¬ (Session.empty.run Registry.standard unbounded).DropsDependents "v" after := by
  generalize named : Session.empty.run Registry.standard unbounded = session
  generalize stepped : session.updateNode "v" { config := some [] } = outcome
  have plain : ∀ operation ∈ unbounded, operation.Plain := by decide +kernel
  have bare : (Operation.updateNode "v" { config := some [] }).Plain := by decide
  have reached : Reached Registry.standard Operation.Plain session :=
    named ▸ Reached.empty.run plain
  have current : session.stale = [] := by
    rw [← named]
    decide +kernel
  have done : outcome.1.toOption = some () := by
    rw [← stepped, ← named]
    decide +kernel
  have changed : ((session.store.node? "v").bind fun old =>
      (outcome.2.store.node? "v").map fun new =>
        (old.params == new.params, old.params.keepsLiterals, old.data.compiled)) =
      some (false, false, true) := by
    rw [← stepped, ← named]
    decide +kernel
  have alone : session.store.edges = [] := by
    rw [← named]
    decide +kernel
  obtain ⟨_ | _, after⟩ := outcome
  · cases done
  obtain ⟨old, found, rest⟩ := Option.bind_eq_some_iff.mp changed
  obtain ⟨new, left, same⟩ := Option.map_eq_some_iff.mp rest
  obtain ⟨differs, others⟩ := Prod.mk.inj same
  obtain ⟨lossy, compiled⟩ := Prod.mk.inj others
  have strikes : session.Strikes "v" (.updateNode "v" { config := some [] }) after :=
    .patched stepped found left differs
  have overlooks : session.Overlooks "v" (.updateNode "v" { config := some [] }) :=
    .intro rfl found lossy (Graph.mem_ancestry_self _ _) found compiled
      fun _ edge drawn => by simp [alone] at drawn
  refine ⟨after, current, strikes, fun drops => ?_⟩
  exact (dropsDependents_iff reached current bare strikes).mp drops overlooks

end Session

end RecipeGraph
