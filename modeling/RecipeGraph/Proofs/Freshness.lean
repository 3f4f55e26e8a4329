import RecipeGraph.Proofs.Consistency
import RecipeGraph.Proofs.Documents
import RecipeGraph.Proofs.Matching
import RecipeGraph.Proofs.Meaning

/-!
# Results are never out of date

Every result in a session is what its node means. An edit either leaves the graph
looking the same from a node with a result, or the fingerprint of the node tells
the difference and the result is dropped.
-/

namespace RecipeGraph

open Relation (ReflTransGen TransGen)

/-- The node is marked as compiled if it has a result, and it had that result in
the graph already. -/
structure Node.Kept (graph : Graph) (node : Node) : Prop where
  finite : node.params.isFinite = true
  marked : node.data.compiled = node.data.output.isSome
  traced : ∀ value, node.data.output = some value →
    ∃ old, graph.node? node.id = some old ∧ old.data.output = some value

theorem Node.kept_of_bare {graph : Graph} {node : Node} (finite : node.params.isFinite = true)
    (bare : node.data.output = none ∧ node.data.compiled = false) : node.Kept graph where
  finite := finite
  marked := by rw [bare.1, bare.2]; rfl
  traced value output := by
    rw [bare.1] at output
    cases output

/-- A patch from a document leaves results alone. -/
theorem Node.kept_of_patched {graph : Graph} {node patched : Node} {patch : NodePatch}
    (kept : node.Kept graph) (proper : patch.OfDocument) (fits : node.patched patch = .ok patched) :
    patched.Kept graph := by
  have shape := Node.patched_ok fits
  have output := shape.output
  have compiled := shape.compiled
  rw [proper.2.2.1] at output
  rw [proper.2.2.2] at compiled
  refine ⟨NodeParams.isFinite_of_patched kept.finite proper.1 fits, ?_, fun value given => ?_⟩
  · rw [output, compiled]
    exact kept.marked
  · rw [shape.id]
    exact kept.traced value (output.symm.trans given)

theorem Node.kept_lasting (graph : Graph) : Node.Lasting (Node.Kept graph) where
  uncompiled _ kept := kept_of_bare kept.finite ⟨rfl, rfl⟩
  unbound _ _ kept := ⟨NodeParams.isFinite_bind kept.finite rfl, kept.marked, kept.traced⟩
  bound _ _ _ kept given :=
    ⟨NodeParams.isFinite_bind kept.finite (NodeParams.isFinite_literal given.finite), kept.marked,
      kept.traced⟩

namespace Session

theorem Operation.OfDocument.brings_kept {operation : Operation} (proper : operation.OfDocument)
    (graph : Graph) : operation.Brings (Node.Kept graph) := by
  cases operation with
  | load other => exact fun node member => Node.kept_of_bare (proper node member) ⟨rfl, rfl⟩
  | addNode node =>
    have finite : node.fresh.params.isFinite = true := proper
    exact Node.kept_of_bare finite ⟨rfl, rfl⟩
  | updateNode id patch => exact fun node patched had fits => Node.kept_of_patched had proper fits
  | _ => trivial

/-- The fingerprint of the node was taken from a graph that looks the same. -/
def Recorded (session : Session) (id : String) : Prop :=
  ∃ earlier fingerprint, session.fingerprint? id = some fingerprint ∧
    Fingerprint.capture earlier id = .ok fingerprint ∧
    earlier.SameUpstream session.store.toGraph id

/-- Every result is what its node means, and it is recorded what it was made from. -/
structure Fresh (session : Session) : Prop where
  sound : session.store.WellFormed
  finite : session.store.Finite
  marked : session.store.Every fun node => node.data.compiled = node.data.output.isSome
  recorded : ∀ id node value, session.store.node? id = some node →
    node.data.output = some value → session.Recorded id
  meant : ∀ id node value, session.store.node? id = some node →
    node.data.output = some value →
      ∃ meaning, session.store.Means id meaning ∧ (meaning == value) = true

namespace Fresh

variable {before after session : Session}

theorem kept (fresh : session.Fresh) : session.store.Every (Node.Kept session.store.toGraph) :=
  fun node member => ⟨fresh.finite node member, fresh.marked node member, fun _ output =>
    ⟨node, Graph.node?_of_mem fresh.sound.nodes_once member, output⟩⟩

theorem sameUpstream (fresh : session.Fresh) {id : String} {node : Node}
    (found : session.store.node? id = some node) :
    session.store.SameUpstream session.store.toGraph id :=
  .refl fresh.sound fresh.finite (Graph.contains_iff.mpr ⟨node, found⟩)

/-- Results stay fresh as long as the graph looks the same from their nodes. -/
theorem carry (fresh : before.Fresh) (sound : after.store.WellFormed)
    (kept : after.store.Every (Node.Kept before.store.toGraph))
    (same : ∀ id old node value, before.store.node? id = some old →
      after.store.node? id = some node → node.data.output = some value →
      after.fingerprint? id = before.fingerprint? id ∧
        before.store.SameUpstream after.store.toGraph id) : after.Fresh := by
  have traced : ∀ id node value, after.store.node? id = some node →
      node.data.output = some value →
      ∃ old, before.store.node? id = some old ∧ old.data.output = some value := by
    intro id node value found output
    have named := (kept node (Graph.mem_of_node? found)).traced value output
    rwa [Graph.id_of_node? found] at named
  refine ⟨sound, fun node member => (kept node member).finite,
    fun node member => (kept node member).marked, ?_, ?_⟩
  · intro id node value found output
    obtain ⟨old, there, had⟩ := traced id node value found output
    obtain ⟨entry, upstream⟩ := same id old node value there found output
    obtain ⟨earlier, fingerprint, listed, captured, alike⟩ := fresh.recorded id old value there had
    exact ⟨earlier, fingerprint, entry.trans listed, captured, alike.trans upstream⟩
  · intro id node value found output
    obtain ⟨old, there, had⟩ := traced id node value found output
    have upstream := (same id old node value there found output).2
    obtain ⟨meaning, means, equal⟩ := fresh.meant id old value there had
    obtain ⟨other, means', equal'⟩ := means.transfer fresh.sound upstream
    exact ⟨other, means', BEq.trans (BEq.symm equal') equal⟩

/-- After any change, dropping what is stale leaves results that are fresh. -/
theorem invalidateStale {middle : Session} (fresh : before.Fresh)
    (sound : middle.store.WellFormed)
    (kept : middle.store.Every (Node.Kept before.store.toGraph))
    (entries : ∀ id, middle.store.contains id = true →
      middle.fingerprint? id = before.fingerprint? id) : middle.invalidateStale.Fresh := by
  have blank := blank_invalidateStale sound
  have dropped := every_invalidateStale (Node.kept_lasting before.store.toGraph) sound kept
  apply fresh.carry (invalidateStale_wellFormed sound) dropped
  intro id old node value there found output
  have member := Graph.mem_of_node? found
  have compiled : node.data.compiled = true := by
    rw [(dropped node member).marked, output]
    rfl
  obtain ⟨standing, entry, matched⟩ := invalidateStale_spec sound found compiled
  have listed := entry.trans (entries id (Graph.contains_iff.mpr ⟨node, standing⟩))
  refine ⟨listed, ?_⟩
  obtain ⟨old', there', had⟩ := (dropped node member).traced value output
  rw [Graph.id_of_node? found] at there'
  obtain ⟨earlier, fingerprint, recorded, captured, alike⟩ :=
    fresh.recorded id old' value there' had
  have current := matched fingerprint (entry.symm.trans (listed.trans recorded))
  obtain ⟨now, captured', equal⟩ := Fingerprint.isStale_eq_false.mp current
  have upstream := Fingerprint.sameUpstream_of_capture captured captured' (BEq.symm equal)
  exact (alike.symm.trans upstream).of_blank rfl blank.symm

@[simp] theorem empty : Session.empty.Fresh where
  sound := Store.empty_wellFormed
  finite _ member := nomatch member
  marked _ member := nomatch member
  recorded _ _ _ found := nomatch found
  meant _ _ _ found := nomatch found

/-- What a compile leaves on a node is what the node means. -/
theorem meant_of_recompiled (fresh : session.Fresh) {id : String} {old new : Node}
    (there : session.store.node? id = some old)
    (changed : Store.Recompiled session.store.toGraph id old new) :
    new.data.compiled = new.data.output.isSome ∧
      ∀ value, new.data.output = some value →
        ∃ meaning, session.store.Means id meaning ∧ (meaning == value) = true := by
  have meant := fresh.meant id old
  cases changed with
  | untouched same =>
    rw [same]
    exact ⟨fresh.marked old (Graph.mem_of_node? there), fun value => meant value there⟩
  | made artifact means data =>
    rw [data]
    refine ⟨rfl, fun value output => ?_⟩
    cases output
    exact ⟨_, means, means.unique fresh.sound (fresh.sameUpstream there) means⟩
  | refused meaningless output compiled =>
    have bare : new.data.output = none := by
      rw [output]
      cases had : old.data.output with
      | none => rfl
      | some value =>
        obtain ⟨meaning, means, _⟩ := meant value there had
        exact (meaningless meaning means).elim
    rw [bare, compiled]
    refine ⟨rfl, fun value none => ?_⟩
    cases none

theorem compile (fresh : session.Fresh) {id : String} (known : session.store.contains id = true) :
    (session.compile Registry.standard id).2.Fresh := by
  obtain ⟨after, same, store, _, entries⟩ := compile_spec Registry.standard fresh.sound known
  rw [same]
  change after.Fresh
  obtain ⟨blank, others⟩ :=
    Store.compile_frame Registry.standard fresh.sound (session.store.ancestry id)
  rw [← store] at blank others
  have sound := Store.wellFormed_of_blank blank fresh.sound
  have finite := Graph.finite_of_blank blank fresh.finite
  have changed : ∀ member new, after.store.node? member = some new →
      ∃ old, session.store.node? member = some old ∧
        Store.Recompiled session.store.toGraph member old new := by
    intro member new there
    obtain ⟨old, here, _⟩ := Graph.params_of_blank blank there
    rw [store] at there
    exact ⟨old, here, Store.compile_recompiles fresh.sound fresh.finite id here there⟩
  have marked : after.store.Every fun new => new.data.compiled = new.data.output.isSome := by
    intro new member
    obtain ⟨old, here, recompiled⟩ :=
      changed new.id new (Graph.node?_of_mem sound.nodes_once member)
    exact (fresh.meant_of_recompiled here recompiled).1
  refine ⟨sound, finite, marked, ?_, ?_⟩
  · intro member new value there output
    have entry := entries member
    split at entry
    · have compiled : after.isCompiled member = true := by
        rw [isCompiled, there]
        change new.data.compiled = true
        rw [marked new (Graph.mem_of_node? there), output]
        rfl
      have known := Graph.contains_iff.mpr ⟨new, there⟩
      obtain ⟨now, captured, recorded⟩ := exists_tracked sound compiled
      exact ⟨after.store.toGraph, now, entry.trans recorded, captured, .refl sound finite known⟩
    · next away =>
      obtain ⟨earlier, fingerprint, listed, captured, alike⟩ :=
        fresh.recorded member new value (others member away ▸ there) output
      exact ⟨earlier, fingerprint, entry.trans listed, captured, alike.of_blank rfl blank.symm⟩
  · intro member new value there output
    obtain ⟨old, here, recompiled⟩ := changed member new there
    obtain ⟨meaning, means, equal⟩ := (fresh.meant_of_recompiled here recompiled).2 value output
    exact ⟨meaning, means.of_blank blank.symm, equal⟩

/-- Results stay fresh in whichever way a session is changed. -/
theorem steps (fresh : session.Fresh) {operation : Operation} (proper : operation.OfDocument)
    (steps : Steps Registry.standard session operation after) : after.Fresh := by
  have sound := edited_wellFormed fresh.sound operation
  have kept := every_edited (Node.kept_lasting _) fresh.kept
    (proper.brings_kept session.store.toGraph)
  cases steps with
  | idle => exact fresh
  | loaded done same =>
    have bare := Store.every_built (Node.kept_lasting Graph.empty) done same
      (proper.brings_kept Graph.empty)
    exact Fresh.empty.carry sound bare fun _ _ _ _ there => nomatch there
  | added =>
    refine fresh.carry sound kept fun id old _ _ there _ _ => ⟨rfl, ?_⟩
    exact Graph.sameUpstream_of_unfed fresh.sound fresh.finite (Store.edges_addNode _ _)
      (fun _ a found => ⟨a, Store.node?_addNode found, rfl⟩) (Graph.contains_iff.mpr ⟨old, there⟩)
  | swept same entries =>
    rw [← same] at sound kept
    exact fresh.invalidateStale sound kept entries
  | unnoticed untouched =>
    refine fresh.carry sound kept fun id old _ _ there _ _ => ⟨rfl, ?_⟩
    exact Store.sameUpstream_updateNode fresh.sound fresh.finite proper untouched _
      (Graph.contains_iff.mpr ⟨old, there⟩)
  | compiled found => exact fresh.compile (Graph.contains_iff.mpr ⟨_, found⟩)
  | @noted id message =>
    have sound := (Store.thins_addError session.store id message false).wellFormed fresh.sound
    have kept : (session.store.addError id message false).2.Every
        (Node.Kept session.store.toGraph) :=
      Store.every_addError fresh.kept id fun _ had => ⟨had.finite, had.marked, had.traced⟩
    refine fresh.carry sound kept fun other old node value there found output => ⟨rfl, ?_⟩
    apply (fresh.sameUpstream there).of_blank rfl
    exact (Store.blank_addError _ _ _ _).symm

end Fresh

theorem Reached.fresh {session : Session}
    (reached : Reached Registry.standard Operation.OfDocument session) : session.Fresh := by
  refine reached.keeps Fresh.empty finite_starterGraph fun _ proper fresh => ?_
  exact fresh.steps proper (steps_apply _ _ _)

/-- A value that is infinite is compiled. -/
def unbounded : List Operation :=
  [.load { nodes := [{ id := "v", params := .value (some (1.0 / 0.0)) }], edges := [] },
    .compile "v"]

/-- A patch without any fields empties the value, whose result stays. -/
def emptied : List Operation :=
  unbounded ++ [.updateNode "v" { config := some [] }]

end Session

end RecipeGraph
