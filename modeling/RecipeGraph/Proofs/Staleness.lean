import RecipeGraph.Proofs.Consistency
import RecipeGraph.Proofs.Documents
import RecipeGraph.Proofs.Rewiring

/-!
# Where change tracking lags

A session looks for stale results after a change of fields or edges, but not after
a patch that names no fields. Such a patch still makes a value hand its literal
on. If that is news to a node, the results that depend on the node stay, although
their fingerprints no longer match.
-/

namespace RecipeGraph

namespace Session

/-- Every compiled node has a fingerprint, and the fingerprint matches. -/
def Tracked (session : Session) : Prop :=
  ∀ id, session.isCompiled id = true → ∃ fingerprint,
    session.fingerprint? id = some fingerprint ∧
      fingerprint.isStale session.store.toGraph id = false

/-- A value is patched without any fields and hands a literal on that is news to a
node. Another node that depends on it, and hears nothing new itself, is compiled. -/
inductive Lags (session : Session) : Operation → Prop
  | intro {id dependent : String} {patch : NodePatch} {source target node : Node} {edge : Edge}
      (bare : patch.config = some [])
      (found : session.store.node? id = some source) (value : source.kind = .value)
      (drawn : edge ∈ session.store.edges) (leaves : edge.source = id)
      (into : session.store.node? edge.target = some target)
      (news : target.Stirred source.params.literal edge)
      (depends : edge.target ∈ session.store.ancestry dependent)
      (known : session.store.node? dependent = some node)
      (compiled : node.data.compiled = true)
      (calm : ∀ other ∈ session.store.edges, other.source = id →
        ¬ node.Stirred source.params.literal other) : Lags session (.updateNode id patch)

namespace Tracked

variable {before after session : Session}

/-- A node of a later graph was compiled in the session, if it is compiled. -/
def Traced (session : Session) (node : Node) : Prop :=
  node.data.compiled = true → session.isCompiled node.id = true

theorem traced_lasting (session : Session) : Node.Lasting (Traced session) where
  uncompiled _ _ compiled := nomatch compiled
  unbound _ _ traced := traced
  bound _ _ _ traced _ := traced

theorem every_traced (sound : session.store.WellFormed) : session.store.Every (Traced session) :=
  fun node member compiled =>
    isCompiled_iff.mpr ⟨node, Graph.node?_of_mem sound.nodes_once member, compiled⟩

theorem isCompiled_of_traced {id : String} (traced : after.store.Every (Traced before))
    (compiled : after.isCompiled id = true) : before.isCompiled id = true := by
  obtain ⟨node, found, marked⟩ := isCompiled_iff.mp compiled
  rw [← Graph.id_of_node? found]
  exact traced node (Graph.mem_of_node? found) marked

theorem traced_of_patched {node patched : Node} {patch : NodePatch} (traced : Traced session node)
    (plain : patch.Plain) (fits : node.patched patch = .ok patched) : Traced session patched := by
  have shape := Node.patched_ok fits
  have compiled := shape.compiled
  rw [plain.2.2] at compiled
  unfold Traced
  rw [shape.id, compiled]
  exact traced

end Tracked

theorem Operation.OfDocument.plain {operation : Operation} (proper : operation.OfDocument) :
    operation.Plain := by
  cases operation with
  | updateNode id patch => exact proper.2
  | _ => trivial

theorem Operation.Plain.brings_traced {operation : Operation} (plain : operation.Plain)
    (session : Session) : operation.Brings (Tracked.Traced session) := by
  cases operation with
  | load graph => exact fun _ _ compiled => nomatch compiled
  | addNode node => exact fun compiled => nomatch compiled
  | updateNode id patch => exact fun _ _ had fits => Tracked.traced_of_patched had plain fits
  | _ => trivial

namespace Tracked

variable {before after session : Session}

/-- Tracking goes on where fingerprints stay and match as before. -/
theorem carry (tracked : before.Tracked) (traced : after.store.Every (Traced before))
    (same : ∀ id, after.isCompiled id = true → before.isCompiled id = true →
      after.fingerprint? id = before.fingerprint? id ∧
        Fingerprint.capture after.store.toGraph id =
          Fingerprint.capture before.store.toGraph id) : after.Tracked := by
  intro id compiled
  have earlier := isCompiled_of_traced traced compiled
  obtain ⟨fingerprint, listed, matched⟩ := tracked id earlier
  obtain ⟨entry, captured⟩ := same id compiled earlier
  refine ⟨fingerprint, entry.trans listed, ?_⟩
  rw [Fingerprint.isStale_eq_false] at matched ⊢
  rw [captured]
  exact matched

/-- After any change, dropping what is stale leaves nothing that is not tracked. -/
theorem invalidateStale {middle : Session} (tracked : before.Tracked)
    (sound : middle.store.WellFormed) (traced : middle.store.Every (Traced before))
    (entries : ∀ id, middle.store.contains id = true →
      middle.fingerprint? id = before.fingerprint? id) : middle.invalidateStale.Tracked := by
  intro id compiled
  obtain ⟨node, found, marked⟩ := isCompiled_iff.mp compiled
  obtain ⟨standing, entry, matched⟩ := invalidateStale_spec sound found marked
  have earlier := isCompiled_of_traced traced (isCompiled_iff.mpr ⟨node, standing, marked⟩)
  obtain ⟨fingerprint, listed, _⟩ := tracked id earlier
  have recorded := (entries id (Graph.contains_iff.mpr ⟨node, standing⟩)).trans listed
  refine ⟨fingerprint, entry.trans recorded, ?_⟩
  rw [Fingerprint.isStale_of_blank (blank_invalidateStale sound)]
  exact matched fingerprint recorded

@[simp] theorem empty : Session.empty.Tracked :=
  fun _ compiled => nomatch compiled

theorem compile (tracked : session.Tracked) (registry : Registry)
    (sound : session.store.WellFormed) (finite : session.store.Finite) {id : String}
    (known : session.store.contains id = true) : (session.compile registry id).2.Tracked := by
  have blank := blank_compile registry sound known
  intro member compiled
  rcases recorded_compile registry sound known compiled with
    ⟨now, captured, recorded⟩ | ⟨earlier, entry⟩
  · refine ⟨now, recorded, Fingerprint.isStale_eq_false.mpr ⟨now, captured, ?_⟩⟩
    exact Fingerprint.capture_beq_self (Graph.finite_of_blank blank finite) captured
  · obtain ⟨fingerprint, listed, matched⟩ := tracked member earlier
    refine ⟨fingerprint, entry.trans listed, ?_⟩
    exact (Fingerprint.isStale_of_blank blank fingerprint member).trans matched

end Tracked

section Patches

variable {session : Session} {id : String} {patch : NodePatch}

theorem updateNode_of_untouched (session : Session) (id : String)
    (untouched : patch.touchesParams = false) : (session.updateNode id patch).2 =
      session.withStore (session.store.updateNode id patch).2 := by
  unfold updateNode
  split
  · next same =>
    rw [same]
    simp [untouched]
  · next same => rw [same]

theorem bare_of_untouched (untouched : patch.touchesParams = false)
    (named : patch.config.isSome = true) : patch.config = some [] := by
  unfold NodePatch.touchesParams at untouched
  cases given : patch.config with
  | none =>
    rw [given] at named
    cases named
  | some config =>
    rw [given] at untouched
    cases config with
    | nil => rfl
    | cons field rest => cases untouched

/-- A value can be patched without any fields. -/
theorem exists_patched {source : Node} (finite : source.params.isFinite = true)
    (value : source.kind = .value) (bare : patch.config = some []) :
    ∃ patched, source.patched patch = .ok patched := by
  unfold Node.patched Node.kind at *
  cases params : source.params with
  | value x =>
    rw [params] at finite
    rw [bare]
    have fits : (NodeParams.value x).isWritable = true := finite
    simp only [NodeParams.merge_nil fits]
    exact ⟨_, rfl⟩
  | _ =>
    rw [params] at value
    cases value

/-- Without news for anything that a compiled node depends on, tracking goes on. -/
theorem Tracked.unnoticed (tracked : session.Tracked)
    (sound : session.store.WellFormed) (finite : session.store.Finite) (proper : patch.OfDocument)
    (untouched : patch.touchesParams = false)
    (steady : ¬ session.Lags (.updateNode id patch)) :
    (session.withStore (session.store.updateNode id patch).2).Tracked := by
  rcases Store.updateNode_cases session.store id patch with
    ⟨_, same⟩ | ⟨source, patched, found, fits⟩
  · rw [same]
    exact tracked
  · have traced := Store.every_updateNode (Tracked.traced_lasting session)
      (Tracked.every_traced sound) id fun _ _ had fits => Tracked.traced_of_patched had proper.2 fits
    refine tracked.carry traced fun dependent compiled earlier => ⟨rfl, ?_⟩
    refine Fingerprint.capture_congr (Store.edges_updateNode _ _ _) fun member listed => ?_
    have heard : ∀ other old, session.store.node? other = some old → _ := fun other old there =>
      Store.node?_updateNode finite proper untouched found fits there
    obtain ⟨node, known, marked⟩ := isCompiled_iff.mp earlier
    obtain ⟨_, after⟩ := heard dependent node known
    obtain ⟨node', known', marked'⟩ := isCompiled_iff.mp compiled
    cases after.symm.trans known'
    have calm := (Node.eq_of_compiled_hear marked').2
    have reaches := Graph.mem_ancestry.mp listed
    rcases Graph.contains_iff.mp
      (Graph.contains_of_reaches sound (contains_of_isCompiled earlier) reaches) with ⟨old, here⟩
    obtain ⟨position, after'⟩ := heard member old here
    have unmoved : ∀ edge ∈ session.store.outlets id patch source.kind,
        ¬ old.Stirred source.params.literal edge := by
      intro edge leaves news
      obtain ⟨⟨named, value⟩, drawn, from_source⟩ := Store.mem_outlets.mp leaves
      have target : edge.target = member := news.1.trans (Graph.id_of_node? here)
      refine steady (.intro (bare_of_untouched untouched named) found value drawn from_source
        (target ▸ here) news (target ▸ listed) known marked fun other drawn' from_source' => ?_)
      exact calm other (Store.mem_outlets.mpr ⟨⟨named, value⟩, drawn', from_source'⟩)
    refine ⟨old, _, here, after', ?_⟩
    rw [Node.hear_of_calm unmoved]
    rfl

/-- Where a node is recorded with one fingerprint in two sessions that are tracked, their graphs
match. -/
theorem Tracked.matches {after : Session} {dependent : String} (tracked : session.Tracked)
    (tracked' : after.Tracked)
    (entry : after.fingerprint? dependent = session.fingerprint? dependent)
    (compiled : session.isCompiled dependent = true)
    (compiled' : after.isCompiled dependent = true) :
    session.store.Matches after.store.toGraph dependent := by
  obtain ⟨fingerprint, recorded, current⟩ := tracked dependent compiled
  obtain ⟨fingerprint', recorded', current'⟩ := tracked' dependent compiled'
  cases recorded.symm.trans (entry.symm.trans recorded')
  exact Fingerprint.matches_of_isStale current current'

theorem not_tracked_of_lags (tracked : session.Tracked) (finite : session.store.Finite)
    (proper : patch.OfDocument) (lags : session.Lags (.updateNode id patch)) :
    ¬ (session.updateNode id patch).2.Tracked := by
  cases lags with
  | @intro _ dependent _ source target node edge bare found value drawn leaves into news depends
      known compiled calm =>
    have untouched : patch.touchesParams = false := by
      rw [NodePatch.touchesParams, bare]
      rfl
    have number := finite source (Graph.mem_of_node? found)
    obtain ⟨patched, fits⟩ := exists_patched number value bare
    have heard : ∀ other old, session.store.node? other = some old → _ := fun other old there =>
      Store.node?_updateNode finite proper untouched found fits there
    have listed : ∀ other, other ∈ session.store.outlets id patch source.kind ↔
        other ∈ session.store.edges ∧ other.source = id := by
      intro other
      rw [Store.mem_outlets, bare]
      exact and_iff_right ⟨rfl, value⟩
    rw [Session.updateNode_of_untouched session id untouched]
    intro tracked'
    -- The dependent node is compiled before and after, so both graphs match its fingerprint.
    obtain ⟨_, after⟩ := heard dependent node known
    rw [Node.hear_of_calm fun other member => calm other ((listed other).mp member).1
      ((listed other).mp member).2] at after
    have same := tracked.matches tracked' rfl (isCompiled_iff.mpr ⟨node, known, compiled⟩)
      (isCompiled_iff.mpr ⟨_, after, compiled⟩)
    -- The field that heard something new tells the graphs apart.
    obtain ⟨target', other, here, there, params⟩ := same.fields edge.target depends
    cases into.symm.trans here
    obtain ⟨position, after'⟩ := heard edge.target target into
    cases after'.symm.trans there
    exact Node.calm_of_params params edge ((listed edge).mpr ⟨drawn, leaves⟩) news

end Patches

/-- Only a patch that lags ends tracking. -/
theorem Tracked.steps {registry : Registry} {session after : Session} {operation : Operation}
    (tracked : session.Tracked) (sound : session.store.WellFormed) (finite : session.store.Finite)
    (proper : operation.OfDocument) (steady : ¬ session.Lags operation)
    (steps : Steps registry session operation after) : after.Tracked := by
  have edited := edited_wellFormed sound operation
  have traced := every_edited (traced_lasting session) (every_traced sound)
    (proper.plain.brings_traced session)
  cases steps with
  | idle => exact tracked
  | loaded done same =>
    intro id compiled
    cases (isCompiled_built done same id).symm.trans compiled
  | added =>
    refine tracked.carry traced fun id _ compiled => ⟨rfl, ?_⟩
    refine Fingerprint.capture_congr (Store.edges_addNode _ _) fun member listed => ?_
    have known := Graph.contains_of_reaches sound (contains_of_isCompiled compiled)
      (Graph.mem_ancestry.mp listed)
    obtain ⟨a, here⟩ := Graph.contains_iff.mp known
    exact ⟨a, a, here, Store.node?_addNode here, rfl⟩
  | swept same entries =>
    rw [← same] at edited traced
    exact tracked.invalidateStale edited traced entries
  | unnoticed untouched => exact tracked.unnoticed sound finite proper untouched steady
  | compiled found =>
    exact tracked.compile registry sound finite (Graph.contains_iff.mpr ⟨_, found⟩)
  | @noted id message =>
    have traced : (session.store.addError id message false).2.Every (Traced session) :=
      Store.every_addError (every_traced sound) id fun _ had => had
    refine tracked.carry traced fun other _ _ => ⟨rfl, ?_⟩
    exact Fingerprint.capture_of_blank (Store.blank_addError _ _ _ _) other

/-- An operation ends tracking exactly if it lags. -/
theorem tracked_apply_iff (registry : Registry) {session : Session} (tracked : session.Tracked)
    (sound : session.store.WellFormed) (finite : session.store.Finite) {operation : Operation}
    (proper : operation.OfDocument) :
    (session.apply registry operation).Tracked ↔ ¬ session.Lags operation := by
  constructor
  · intro after lags
    cases id : operation with
    | updateNode node patch =>
      rw [id] at proper lags after
      exact not_tracked_of_lags tracked finite proper lags after
    | _ =>
      rw [id] at lags
      cases lags
  · intro steady
    exact tracked.steps sound finite proper steady (steps_apply registry session operation)

theorem tracked_run_iff (registry : Registry) {session : Session}
    (reached : Reached registry Operation.OfDocument session) (tracked : session.Tracked)
    {operations : List Operation} (proper : ∀ operation ∈ operations, operation.OfDocument) :
    (∀ before after, operations = before ++ after → (session.run registry before).Tracked) ↔
      ∀ before operation after, operations = before ++ operation :: after →
        ¬ (session.run registry before).Lags operation := by
  refine run_throughout_iff tracked fun before operation after split so_far => ?_
  have there := reached.run fun other member =>
    proper other (split ▸ List.mem_append_left _ member)
  exact tracked_apply_iff registry so_far there.wellFormed there.finite
    (proper operation (by rw [split]; simp))

/-- From the empty session and from the starter graph, the fingerprints of all
compiled nodes match throughout exactly if no patch on the way lags. -/
theorem tracked_throughout_iff (registry : Registry) {start : Session}
    (begins : start = Session.empty ∨ start = Session.scaffold.2) {operations : List Operation}
    (proper : ∀ operation ∈ operations, operation.OfDocument) :
    (∀ before after, operations = before ++ after → (start.run registry before).Tracked) ↔
      ∀ before operation after, operations = before ++ operation :: after →
        ¬ (start.run registry before).Lags operation := by
  rcases begins with rfl | rfl
  · exact tracked_run_iff registry .empty Tracked.empty proper
  · have given : (Operation.load starterGraph).OfDocument := finite_starterGraph
    have tracked : Session.scaffold.2.Tracked :=
      Tracked.empty.steps Store.empty_wellFormed (fun _ member => nomatch member) given
        (fun lags => nomatch lags) (steps_apply registry Session.empty _)
    exact tracked_run_iff registry .starter tracked proper

theorem lags_overruled : (Session.empty.run Registry.standard (overruled.take 3)).Lags
    (.updateNode "v" { config := some [] }) := by
  have edges : (Session.empty.run Registry.standard (overruled.take 3)).store.edges =
      [⟨"vm", "v", "m", none, some Handle.a⟩, ⟨"mn", "m", "n", none, some Handle.a⟩] := by
    decide +kernel
  have kind : (Session.empty.run Registry.standard (overruled.take 3)).store.kind? "v" =
      some .value := by decide +kernel
  have field : ((Session.empty.run Registry.standard (overruled.take 3)).store.node? "m").bind
      (fun target => (target.params.bound? Handle.a).bind fun held =>
        ((Session.empty.run Registry.standard (overruled.take 3)).store.node? "v").map fun source =>
          held == source.params.literal) = some false := by decide +kernel
  have depends :
      "m" ∈ (Session.empty.run Registry.standard (overruled.take 3)).store.ancestry "n" := by
    decide +kernel
  have compiled :
      (Session.empty.run Registry.standard (overruled.take 3)).isCompiled "n" = true := by
    decide +kernel
  obtain ⟨source, found, value⟩ := Option.map_eq_some_iff.mp kind
  obtain ⟨target, into, heard⟩ := Option.bind_eq_some_iff.mp field
  obtain ⟨held, remembered, told⟩ := Option.bind_eq_some_iff.mp heard
  obtain ⟨source', found', apart⟩ := Option.map_eq_some_iff.mp told
  cases found.symm.trans found'
  obtain ⟨node, known, marked⟩ := isCompiled_iff.mp compiled
  refine @Lags.intro _ "v" "n" _ source target node ⟨"vm", "v", "m", none, some Handle.a⟩ rfl found
    value (by rw [edges]; simp) rfl into ⟨(Graph.id_of_node? into).symm, Handle.a, held, rfl,
      remembered, apart⟩ depends known marked fun other drawn leaves news => ?_
  rw [edges] at drawn
  have target : other.target = "n" := news.1.trans (Graph.id_of_node? known)
  simp only [List.mem_cons, List.not_mem_nil, or_false] at drawn
  rcases drawn with rfl | rfl
  · exact absurd target (by decide)
  · exact absurd leaves (by decide)

/-- Change tracking lags in this run. -/
theorem not_tracked_overruled : ¬ ∀ before after, overruled = before ++ after →
    (Session.empty.run Registry.standard before).Tracked := by
  intro always
  have steady :=
    (tracked_throughout_iff Registry.standard (.inl rfl) overruled_ofDocument).mp always
  exact steady (overruled.take 3) (.updateNode "v" { config := some [] }) [] rfl lags_overruled

end Session

end RecipeGraph
