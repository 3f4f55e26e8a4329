import RecipeGraph.Proofs.Closing
import RecipeGraph.Proofs.Consistency
import RecipeGraph.Proofs.Guarding

/-!
# Results that keep fitting

Whatever is done to a session, the results in it fit their nodes. For numbers there is
nothing to show. Any other result stands beside a fingerprint, which tells when the fields
or edges change on which it rests, and as long as it fits its node compiles again. No
number needs to be finite for this.
-/

namespace RecipeGraph

open Relation (ReflTransGen TransGen)

namespace Graph

variable {graph left right : Graph} {id : String} {kind : NodeKind}

theorem Settles.of_blank (same : left.blank = right.blank)
    {result : Except CompileFault Artifact} (settles : left.Settles id kind result) :
    right.Settles id kind result := by
  cases settles with
  | ok fits => exact .ok (fits.of_blank same)
  | error real unfit =>
    exact .error real fun numberless value fits => unfit numberless value (fits.of_blank same.symm)

theorem Fits.scalar {value : Artifact} (fits : graph.Fits Number.wrap id kind value)
    (produces : kind.producesValue = true) : ∃ x, value = .scalar x := by
  cases fits with
  | value x => exact ⟨x, rfl⟩
  | multiply x => exact ⟨x, rfl⟩
  | _ => cases produces

end Graph

/-- What a run with a compiler for every kind makes of a node fits it, or nothing would. -/
theorem Verdict.settles {graph : Graph} (sound : graph.WellFormed) {id : String} {effect : Effect}
    (verdict : Verdict Registry.standard graph id effect) :
    ∀ kind, graph.kind? id = some kind →
      ∃ result, effect = Effect.ofResult result ∧ graph.Settles id kind result := by
  induction verdict with
  | skipped _ unserved => cases unserved
  | @reached id filled node compiler effects effect blank found served inputs passed stored made
      ih =>
    intro kind known
    have ready : filled.Ready id := by
      refine Graph.ready_of_stored blank fun member leads => ?_
      obtain ⟨source, there, output⟩ := stored member leads
      obtain ⟨artifact, settled⟩ :=
        Session.settled_of_passes (inputs member leads) (passed member leads)
      rw [settled] at output
      refine ⟨source, artifact, there, output, fun kind known => ?_⟩
      obtain ⟨result, same, settles⟩ := ih member leads kind known
      rw [settled] at same
      cases settles with
      | ok fits =>
        cases same
        exact fits
      | error => cases same
    cases served
    have settles := Graph.settles_compileAs ((Graph.thins_of_blank blank).wellFormed sound) ready
      found
    have same : node.kind = kind := by
      have alike := (Graph.thins_of_blank blank).kind? id
      rw [Graph.kind?_of_node? found, known] at alike
      exact Option.some.inj alike
    exact ⟨_, made.symm, same ▸ settles.of_blank blank⟩

/-- The node has its result from the graph already, if it has one. -/
def Node.Stems (graph : Graph) (node : Node) : Prop :=
  node.data.output.isSome = true → ∃ old, graph.node? node.id = some old ∧
    old.data.output = node.data.output ∧ old.data.compiled = node.data.compiled ∧
    old.kind = node.kind

/-- The node has the fields it has in the graph, unless it produces numbers. -/
def Node.Firm (graph : Graph) (node : Node) : Prop :=
  node.kind.producesValue = false → graph.params? node.id = some node.params

namespace Node

theorem stems_lasting (graph : Graph) : Node.Lasting (Node.Stems graph) where
  uncompiled _ _ held := nomatch held
  unbound node handle stems held := by
    obtain ⟨old, found, output, compiled, kind⟩ := stems held
    exact ⟨old, found, output, compiled, kind.trans (Store.kind_bind ..).symm⟩
  bound node handle source stems _ held := by
    obtain ⟨old, found, output, compiled, kind⟩ := stems held
    exact ⟨old, found, output, compiled, kind.trans (Store.kind_bind ..).symm⟩

theorem stems_of_patched {graph : Graph} {node patched : Node} {patch : NodePatch}
    (stems : node.Stems graph) (plain : patch.Plain) (fits : node.patched patch = .ok patched) :
    patched.Stems graph := by
  have shape := Node.patched_ok fits
  have output := shape.output
  have compiled := shape.compiled
  rw [plain.2.1] at output
  rw [plain.2.2] at compiled
  intro held
  rw [output] at held
  rw [shape.id, output, compiled, Store.kind_patched fits]
  exact stems held

@[simp] theorem bind_of_numberless {node : Node} (numberless : node.kind.producesValue = false)
    (handle : String) (literal : Option Float) : node.bind handle literal = node := by
  obtain ⟨_, params, _, _⟩ := node
  cases params with
  | multiply => cases numberless
  | _ => rfl

theorem firm_bind {graph : Graph} {node : Node} (firm : node.Firm graph) (handle : String)
    (literal : Option Float) : (node.bind handle literal).Firm graph := by
  intro numberless
  rw [Node.kind, Node.bind, Store.kind_bind] at numberless
  rw [bind_of_numberless numberless]
  exact firm numberless

theorem firm_lasting (graph : Graph) : Node.Lasting (Node.Firm graph) where
  uncompiled _ firm := firm
  unbound _ handle firm := firm_bind firm handle none
  bound _ handle source firm _ := firm_bind firm handle source.params.literal

theorem firm_of_patched {graph : Graph} {node patched : Node} {patch : NodePatch}
    (firm : node.Firm graph) (untouched : patch.touchesParams = false)
    (fits : node.patched patch = .ok patched) : patched.Firm graph := by
  intro numberless
  rw [Store.kind_patched fits] at numberless
  have kept := NodeParams.keepsLiterals_of_numberless numberless
  rw [Store.params_of_untouched kept untouched fits, (Node.patched_ok fits).id]
  exact firm numberless

end Node

namespace Session

theorem Operation.Plain.brings_stems {operation : Operation} (plain : operation.Plain)
    (graph : Graph) : operation.Brings (Node.Stems graph) := by
  cases operation with
  | load other => exact fun _ _ held => nomatch held
  | addNode node => exact fun held => nomatch held
  | updateNode id patch => exact fun _ _ had fits => Node.stems_of_patched had plain fits
  | _ => trivial

variable {before after session : Session} {id : String}

/-- The result is a number, or the node is compiled and the result fits it, as it did when
the fingerprint of the node was taken. -/
inductive Endures (session : Session) (id : String) (node : Node) : Artifact → Prop
  | number (produces : node.kind.producesValue = true) (x : Float) :
      Endures session id node (.scalar x)
  | recorded {value : Artifact} {earlier : Graph} {fingerprint : Fingerprint}
      (numberless : node.kind.producesValue = false) (compiled : node.data.compiled = true)
      (fits : session.store.Fits Number.wrap id node.kind value)
      (entry : session.fingerprint? id = some fingerprint)
      (captured : Fingerprint.capture earlier id = .ok fingerprint)
      (fitted : earlier.Fits Number.wrap id node.kind value) : Endures session id node value

def Enduring (session : Session) : Prop :=
  ∀ id node value, session.store.node? id = some node → node.data.output = some value →
    session.Endures id node value

theorem every_stems (sound : session.store.WellFormed) :
    session.store.Every (Node.Stems session.store.toGraph) :=
  fun node member _ =>
    ⟨node, Graph.node?_of_mem sound.nodes_once member, rfl, rfl, rfl⟩

theorem every_firm (sound : session.store.WellFormed) :
    session.store.Every (Node.Firm session.store.toGraph) :=
  fun _ member _ => Graph.params?_of_node? (Graph.node?_of_mem sound.nodes_once member)

theorem Endures.fits {node : Node} {value : Artifact} (endures : session.Endures id node value) :
    session.store.Fits Number.wrap id node.kind value := by
  cases endures with
  | number produces x =>
    generalize node.kind = kind at produces
    cases kind with
    | value => exact .value x
    | multiply => exact .multiply x
    | _ => cases produces
  | recorded _ _ fits => exact fits

namespace Enduring

@[simp] theorem empty : Session.empty.Enduring :=
  fun _ _ _ found => nomatch found

/-- Results endure as long as their nodes keep what they rest on. -/
theorem carry (enduring : before.Enduring)
    (stems : after.store.Every (Node.Stems before.store.toGraph))
    (same : ∀ id node, after.store.node? id = some node → node.data.compiled = true →
      before.store.contains id = true →
      after.fingerprint? id = before.fingerprint? id ∧
        before.store.AlikeUpstream after.store.toGraph id) : after.Enduring := by
  intro id node value found output
  obtain ⟨old, there, output', marked, kind⟩ :=
    stems node (Graph.mem_of_node? found) (by rw [output]; rfl)
  rw [Graph.id_of_node? found] at there
  cases enduring id old value there (output'.trans output) with
  | number produces x => exact .number (kind ▸ produces) x
  | recorded numberless compiled fits entry captured fitted =>
    obtain ⟨entries, alike⟩ :=
      same id node found (marked ▸ compiled) (Graph.contains_iff.mpr ⟨old, there⟩)
    exact .recorded (kind ▸ numberless) (marked ▸ compiled) (kind ▸ fits.congr alike)
      (entries.trans entry) captured (kind ▸ fitted)

/-- After any change, what is left when stale results are dropped endures. -/
theorem invalidateStale {middle : Session} (enduring : before.Enduring)
    (sound : middle.store.WellFormed)
    (stems : middle.store.Every (Node.Stems before.store.toGraph))
    (entries : ∀ id, middle.store.contains id = true →
      middle.fingerprint? id = before.fingerprint? id) : middle.invalidateStale.Enduring := by
  intro id node value found output
  have kept := every_invalidateStale (Node.stems_lasting _) sound stems
  obtain ⟨old, there, output', marked, kind⟩ :=
    kept node (Graph.mem_of_node? found) (by rw [output]; rfl)
  rw [Graph.id_of_node? found] at there
  cases enduring id old value there (output'.trans output) with
  | number produces x => exact .number (kind ▸ produces) x
  | recorded numberless compiled _ recorded captured fitted =>
    rw [marked] at compiled
    obtain ⟨standing, entry, matched⟩ := invalidateStale_spec sound found compiled
    have now := (entries id (Graph.contains_iff.mpr ⟨node, standing⟩)).trans recorded
    obtain ⟨later, captured', equal⟩ := Fingerprint.isStale_eq_false.mp (matched _ now)
    have same := Fingerprint.sameUpstream_of_capture captured captured' (BEq.symm equal)
    have fits := fitted.congr fun member reaches => (same member reaches).alikeAt
    exact .recorded (kind ▸ numberless) compiled
      (kind ▸ fits.of_blank (blank_invalidateStale sound).symm) (entry.trans now) captured
      (kind ▸ fitted)

/-- A compile gives a node a result that fits, or leaves it alone. It fails where no result
would fit, so that none is left behind. -/
theorem compile (enduring : session.Enduring) (sound : session.store.WellFormed)
    (known : session.store.contains id = true) :
    (session.compile Registry.standard id).2.Enduring := by
  obtain ⟨after, same, store, _, entries⟩ := compile_spec Registry.standard sound known
  have obeys := Store.compile_obeys Registry.standard sound known
  rw [← store] at obeys
  rw [same]
  change after.Enduring
  intro member node value found output
  obtain ⟨change, touches, left⟩ := obeys.each member
  obtain ⟨old, there, rfl⟩ := Option.map_eq_some_iff.mp (left.symm.trans found)
  have sound' := Store.wellFormed_of_blank obeys.blank sound
  have entry := entries member
  cases touches with
  | @touched effect comes verdict =>
    have listed : member ∈ session.store.ancestry id := by
      obtain ⟨front, back, sorted, _⟩ := comes
      exact Store.mem_ancestry_of_topoSort sorted (by simp)
    obtain ⟨result, rfl, settles⟩ := verdict.settles sound _ (Graph.kind?_of_node? there)
    cases settles with
    | ok fits =>
      cases output
      by_cases produces : old.kind.producesValue = true
      · obtain ⟨x, rfl⟩ := fits.scalar produces
        refine .number ?_ x
        exact produces
      · obtain ⟨now, captured, tracked⟩ :=
          exists_tracked sound' (isCompiled_iff.mpr ⟨_, found, rfl⟩)
        rw [if_pos listed, tracked] at entry
        have stays := fits.of_blank obeys.blank.symm
        exact .recorded (Bool.eq_false_iff.mpr produces) rfl stays entry captured stays
    | error _ unfit =>
      cases enduring member old value there output with
      | number produces x =>
        refine .number ?_ x
        exact produces
      | recorded numberless _ fits => exact (unfit numberless value fits).elim
  | untouched =>
    cases enduring member old value there output with
    | number produces x => exact .number produces x
    | recorded numberless compiled fits recorded taken fitted =>
      have stays := fits.of_blank obeys.blank.symm
      obtain ⟨now, captured, tracked⟩ :=
        exists_tracked sound' (isCompiled_iff.mpr ⟨_, found, compiled⟩)
      split at entry
      · exact .recorded numberless compiled stays (entry.trans tracked) captured stays
      · exact .recorded numberless compiled stays (entry.trans recorded) taken fitted

/-- Results endure in whichever way a session is changed. -/
theorem steps (enduring : session.Enduring) (sound : session.store.WellFormed)
    {operation : Operation} (plain : operation.Plain)
    (steps : Steps Registry.standard session operation after) : after.Enduring := by
  have stems := every_edited (Node.stems_lasting session.store.toGraph) (every_stems sound)
    (plain.brings_stems session.store.toGraph)
  cases steps with
  | idle => exact enduring
  | loaded done same =>
    have lasting : Node.Lasting fun node => node.data.output = none :=
      ⟨fun _ _ => rfl, fun _ _ bare => bare, fun _ _ _ bare _ => bare⟩
    intro id node value found output
    have bare := Store.every_built lasting done same (fun _ _ => rfl) node (Graph.mem_of_node? found)
    cases bare.symm.trans output
  | @added fresh =>
    refine enduring.carry stems fun id node _ _ known => ⟨rfl, fun member reaches => ?_⟩
    obtain ⟨old, there⟩ := Graph.contains_iff.mp (Graph.contains_of_reaches sound known reaches)
    have stays : (session.store.addNode fresh).2.node? member = some old := Store.node?_addNode there
    refine .of_params (Graph.ends_of_edges (Store.edges_addNode _ _).symm member) ?_ ?_
    · rw [Graph.kind?_of_node? there]
      exact (Graph.kind?_of_node? stays).symm
    · intro node found _
      cases stays.symm.trans found
      exact Graph.params?_of_node? there
  | swept same entries =>
    have edited := edited_wellFormed sound operation
    rw [← same] at edited stems
    exact enduring.invalidateStale edited stems entries
  | @unnoticed target patch untouched =>
    have firm : (session.edited (.updateNode target patch)).Every
        (Node.Firm session.store.toGraph) :=
      Store.every_updateNode (Node.firm_lasting _) (every_firm sound) target
        fun _ _ had fits => Node.firm_of_patched had untouched fits
    refine enduring.carry stems fun id node _ _ _ => ⟨rfl, fun member _ => ?_⟩
    refine .of_params (Graph.ends_of_edges (Store.edges_updateNode _ _ _).symm member)
      ((Store.thins_updateNode sound target patch).kind? member).symm fun node found numberless => ?_
    have fields := firm node (Graph.mem_of_node? found) numberless
    rwa [Graph.id_of_node? found] at fields
  | compiled found => exact enduring.compile sound (Graph.contains_iff.mpr ⟨_, found⟩)
  | @noted target message _ =>
    have blank := Store.blank_addError session.store target message false
    have stems : (session.store.addError target message false).2.Every
        (Node.Stems session.store.toGraph) :=
      Store.every_addError (every_stems sound) target fun _ had => had
    exact enduring.carry stems fun _ _ _ _ _ =>
      ⟨rfl, fun member _ => Graph.alikeAt_of_blank blank.symm member⟩

end Enduring

theorem Reached.enduring (reached : Reached Registry.standard Operation.Plain session) :
    session.Enduring := by
  refine reached.keeps Enduring.empty trivial fun earlier plain enduring => ?_
  exact enduring.steps earlier.wellFormed plain (steps_apply _ _ _)

/-- In every session each result is of the sort that belongs to the kind of its node, and
where no count of the graph goes beyond 64 bits it is built on the layers that fields and
edges describe: at most one tensor flows out of a node, and it lists the chain that leads
there. No compile ends at a guard, and no training at a schedule or at the inputs of its
model. -/
theorem results_fit_and_layers_described
    (reached : Reached Registry.standard Operation.Plain session) (roomy : session.store.Roomy) :
    (∀ id node value, session.store.node? id = some node → node.data.output = some value →
      session.store.Fits Number.exact id node.kind value) ∧
    (∀ id tensor, session.store.Flows Number.exact id tensor →
      session.store.Describes id tensor ∧
      ∀ other, session.store.Flows Number.exact id other → other = tensor) ∧
    (∀ id member fault, (session.compile Registry.standard id).1 =
      .error (.compileFailure member fault) → fault.isGuard = false) ∧
    ∀ id watched member fault, (session.train id watched).result =
        .error (.trainingFailure member (.fit fault)) →
      fault ≠ .severalInputs ∧ fault ≠ .emptySchedule := by
  have enduring := reached.enduring
  have sound := reached.wellFormed
  refine ⟨fun id node value found output => (enduring id node value found output).fits.exact roomy,
    fun id tensor flows => ⟨flows.describes, fun other => flows.unique⟩, ?_, ?_⟩
  · intro id member fault failure
    cases found : session.store.node? id with
    | none =>
      rw [compile_of_missing Registry.standard found] at failure
      cases failure
    | some node =>
      have known := Graph.contains_iff.mpr ⟨node, found⟩
      obtain ⟨after, compiled, _⟩ := compile_spec Registry.standard sound known
      rw [compiled] at failure
      exact Store.compile_fault sound failure
  · intro id watched member fault failure
    obtain ⟨node, job, found, gathered, done⟩ := exists_job_of_train failure
    obtain ⟨setup, model, x, y, output, given, rfl⟩ := exists_setup_of_job? gathered
    exact fit_fault (enduring id node _ found output).fits.described given done

/-- A model of two dense layers with its training, and an infinite number beside it that is
lost again after the compile. -/
def stacked : List Operation := [
  .load {
    nodes := [
      { id := "i", params := .inputLayer [3] },
      { id := "h", params := .denseLayer 4 .relu none },
      { id := "o", params := .denseLayer 2 .linear (some [4]) },
      { id := "m", params := .model .adam .mse 0.5 },
      { id := "v", params := .value (some (1.0 / 0.0)) },
      { id := "t", params := .trainModel 1 2 }]
    edges := [
      ⟨"ih", "i", "h", none, some Handle.input⟩,
      ⟨"ho", "h", "o", none, some Handle.input⟩,
      ⟨"om", "o", "m", none, some Handle.input⟩,
      ⟨"mt", "m", "t", none, some Handle.model⟩,
      ⟨"vt", "v", "t", none, some Handle.x⟩] },
  .compile "t",
  .updateNode "v" { config := some [] }]

/-- The last dense layer lists itself, the one before it and the input layer, with their
weights and biases. -/
theorem results_fit_and_layers_described_stacked :
    ∃ node tensor, (Session.empty.run Registry.standard stacked).store.node? "o" = some node ∧
      node.data.output = some (.layer tensor) ∧
      tensor.layers.map (·.name) = ["i", "h", "o"] ∧ tensor.layers.map (·.params) = [0, 16, 10] ∧
      (Session.empty.run Registry.standard stacked).store.Describes "o" tensor := by
  have plain : ∀ operation ∈ stacked, operation.Plain := by decide +kernel
  have short : (Session.empty.run Registry.standard stacked).store.nodes.all
      (·.params.isShort) = true := by
    decide +kernel
  have made : ((Session.empty.run Registry.standard stacked).store.node? "o").map (fun node =>
      node.layerOutput.map fun tensor =>
        (tensor.layers.map (·.name), tensor.layers.map (·.params))) =
      some (.ok (["i", "h", "o"], [0, 16, 10])) := by
    decide +kernel
  obtain ⟨node, found, held⟩ := Option.map_eq_some_iff.mp made
  obtain ⟨tensor, given, listed⟩ := Outcome.map_eq_ok.mp held
  have output := Node.output_of_layerOutput given
  obtain ⟨fits, describes, _⟩ := results_fit_and_layers_described (Reached.empty.run plain)
    (Graph.roomy_of_short (List.all_eq_true.mp short))
  have flows := (fits "o" node _ found output).layer
  exact ⟨node, tensor, found, output, congrArg Prod.fst listed, congrArg Prod.snd listed,
    (describes "o" tensor flows).1⟩

end Session

end RecipeGraph
