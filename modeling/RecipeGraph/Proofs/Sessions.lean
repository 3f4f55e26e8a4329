import RecipeGraph.Starter
import RecipeGraph.Proofs.Lasting
import RecipeGraph.Proofs.Tracking

/-!
# Runs of sessions

What an operation can do to a session is said once. The graph of a session is well
formed after every run, since a session changes its graph only through the
operations of its store.
-/

namespace RecipeGraph.Session

/-- What can be asked of a session. -/
inductive Operation where
  | load (graph : Graph)
  | addNode (node : Node)
  | removeNode (id : String)
  | updateNode (id : String) (patch : NodePatch)
  | addEdge (connection : Connection)
  | removeEdge (id : String)
  | compile (id : String)
  | train (id : String) (watched : Bool)

/-- The session behind an operation, whether it succeeds or fails. -/
def apply (compilers : Compilers) (session : Session) : Operation → Session
  | .load graph => (session.load graph).2
  | .addNode node => (session.addNode node).2
  | .removeNode id => (session.removeNode id).2
  | .updateNode id patch => (session.updateNode id patch).2
  | .addEdge connection => (session.addEdge connection).2
  | .removeEdge id => (session.removeEdge id).2
  | .compile id => (session.compile compilers id).2
  | .train id watched => (session.train id watched).session

/-- Sessions that operations of some sort lead to, from the empty session or
from the starter graph. -/
inductive Reached (registry : Registry) (allowed : Operation → Prop) : Session → Prop
  | empty : Reached registry allowed Session.empty
  | starter : Reached registry allowed Session.scaffold.2
  | step {session : Session} {operation : Operation}
      (earlier : Reached registry allowed session) (permitted : allowed operation) :
      Reached registry allowed (session.apply registry operation)

/-- The session behind operations that are asked for one after the other. -/
def run (registry : Registry) (session : Session) (operations : List Operation) : Session :=
  operations.foldl (apply registry) session

theorem Reached.run {registry : Registry} {allowed : Operation → Prop} {session : Session}
    (reached : Reached registry allowed session) {operations : List Operation}
    (permitted : ∀ operation ∈ operations, allowed operation) :
    Reached registry allowed (session.run registry operations) := by
  induction operations generalizing session with
  | nil => exact reached
  | cons operation rest ih =>
    refine ih (reached.step (permitted operation List.mem_cons_self)) fun other member => ?_
    exact permitted other (List.mem_cons_of_mem _ member)

/-- The store as an operation changes it, apart from what is left on nodes. -/
def edited (session : Session) : Operation → Store
  | .load graph => (session.store.load graph).2
  | .addNode node => (session.store.addNode node).2
  | .removeNode id => (session.store.removeNode id).2
  | .updateNode id patch => (session.store.updateNode id patch).2
  | .addEdge connection => (session.store.addEdge connection).2
  | .removeEdge id => (session.store.removeEdge id).2
  | .compile _ => session.store
  | .train .. => session.store

/-- The edit of the store with which an operation starts. -/
def Operation.edit? : Operation → Option Store.Operation
  | .load graph => some (.load graph)
  | .addNode node => some (.addNode node)
  | .removeNode id => some (.removeNode id)
  | .updateNode id patch => some (.updateNode id patch)
  | .addEdge connection => some (.addEdge connection)
  | .removeEdge id => some (.removeEdge id)
  | .compile _ => none
  | .train .. => none

@[simp] theorem edited_eq (session : Session) (operation : Operation) :
    session.edited operation = operation.edit?.elim session.store session.store.apply := by
  cases operation <;> rfl

/-- What comes into a graph with an operation has the property. -/
def Operation.Brings (holds : Node → Prop) : Operation → Prop
  | .load graph => ∀ node ∈ graph.nodes, holds node.fresh
  | .addNode node => holds node.fresh
  | .updateNode _ patch => ∀ node patched, holds node → node.patched patch = .ok patched →
      holds patched
  | _ => True

/-- The ways in which an operation can change a session. -/
inductive Steps (compilers : Compilers) (session : Session) : Operation → Session → Prop
  /-- It failed, or there was nothing to change. -/
  | idle {operation : Operation} (same : session.edited operation = session.store) :
      Steps compilers session operation session
  | loaded {graph : Graph} {built : Store} (done : Store.build graph = (.ok (), built))
      (same : (session.edited (.load graph)).toGraph = built.toGraph) :
      Steps compilers session (.load graph)
        { session with store := session.edited (.load graph), fingerprints := [] }
  | added {node : Node} :
      Steps compilers session (.addNode node)
        (session.withStore (session.edited (.addNode node)))
  /-- Looking for stale results follows the change of the graph. -/
  | swept {operation : Operation} {middle : Session}
      (store : middle.store = session.edited operation)
      (entries : ∀ id, middle.store.contains id = true →
        middle.fingerprint? id = session.fingerprint? id) :
      Steps compilers session operation middle.invalidateStale
  /-- A patch that names no fields goes unnoticed. -/
  | unnoticed {id : String} {patch : NodePatch} (untouched : patch.touchesParams = false) :
      Steps compilers session (.updateNode id patch)
        (session.withStore (session.edited (.updateNode id patch)))
  | compiled {id : String} {node : Node} (found : session.store.node? id = some node) :
      Steps compilers session (.compile id) (session.compile compilers id).2
  /-- Only a node to train is told why it could not be trained. -/
  | noted {id message : String} {watched : Bool} {node : Node}
      (found : session.store.node? id = some node) (kind : node.kind = .trainModel) :
      Steps compilers session (.train id watched)
        (session.withStore (session.store.addError id message false).2)

section Runs

variable {session : Session}

theorem invalidateStale_wellFormed (sound : session.store.WellFormed) :
    session.invalidateStale.store.WellFormed :=
  Store.wellFormed_of_blank (blank_invalidateStale sound) sound

/-- What stays when a result goes is not lost by dropping stale results. -/
theorem every_invalidateStale {holds : Node → Prop} (lasting : Node.Lasting holds)
    (sound : session.store.WellFormed) (each : session.store.Every holds) :
    session.invalidateStale.store.Every holds := by
  intro node member
  have once := (invalidateStale_wellFormed sound).nodes_once
  obtain ⟨old, there, rfl | rfl⟩ := invalidateStale_node? sound (Graph.node?_of_mem once member)
  · exact each node (Graph.mem_of_node? there)
  · exact lasting.uncompiled old (each old (Graph.mem_of_node? there))

/-- Nothing is compiled in a graph that has just been built. -/
theorem isCompiled_built {graph : Graph} {built : Store}
    (done : Store.build graph = (.ok (), built))
    (same : session.store.toGraph = built.toGraph) (id : String) :
    session.isCompiled id = false := by
  have lasting : Node.Lasting fun node => node.data.compiled = false :=
    ⟨fun _ _ => rfl, fun _ _ bare => bare, fun _ _ _ bare _ => bare⟩
  have bare := Store.every_built lasting done same fun _ _ => rfl
  refine Bool.eq_false_iff.mpr fun compiled => ?_
  obtain ⟨node, found, marked⟩ := isCompiled_iff.mp compiled
  cases (bare node (Graph.mem_of_node? found)).symm.trans marked

/-- A compile is the compile of everything the node depends on, after which
each of these nodes is looked at. -/
theorem compile_spec (compilers : Compilers) (sound : session.store.WellFormed) {id : String}
    (known : session.store.contains id = true) :
    ∃ after, session.compile compilers id =
        ((session.store.compile compilers (session.store.ancestry id)).1, after) ∧
      after.store = (session.store.compile compilers (session.store.ancestry id)).2 ∧
      after.compiling = false ∧
      ∀ other, after.fingerprint? other =
        if other ∈ session.store.ancestry id then after.tracked other
        else session.fingerprint? other := by
  have store_sound := (Store.thins_compile compilers sound (session.store.ancestry id)).wellFormed
    sound
  unfold compile
  rw [Graph.connectedIds_eq_ok sound known]
  simp only
  revert store_sound
  generalize session.store.compile compilers (session.store.ancestry id) = outcome
  intro store_sound
  rcases @trackAll_spec { session with store := outcome.2, compiling := false } store_sound
    (session.store.ancestry id) with ⟨after, tracked, same, compiling, recorded⟩
  refine ⟨after, ?_, same, compiling, fun other => ?_⟩
  · simp only [tracked]
  · rw [recorded other, tracked_of_store same]
    rfl

theorem compile_of_missing (compilers : Compilers) {id : String}
    (missing : session.store.node? id = none) :
    session.compile compilers id = (.error (.nodeNotFound id), session) := by
  unfold compile
  rw [Graph.connectedIds_of_missing missing]

/-- How training goes. -/
inductive Trains (session : Session) (id : String) (watched : Bool) : Training → Prop
  | unknown (absent : session.store.node? id = none) :
      Trains session id watched ⟨.error (.nodeNotFound id), [], session⟩
  | untrainable {node : Node} (found : session.store.node? id = some node)
      (other : node.kind ≠ .trainModel) :
      Trains session id watched
        ⟨.error (.trainingFailure id (.notTrainable node.kind)), [], session⟩
  | lacking {node : Node} (found : session.store.node? id = some node)
      (kind : node.kind = .trainModel) (missing : job? node.data = none) :
      Trains session id watched ⟨.error (.trainingFailure id .missingInputs), [],
        session.withStore (session.store.addError id TrainingFault.missingInputs.message false).2⟩
  | refused {node : Node} {job : TrainingJob} {fault : FitFault}
      (found : session.store.node? id = some node) (kind : node.kind = .trainModel)
      (gathered : job? node.data = some job) (faulty : (job.run watched).result = .error fault) :
      Trains session id watched ⟨.error (.trainingFailure id (.fit fault)), (job.run watched).sent,
        session.withStore (session.store.addError id (TrainingFault.fit fault).message false).2⟩
  | done {node : Node} {job : TrainingJob} {report : TrainingReport}
      (found : session.store.node? id = some node) (kind : node.kind = .trainModel)
      (gathered : job? node.data = some job) (fitted : (job.run watched).result = .ok report) :
      Trains session id watched ⟨.ok report, (job.run watched).sent, session⟩

theorem trains (session : Session) (id : String) (watched : Bool) :
    session.Trains id watched (session.train id watched) := by
  unfold train prepareTraining
  cases found : session.store.node? id with
  | none => exact .unknown found
  | some node =>
    by_cases kind : node.kind = .trainModel
    · simp only [kind, ne_eq, not_true, if_false]
      cases gathered : job? node.data with
      | none => exact .lacking found kind gathered
      | some job =>
        simp only
        cases fitted : (job.run watched).result with
        | ok report => exact .done found kind gathered fitted
        | error fault => exact .refused found kind gathered fitted
    · simp only [ne_eq, kind, not_false_eq_true, if_true]
      exact .untrainable found kind

/-- Training leaves at most an error behind, on a node to train. -/
theorem session_train (session : Session) (id : String) (watched : Bool) :
    (session.train id watched).session = session ∨
      ∃ node message, session.store.node? id = some node ∧ node.kind = .trainModel ∧
        (session.train id watched).session =
          session.withStore (session.store.addError id message false).2 := by
  have course := session.trains id watched
  generalize session.train id watched = training at course ⊢
  cases course with
  | unknown => exact .inl rfl
  | untrainable => exact .inl rfl
  | lacking found kind => exact .inr ⟨_, _, found, kind, rfl⟩
  | refused found kind => exact .inr ⟨_, _, found, kind, rfl⟩
  | done => exact .inl rfl

theorem fingerprint?_of_removeNode {id other : String} {removed : Node}
    {after : Store} (done : session.store.removeNode id = (.ok removed, after))
    (known : after.contains other = true) :
    ((session.withStore after).forget id).fingerprint? other = session.fingerprint? other := by
  have apart : other ≠ id := by
    rintro rfl
    rw [Graph.contains, Store.node?_of_removeNode done] at known
    cases known
  rw [fingerprint?_forget, if_neg apart]
  rfl

theorem edited_wellFormed (sound : session.store.WellFormed) (operation : Operation) :
    (session.edited operation).WellFormed := by
  rw [edited_eq]
  cases operation.edit? with
  | none => exact sound
  | some edit => exact Store.apply_wellFormed sound edit

theorem every_edited {holds : Node → Prop} (lasting : Node.Lasting holds)
    (each : session.store.Every holds) {operation : Operation} (brings : operation.Brings holds) :
    (session.edited operation).Every holds := by
  cases operation with
  | load graph => exact Store.every_load lasting each brings
  | addNode node => exact Store.every_addNode each brings
  | removeNode id => exact Store.every_removeNode lasting each id
  | updateNode id patch => exact Store.every_updateNode lasting each id brings
  | addEdge connection => exact Store.every_connect lasting each connection none
  | removeEdge id => exact Store.every_removeEdge lasting each id
  | compile id => exact each
  | train id => exact each

/-- An operation that fails leaves the store as it was. -/
theorem Steps.failed {compilers : Compilers} {operation : Operation} {store : Store}
    (edited : session.edited operation = store) (same : store = session.store) :
    Steps compilers session operation (session.withStore store) := by
  rw [same]
  exact .idle (edited.trans same)

/-- Every operation takes one of the ways. -/
theorem steps_apply (compilers : Compilers) (session : Session) (operation : Operation) :
    Steps compilers session operation (session.apply compilers operation) := by
  cases operation with
  | load graph =>
    simp only [apply, load]
    split
    · next store done =>
      have edited : session.edited (.load graph) = store := congrArg Prod.snd done
      obtain ⟨built, success, same⟩ := Store.load_of_ok done
      rw [← edited] at same ⊢
      exact .loaded success same
    · next failed => exact .failed (congrArg Prod.snd failed) (Store.load_of_error failed)
  | addNode node => exact .added
  | removeNode id =>
    simp only [apply, removeNode]
    split
    · next store done =>
      have edited : session.edited (.removeNode id) = store := congrArg Prod.snd done
      exact .swept edited.symm fun _ known => fingerprint?_of_removeNode done known
    · next failed => exact .failed (congrArg Prod.snd failed) (Store.removeNode_of_error failed)
  | updateNode id patch =>
    simp only [apply, updateNode]
    split
    · next store done =>
      have edited : session.edited (.updateNode id patch) = store := congrArg Prod.snd done
      simp only
      split
      · exact .swept edited.symm fun _ _ => rfl
      · next untouched =>
        rw [← edited]
        exact .unnoticed (Bool.eq_false_iff.mpr untouched)
    · next failed => exact .failed (congrArg Prod.snd failed) (Store.updateNode_of_error failed)
  | addEdge connection =>
    simp only [apply, addEdge, Store.addEdge]
    split
    · next store done =>
      have edited : session.edited (.addEdge connection) = store := congrArg Prod.snd done
      exact .swept edited.symm fun _ _ => rfl
    · next failed => exact .failed (congrArg Prod.snd failed) (Store.connect_of_error failed)
  | removeEdge id =>
    simp only [apply, removeEdge]
    split
    · next store done =>
      have edited : session.edited (.removeEdge id) = store := congrArg Prod.snd done
      exact .swept edited.symm fun _ _ => rfl
    · next failed => exact .failed (congrArg Prod.snd failed) (Store.removeEdge_of_error failed)
  | compile id =>
    change Steps compilers session (.compile id) (session.compile compilers id).2
    cases found : session.store.node? id with
    | none =>
      rw [compile_of_missing compilers found]
      exact .idle rfl
    | some node => exact .compiled found
  | train id watched =>
    change Steps compilers session (.train id watched) (session.train id watched).session
    rcases session_train session id watched with same | ⟨node, message, found, kind, same⟩
    · rw [same]
      exact .idle rfl
    · rw [same]
      exact .noted found kind

/-- What a session has stays when it is given another store, and when it forgets what one node
was compiled from. -/
structure Lasting (holds : Session → Prop) : Prop where
  stored : ∀ session store, holds session → holds (session.withStore store)
  forgotten : ∀ session id, holds session → holds (session.forget id)

namespace Lasting

variable {holds : Session → Prop}

theorem invalidateStale (lasting : Lasting holds) (kept : holds session) :
    holds session.invalidateStale := by
  have once : ∀ session id, holds session → holds (session.invalidate id) := by
    intro session id kept
    have forgotten := lasting.forgotten session id kept
    unfold invalidate
    dsimp only
    split
    · exact lasting.stored _ _ forgotten
    · exact forgotten
  unfold Session.invalidateStale
  generalize session.stale = ids
  induction ids generalizing session with
  | nil => exact kept
  | cons id rest ih => exact ih (once session id kept)

/-- Besides, only loads forget everything and only compiles record anything. -/
theorem apply (lasting : Lasting holds) (compilers : Compilers) (kept : holds session)
    (emptied : ∀ store, holds { session with store, fingerprints := [] })
    (compiled : ∀ id, holds (session.compile compilers id).2) (operation : Operation) :
    holds (session.apply compilers operation) := by
  cases operation with
  | load graph =>
    simp only [Session.apply, load]
    split
    · exact emptied _
    · exact lasting.stored _ _ kept
  | addNode node => exact lasting.stored _ _ kept
  | removeNode id =>
    simp only [Session.apply, removeNode]
    split
    · exact lasting.invalidateStale (lasting.forgotten _ id (lasting.stored _ _ kept))
    · exact lasting.stored _ _ kept
  | updateNode id patch =>
    simp only [Session.apply, updateNode]
    split
    · dsimp only
      split
      · exact lasting.invalidateStale (lasting.stored _ _ kept)
      · exact lasting.stored _ _ kept
    · exact lasting.stored _ _ kept
  | addEdge connection =>
    simp only [Session.apply, addEdge]
    split
    · exact lasting.invalidateStale (lasting.stored _ _ kept)
    · exact lasting.stored _ _ kept
  | removeEdge id =>
    simp only [Session.apply, removeEdge]
    split
    · exact lasting.invalidateStale (lasting.stored _ _ kept)
    · exact lasting.stored _ _ kept
  | compile id => exact compiled id
  | train id watched =>
    change holds (session.train id watched).session
    rcases session_train session id watched with same | ⟨_, message, _, _, same⟩
    · rwa [same]
    · rw [same]
      exact lasting.stored _ _ kept

end Lasting

/-- A compile changes nothing but what is left on nodes. -/
theorem blank_compile (compilers : Compilers) (sound : session.store.WellFormed) {id : String}
    (known : session.store.contains id = true) :
    (session.compile compilers id).2.store.blank = session.store.blank := by
  obtain ⟨after, same, store, _⟩ := compile_spec compilers sound known
  rw [same]
  change after.store.blank = _
  rw [store]
  exact (Store.compile_frame compilers sound _).1

/-- What lasts, and what compilers and complaints of training keep, every operation keeps. -/
theorem every_apply {holds : Node → Prop} {compilers : Compilers} (lasting : Node.Lasting holds)
    (uphold : compilers.Uphold holds)
    (noted : ∀ node message, node.kind = .trainModel → holds node →
      holds (node.addError message false))
    (sound : session.store.WellFormed) (each : session.store.Every holds) {operation : Operation}
    (brings : operation.Brings holds) : (session.apply compilers operation).store.Every holds := by
  have edited := every_edited lasting each brings
  have steps := steps_apply compilers session operation
  generalize session.apply compilers operation = after at steps ⊢
  cases steps with
  | idle => exact each
  | loaded => exact edited
  | added => exact edited
  | swept store _ =>
    have sound' := edited_wellFormed sound operation
    rw [← store] at edited sound'
    exact every_invalidateStale lasting sound' edited
  | unnoticed _ => exact edited
  | @compiled id _ found =>
    obtain ⟨compiled, same, store, _⟩ :=
      compile_spec compilers sound (Graph.contains_iff.mpr ⟨_, found⟩)
    rw [same]
    change compiled.store.Every holds
    rw [store]
    exact Store.every_compile uphold sound each _
  | @noted id message _ node found kind =>
    change (session.store.addError id message false).2.Every holds
    rw [Store.addError, if_pos (Graph.contains_iff.mpr ⟨node, found⟩)]
    change (session.store.modifyNode id fun node => node.addError message false).Every holds
    rw [← Store.modifyNode_const sound found]
    exact Store.every_modifyNode each fun _ _ =>
      noted node message kind (each node (Graph.mem_of_node? found))

/-- After a compile, a compiled node is recorded as the graph is then, or it has been compiled
and recorded before. -/
theorem recorded_compile (compilers : Compilers) (sound : session.store.WellFormed) {id : String}
    (known : session.store.contains id = true) {member : String}
    (compiled : (session.compile compilers id).2.isCompiled member = true) :
    (∃ now, Fingerprint.capture (session.compile compilers id).2.store.toGraph member = .ok now ∧
        (session.compile compilers id).2.fingerprint? member = some now) ∨
      session.isCompiled member = true ∧
        (session.compile compilers id).2.fingerprint? member = session.fingerprint? member := by
  obtain ⟨after, same, store, _, entries⟩ := compile_spec compilers sound known
  obtain ⟨blank, others⟩ := Store.compile_frame compilers sound (session.store.ancestry id)
  rw [← store] at blank others
  rw [same] at compiled ⊢
  change after.isCompiled member = true at compiled
  have entry := entries member
  split at entry
  · obtain ⟨now, captured, recorded⟩ :=
      exists_tracked (Store.wellFormed_of_blank blank sound) compiled
    exact .inl ⟨now, captured, entry.trans recorded⟩
  · next away =>
    refine .inr ⟨?_, entry⟩
    rw [isCompiled, ← others member away]
    exact compiled

/-- What a session adds to the operations of its store shows only in what is left
on nodes. -/
theorem Steps.blank {compilers : Compilers} {operation : Operation} {after : Session}
    (steps : Steps compilers session operation after) (sound : session.store.WellFormed) :
    after.store.blank = (session.edited operation).blank := by
  cases steps with
  | idle same => rw [same]
  | loaded => rfl
  | added => rfl
  | swept store _ =>
    rw [← store]
    apply blank_invalidateStale
    rw [store]
    exact edited_wellFormed sound _
  | unnoticed _ => rfl
  | compiled found => exact blank_compile compilers sound (Graph.contains_iff.mpr ⟨_, found⟩)
  | noted => exact Store.blank_addError _ _ _ _

theorem apply_wellFormed (compilers : Compilers) (sound : session.store.WellFormed)
    (operation : Operation) : (session.apply compilers operation).store.WellFormed :=
  Store.wellFormed_of_blank ((steps_apply compilers session operation).blank sound)
    (edited_wellFormed sound operation)

theorem Reached.wellFormed {registry : Registry} {allowed : Operation → Prop}
    (reached : Reached registry allowed session) : session.store.WellFormed := by
  induction reached with
  | empty => exact Store.empty_wellFormed
  | starter => exact Store.load_wellFormed Store.empty_wellFormed starterGraph
  | step _ _ ih => exact apply_wellFormed registry ih _

/-- What the empty session has and every allowed operation keeps, every session that is
reached has. The starter graph is loaded into the empty session. -/
@[elab_as_elim]
theorem Reached.keeps {registry : Registry} {allowed : Operation → Prop} {holds : Session → Prop}
    (reached : Reached registry allowed session) (empty : holds Session.empty)
    (given : allowed (.load starterGraph))
    (keep : ∀ {before : Session} {operation : Operation}, Reached registry allowed before →
      allowed operation → holds before → holds (before.apply registry operation)) :
    holds session := by
  induction reached with
  | empty => exact empty
  | starter => exact keep .empty given empty
  | step earlier permitted ih => exact keep earlier permitted ih

/-- If exactly the operations that break a property end it, it holds throughout a run exactly
if no operation of the run breaks it. -/
theorem run_throughout_iff {registry : Registry} {operations : List Operation}
    {holds : Session → Prop} {breaks : Session → Operation → Prop} (begins : holds session)
    (step : ∀ before operation after, operations = before ++ operation :: after →
      holds (session.run registry before) →
      (holds ((session.run registry before).apply registry operation) ↔
        ¬ breaks (session.run registry before) operation)) :
    (∀ before after, operations = before ++ after → holds (session.run registry before)) ↔
      ∀ before operation after, operations = before ++ operation :: after →
        ¬ breaks (session.run registry before) operation := by
  have last : ∀ before operation, session.run registry (before ++ [operation]) =
      (session.run registry before).apply registry operation := by
    intro before operation
    unfold run
    rw [List.foldl_append]
    rfl
  constructor
  · intro always before operation after split
    apply (step before operation after split (always _ _ split)).mp
    rw [← last]
    exact always (before ++ [operation]) after (by rw [split]; simp)
  · intro never before
    -- The induction appends, since it is the whole prefix that ends in the session.
    induction before using List.reverseRecOn with
    | nil => exact fun _ _ => begins
    | append_singleton before operation ih =>
      intro after split
      have split' : operations = before ++ operation :: after := by rw [split]; simp
      rw [last]
      exact (step before operation after split' (ih _ split')).mpr (never _ _ _ split')

end Runs

end RecipeGraph.Session
