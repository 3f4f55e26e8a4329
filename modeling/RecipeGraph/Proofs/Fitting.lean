import RecipeGraph.Proofs.Enduring
import RecipeGraph.Proofs.Guarding
import RecipeGraph.Proofs.Refusing
import Mathlib.Algebra.Order.Floor.Div

/-!
# Training from end to end

Training succeeds exactly where a compiled node has all of its handles in use and the data
has the shapes that go into the model and come out of it. What it reports follows from the
schedule of the node and the number of rows.
-/

namespace RecipeGraph

/-- Both tensors have the same number of rows, of the shapes that go into the model and
come out of it. -/
structure ModelArtifact.Takes (model : ModelArtifact) (x y : TensorValue) (samples : Nat) :
    Prop where
  rows : 0 < samples
  given : ∃ input, model.inputs = [input] ∧ x.shape = samples :: input.shape.features
  expected : y.shape = samples :: model.output.shape.features

/-- A fit reports its schedule, all samples and as many batches as it takes for them. Whoever
watches is told of each epoch in order, and nobody else of any. -/
structure TrainingReport.Counts (report : TrainingReport) (sent : List TrainingProgress)
    (watched : Bool) (epochs batchSize samples : Nat) : Prop where
  schedule : report.epochs = epochs
  rows : report.samples = samples
  batches : IsLeast {b | samples ≤ b * batchSize} report.batchesPerEpoch
  numbered : sent.map (·.epoch) = if watched then List.range' 1 epochs else []
  alike : ∀ message ∈ sent, message.epochs = epochs ∧ message.batches = report.batchesPerEpoch

/-- The last batch may be short. -/
theorem isLeast_batches (samples : Nat) {batchSize : Nat} (positive : 0 < batchSize) :
    IsLeast {b | samples ≤ b * batchSize} ((samples + batchSize - 1) / batchSize) := by
  have bound : ∀ b, (samples + batchSize - 1) / batchSize ≤ b ↔ samples ≤ b * batchSize := by
    intro b
    rw [← Nat.ceilDiv_eq_add_pred_div, ceilDiv_le_iff_le_mul positive, mul_comm]
  exact ⟨(bound _).mp le_rfl, fun b enough => (bound b).mpr enough⟩

namespace FitOptions

variable {options : FitOptions} {batches : Nat} {watched : Bool}

/-- The epochs that remain are told of in order, if anybody watches. -/
@[simp] theorem epochs_of_walk (remaining epoch : Nat) :
    (options.walk batches watched remaining epoch).map (·.epoch) =
      if watched then List.range' epoch remaining else [] := by
  induction remaining generalizing epoch with
  | zero => cases watched <;> rfl
  | succ remaining ih =>
    have later := ih (epoch + 1)
    cases watched with
    | false => exact later
    | true => exact congrArg (epoch :: ·) later

/-- All messages of a walk give the same counts. -/
theorem counts_of_walk {remaining epoch : Nat} {message : TrainingProgress}
    (listed : message ∈ options.walk batches watched remaining epoch) :
    message.epochs = options.epochs ∧ message.batches = batches := by
  induction remaining generalizing epoch with
  | zero => cases listed
  | succ remaining ih =>
    cases watched with
    | false => exact ih listed
    | true =>
      rcases List.mem_cons.mp listed with rfl | later
      · exact ⟨rfl, rfl⟩
      · exact ih later

end FitOptions

theorem TrainingReport.counts {options : FitOptions} (samples : Nat) (watched : Bool)
    (positive : 0 < options.batchSize) :
    (⟨options.epochs, samples, (samples + options.batchSize - 1) / options.batchSize⟩ :
      TrainingReport).Counts (options.walk ((samples + options.batchSize - 1) / options.batchSize)
        watched options.epochs 1) watched options.epochs options.batchSize samples where
  schedule := rfl
  rows := rfl
  batches := isLeast_batches samples positive
  numbered := FitOptions.epochs_of_walk _ _
  alike _ listed := FitOptions.counts_of_walk listed

theorem TensorValue.shape_eq_cons {tensor : TensorValue} {samples : Nat} (positive : 0 < samples)
    {features : List Nat} :
    tensor.shape = samples :: features ↔
      tensor.samples = samples ∧ tensor.featureShape = features := by
  unfold TensorValue.samples featureShape
  cases tensor.shape with
  | nil => simp [positive.ne]
  | cons first rest => simp

namespace ModelArtifact

variable {model : ModelArtifact} {x y : TensorValue} {options : FitOptions} {watched : Bool}

/-- A fit succeeds if the schedule is not empty and the data suits the model. -/
@[simp] theorem fit_eq_ok {report : TrainingReport} :
    (model.fit x y options watched).result = .ok report ↔
      0 < options.epochs ∧ 0 < options.batchSize ∧
      ∃ samples, model.Takes x y samples ∧ report = ⟨options.epochs, samples,
        (samples + options.batchSize - 1) / options.batchSize⟩ := by
  unfold ModelArtifact.fit
  by_cases idle : options.epochs = 0 ∨ options.batchSize = 0
  · rw [if_pos (by simpa using idle)]
    refine ⟨nofun, ?_⟩
    rintro ⟨positive, positive', _⟩
    omega
  rw [if_neg (by simpa using idle)]
  constructor
  · intro done
    split at done
    · next input inputs =>
      split_ifs at done with rows features features'
      rw [Bool.or_eq_true, not_or, decide_eq_true_eq, decide_eq_true_eq, not_not] at rows
      rw [not_not] at features features'
      have positive := Nat.pos_of_ne_zero rows.1
      refine ⟨by omega, by omega, x.samples, ⟨positive, ⟨input, inputs, ?_⟩, ?_⟩, ?_⟩
      · exact (TensorValue.shape_eq_cons positive).mpr ⟨rfl, features⟩
      · exact (TensorValue.shape_eq_cons positive).mpr ⟨rows.2.symm, features'⟩
      · exact (Except.ok.inj done).symm
    · cases done
  · rintro ⟨_, _, samples, takes, rfl⟩
    obtain ⟨input, inputs, shape⟩ := takes.given
    obtain ⟨rows, features⟩ := (TensorValue.shape_eq_cons takes.rows).mp shape
    obtain ⟨rows', features'⟩ := (TensorValue.shape_eq_cons takes.rows).mp takes.expected
    simp [inputs, rows, rows', features, features', takes.rows.ne']

/-- A fit that succeeds has walked through all epochs, and one that fails through none. -/
@[simp] theorem sent_fit : (model.fit x y options watched).sent =
    match (model.fit x y options watched).result with
    | .ok report => options.walk report.batchesPerEpoch watched options.epochs 1
    | .error _ => [] := by
  unfold fit
  by_cases idle : options.epochs = 0 || options.batchSize = 0
  · rw [if_pos idle]
  rw [if_neg idle]
  cases model.inputs with
  | nil => rfl
  | cons input others =>
    cases others with
    | nil =>
      dsimp only
      split_ifs <;> rfl
    | cons => rfl

end ModelArtifact

namespace Graph

/-- Something arrives exactly on the handles in use. -/
theorem Arrives.isSome_iff {graph : Graph} {id handle : String} {α : Type}
    {fits : String → α → Prop} {given : Option α} (arrives : graph.Arrives id handle fits given) :
    given.isSome = true ↔ graph.fed id handle = true := by
  cases arrives with
  | nothing free => simp [fed, free]
  | something plugged => simp [fed, plugged]

end Graph

namespace Session

/-- Something is plugged into each handle of the training node. -/
def Plugged (session : Session) (id : String) : Prop :=
  session.store.fed id Handle.model = true ∧ session.store.fed id Handle.x = true ∧
    session.store.fed id Handle.y = true

/-- The node is a compiled training node with all handles in use, and it holds data that
suits its model. -/
inductive Trainable (session : Session) (id : String) (epochs batchSize samples : Nat) : Prop
  | intro {node : Node} {model : ModelArtifact} {x y : TensorValue}
      (found : session.store.node? id = some node)
      (fields : node.params = .trainModel epochs batchSize) (compiled : node.data.compiled = true)
      (plugged : session.Plugged id)
      (held : node.data.output =
        some (.training ⟨some model, some x, some y, epochs, batchSize⟩))
      (takes : model.Takes x y samples)

variable {session : Session} {id : String} {watched : Bool}

/-- A compiled training node holds a setup that the graph describes. -/
theorem exists_setup (enduring : session.Enduring) (consistent : session.Consistent) {node : Node}
    (found : session.store.node? id = some node) (kind : node.kind = .trainModel)
    (compiled : node.data.compiled = true) : ∃ setup,
      node.data.output = some (.training setup) ∧
        session.store.DescribesTraining Number.wrap id setup := by
  have held := (consistent node (Graph.mem_of_node? found)).held compiled
  obtain ⟨value, output⟩ := Option.isSome_iff_exists.mp held
  have fits := (enduring id node value found output).fits
  rw [kind] at fits
  cases fits with
  | trainModel described => exact ⟨_, output, described⟩

/-- A compiled training node with all handles in use holds something for each of them, and
its model has one input. -/
theorem exists_complete (enduring : session.Enduring) (consistent : session.Consistent)
    (plugged : session.Plugged id) {node : Node} (found : session.store.node? id = some node)
    (kind : node.kind = .trainModel) (compiled : node.data.compiled = true) :
    ∃ model x y epochs batchSize, node.data.output =
        some (.training ⟨some model, some x, some y, epochs, batchSize⟩) ∧
      ∃ input, model.inputs = [input] := by
  obtain ⟨setup, held, described⟩ := exists_setup enduring consistent found kind compiled
  obtain ⟨model, x, y, epochs, batchSize⟩ := setup
  obtain ⟨model, rfl⟩ := Option.isSome_iff_exists.mp (described.model.isSome_iff.mpr plugged.1)
  obtain ⟨x, rfl⟩ := Option.isSome_iff_exists.mp (described.x.isSome_iff.mpr plugged.2.1)
  obtain ⟨y, rfl⟩ := Option.isSome_iff_exists.mp (described.y.isSome_iff.mpr plugged.2.2)
  cases described.model with
  | something _ fit =>
    obtain ⟨_, input, _, _, _, inputs⟩ := fit.inputs
    exact ⟨model, x, y, epochs, batchSize, held, input, inputs⟩

/-- A node with a job has all of its handles in use, and the schedule of the job. -/
theorem plugged_of_job (enduring : session.Enduring) (consistent : session.Consistent)
    {node : Node} {job : TrainingJob} (found : session.store.node? id = some node)
    (kind : node.kind = .trainModel) (given : job? node.data = some job) : session.Plugged id ∧
      node.params = .trainModel job.options.epochs job.options.batchSize ∧
      0 < job.options.epochs ∧ 0 < job.options.batchSize := by
  obtain ⟨compiled, output⟩ := job?_eq_some.mp given
  obtain ⟨setup, held, described⟩ := exists_setup enduring consistent found kind compiled
  cases held.symm.trans output
  have fields := described.fields
  rw [Graph.params?_of_node? found, Option.some.injEq] at fields
  exact ⟨⟨described.model.isSome_iff.mp rfl, described.x.isSome_iff.mp rfl,
    described.y.isSome_iff.mp rfl⟩, fields, described.epochs, described.batchSize⟩

/-- Training that succeeds was possible, changes nothing, and reports and tells what it
should. -/
theorem Trains.of_done (enduring : session.Enduring) (consistent : session.Consistent)
    {training : Training} {report : TrainingReport} (trains : session.Trains id watched training)
    (done : training.result = .ok report) : training.session = session ∧
      ∃ epochs batchSize samples, session.Trainable id epochs batchSize samples ∧
        report.Counts training.sent watched epochs batchSize samples := by
  cases trains with
  | @done node job _ found kind given fitted =>
    cases done
    obtain ⟨compiled, output⟩ := job?_eq_some.mp given
    obtain ⟨plugged, fields, _, positive⟩ := plugged_of_job enduring consistent found kind given
    have sent : (job.run watched).sent = _ := ModelArtifact.sent_fit
    rw [show (job.model.fit job.x job.y job.options watched).result = .ok report from fitted] at sent
    obtain ⟨_, _, samples, takes, rfl⟩ := ModelArtifact.fit_eq_ok.mp fitted
    refine ⟨rfl, _, _, samples, .intro found fields compiled plugged output takes, ?_⟩
    rw [sent]
    exact TrainingReport.counts samples watched positive
  | _ => cases done

/-- Where training is possible it succeeds. -/
theorem done_of_trainable (enduring : session.Enduring) (consistent : session.Consistent)
    {epochs batchSize samples : Nat} (trainable : session.Trainable id epochs batchSize samples)
    (watched : Bool) : ∃ report, (session.train id watched).result = .ok report := by
  obtain @⟨node, model, x, y, found, fields, compiled, plugged, held, takes⟩ := trainable
  have kind : node.kind = .trainModel := congrArg NodeParams.kind fields
  have given : job? node.data = some ⟨model, x, y, ⟨epochs, batchSize⟩⟩ :=
    job?_eq_some.mpr ⟨compiled, held⟩
  obtain ⟨_, _, positive, positive'⟩ := plugged_of_job enduring consistent found kind given
  have fitted : ((⟨model, x, y, ⟨epochs, batchSize⟩⟩ : TrainingJob).run watched).result =
      .ok ⟨epochs, samples, (samples + batchSize - 1) / batchSize⟩ :=
    ModelArtifact.fit_eq_ok.mpr ⟨positive, positive', samples, takes, rfl⟩
  have done : (session.train id watched).result =
      .ok ⟨epochs, samples, (samples + batchSize - 1) / batchSize⟩ := by
    unfold train prepareTraining
    simp only [found, kind, ne_eq, not_true, if_false, given, fitted]
  exact ⟨_, done⟩

/-- Training in vain leaves at most a message, one that is new, on a training node. -/
inductive Complains (before : Session) (id : String) (after : Session) : Prop
  | silent (same : after.store.toGraph = before.store.toGraph)
  | noted {node : Node} {message : String} (found : before.store.node? id = some node)
      (kind : node.kind = .trainModel) (new : message ∉ node.data.errors)
      (marked : after.store.toGraph =
        (before.store.modifyNode id (Node.complaining message)).toGraph)

theorem complains_of_addError (sound : session.store.WellFormed) {node : Node}
    (found : session.store.node? id = some node) (kind : node.kind = .trainModel)
    (message : String) :
    session.Complains id (session.withStore (session.store.addError id message false).2) := by
  rcases Store.addError_cases sound id message with same | ⟨other, there, new, marked⟩
  · exact .silent same
  · cases found.symm.trans there
    exact .noted found kind new marked

/-- Training in vain is told apart from training a node that is not there. It sends no
messages and leaves nothing but one on the node. -/
theorem Trains.of_failed (sound : session.store.WellFormed) {training : Training}
    {error : GraphError} (trains : session.Trains id watched training)
    (failed : training.result = .error error) :
    (error = .nodeNotFound id ∧ session.store.node? id = none ∨
      ∃ fault, error = .trainingFailure id fault) ∧
    training.sent = [] ∧ training.session = session.withStore training.session.store ∧
    session.Complains id training.session := by
  cases trains with
  | unknown absent =>
    cases failed
    exact ⟨.inl ⟨rfl, absent⟩, rfl, rfl, .silent rfl⟩
  | untrainable =>
    cases failed
    exact ⟨.inr ⟨_, rfl⟩, rfl, rfl, .silent rfl⟩
  | lacking found kind =>
    cases failed
    exact ⟨.inr ⟨_, rfl⟩, rfl, rfl, complains_of_addError sound found kind _⟩
  | @refused node job fault found kind _ faulty =>
    cases failed
    have sent : (job.run watched).sent = _ := ModelArtifact.sent_fit
    rw [show (job.model.fit job.x job.y job.options watched).result = .error fault from faulty]
      at sent
    exact ⟨.inr ⟨_, rfl⟩, sent, rfl, complains_of_addError sound found kind _⟩
  | done => cases failed

/-- In every session, a compiled training node with all handles in use has gathered all it
needs. Training succeeds exactly where the data of such a node suits its model. It then
changes nothing and reports the schedule of the node, the number of samples and the least
number of batches, and whoever watches is sent one message for each epoch. Training in vain
sends none and leaves at most one new message on the node. -/
theorem train_iff_trainable (reached : Reached Registry.standard Operation.Plain session)
    (id : String) (watched : Bool) :
    (∀ node, session.store.node? id = some node → node.kind = .trainModel →
      node.data.compiled = true → session.Plugged id →
      ∃ model x y epochs batchSize, node.data.output =
          some (.training ⟨some model, some x, some y, epochs, batchSize⟩) ∧
        ∃ input, model.inputs = [input]) ∧
    ((∃ report, (session.train id watched).result = .ok report) ↔
      ∃ epochs batchSize samples, session.Trainable id epochs batchSize samples) ∧
    (∀ report, (session.train id watched).result = .ok report →
      (session.train id watched).session = session ∧
      ∃ epochs batchSize samples, session.Trainable id epochs batchSize samples ∧
        report.Counts (session.train id watched).sent watched epochs batchSize samples) ∧
    ∀ error, (session.train id watched).result = .error error →
      (error = .nodeNotFound id ∧ session.store.node? id = none ∨
        ∃ fault, error = .trainingFailure id fault) ∧
      (session.train id watched).sent = [] ∧
      (session.train id watched).session =
        session.withStore (session.train id watched).session.store ∧
      session.Complains id (session.train id watched).session := by
  have enduring := reached.enduring
  have consistent := reached.consistent
  have course := session.trains id watched
  refine ⟨fun node found kind compiled plugged =>
      exists_complete enduring consistent plugged found kind compiled,
    ⟨?_, ?_⟩, fun report done => course.of_done enduring consistent done,
    fun error failed => course.of_failed reached.wellFormed failed⟩
  · rintro ⟨report, done⟩
    obtain ⟨_, epochs, batchSize, samples, trainable, _⟩ :=
      course.of_done enduring consistent done
    exact ⟨epochs, batchSize, samples, trainable⟩
  · rintro ⟨epochs, batchSize, samples, trainable⟩
    exact done_of_trainable enduring consistent trainable watched

/-- A model of one dense layer and three rows of data for it. -/
def rows : List Operation := [
  .load {
    nodes := [
      { id := "i", params := .inputLayer [2] },
      { id := "o", params := .denseLayer 1 .linear none },
      { id := "m", params := .model .sgd .mse 0.5 },
      { id := "x", params := .tensor [0, 0, 0, 1, 1, 0] [3, 2] },
      { id := "y", params := .tensor [0, 1, 1] [3, 1] },
      { id := "t", params := .trainModel 4 2 }]
    edges := [
      ⟨"io", "i", "o", none, some Handle.input⟩, ⟨"om", "o", "m", none, some Handle.input⟩,
      ⟨"mt", "m", "t", none, some Handle.model⟩, ⟨"xt", "x", "t", none, some Handle.x⟩,
      ⟨"yt", "y", "t", none, some Handle.y⟩] },
  .compile "t"]

theorem train_rows :
    (∀ operation ∈ rows, operation.Plain) ∧
    ((Session.empty.run Registry.standard rows).train "t" true).result = .ok ⟨4, 3, 2⟩ ∧
    ∃ epochs batchSize samples,
      (Session.empty.run Registry.standard rows).Trainable "t" epochs batchSize samples ∧
        (⟨4, 3, 2⟩ : TrainingReport).Counts
          ((Session.empty.run Registry.standard rows).train "t" true).sent true epochs batchSize
          samples := by
  have plain : ∀ operation ∈ rows, operation.Plain := by decide +kernel
  have reported : ((Session.empty.run Registry.standard rows).train "t" true).result.toOption =
      some ⟨4, 3, 2⟩ := by decide +kernel
  obtain ⟨_, _, succeeds, _⟩ := train_iff_trainable (Reached.empty.run plain) "t" true
  cases done : ((Session.empty.run Registry.standard rows).train "t" true).result with
  | error error =>
    rw [done] at reported
    cases reported
  | ok report =>
    rw [done] at reported
    cases reported
    exact ⟨plain, rfl, (succeeds _ done).2⟩

end Session

end RecipeGraph
