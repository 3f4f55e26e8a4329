import RecipeGraph.Proofs.Determining
import RecipeGraph.Proofs.Settling

/-!
# Guards that nothing gets to

A run comes to a node behind all that leads to it, and training gathers what a run has
left. Both find results that fit, so the guards against others are never met.
-/

namespace RecipeGraph

namespace Store

/-- A run fails at no guard. -/
theorem compile_fault {store : Store} (sound : store.WellFormed) {id member : String}
    {fault : CompileFault}
    (failure : (store.compile Registry.standard (store.ancestry id)).1 =
      .error (.compileFailure member fault)) : fault.isGuard = false := by
  cases sorted : store.topoSort (store.ancestry id) with
  | error error =>
    rw [(compile_of_unsorted Registry.standard sorted).1] at failure
    cases failure
    unfold Graph.topoSort Schedule.sorted at sorted
    split at sorted <;> cases sorted
  | ok order =>
    rcases compile_of_sorted Registry.standard sound sorted with
      ⟨final, _, done, _⟩ | ⟨before, next, rest, middle, error, final, rfl, stages, halt, done, _⟩
    · rw [done] at failure
      cases failure
    · rw [done] at failure
      cases failure
      cases halt with
      | failed found served faulty =>
        have ordered := ordered_of_topoSort sorted
        have blank := stages.blank
        have ready : middle.Ready member := by
          refine Graph.ready_of_stored blank fun ancestor leads => ?_
          obtain ⟨node, value, there, output, means⟩ :=
            stages.holds ordered rfl (ordered.ancestors_before rfl leads)
          exact ⟨node, value, there, output, means.fits sound⟩
        cases served
        have settled := Graph.settles_compileAs (wellFormed_of_blank blank sound) ready found
        rw [faulty] at settled
        cases settled with
        | error real => exact real

end Store

namespace Session

@[simp] theorem job?_eq_some {data : NodeData} {job : TrainingJob} :
    job? data = some job ↔ data.compiled = true ∧ data.output = some (.training
      ⟨some job.model, some job.x, some job.y, job.options.epochs, job.options.batchSize⟩) := by
  unfold job?
  by_cases compiled : data.compiled = true
  · rw [if_pos compiled, and_iff_right compiled]
    constructor
    · intro gathered
      split at gathered
      · next output =>
        cases gathered
        exact output
      · cases gathered
    · intro output
      rw [output]
  · rw [if_neg compiled]
    exact ⟨nofun, fun made => (compiled made.1).elim⟩

theorem exists_setup_of_job? {data : NodeData} {job : TrainingJob} (gathered : job? data = some job) :
    ∃ setup model x y, data.output = some (.training setup) ∧ setup.model = some model ∧
      job = ⟨model, x, y, ⟨setup.epochs, setup.batchSize⟩⟩ :=
  ⟨_, _, _, _, (job?_eq_some.mp gathered).2, rfl, rfl⟩

/-- What a job needs is described by the graph, so fitting it fails at the data only. -/
theorem fit_fault {graph : Graph} {keep : Nat → Nat} {id : String} {setup : TrainingSetup}
    {model : ModelArtifact} {x y : TensorValue} (described : graph.DescribesTraining keep id setup)
    (given : setup.model = some model) {fault : FitFault} {watched : Bool}
    (faulty : (model.fit x y ⟨setup.epochs, setup.batchSize⟩ watched).result = .error fault) :
    fault ≠ .severalInputs ∧ fault ≠ .emptySchedule := by
  obtain ⟨input, inputs⟩ : ∃ input, model.inputs = [input] := by
    have arrives := described.model
    rw [given] at arrives
    cases arrives with
    | something _ fit =>
      obtain ⟨_, input, _, _, _, inputs⟩ := fit.inputs
      exact ⟨input, inputs⟩
  have scheduled : (decide (setup.epochs = 0) || decide (setup.batchSize = 0)) = false := by
    simp [described.epochs.ne', described.batchSize.ne']
  simp only [ModelArtifact.fit, scheduled, inputs, Bool.false_eq_true, if_false] at faulty
  split_ifs at faulty <;> cases faulty <;> exact ⟨nofun, nofun⟩

/-- Training that fails in the fit has gathered a job. -/
theorem exists_job_of_train {session : Session} {id member : String} {watched : Bool}
    {fault : FitFault} (failure : (session.train id watched).result =
      .error (.trainingFailure member (.fit fault))) :
    ∃ node job, session.store.node? id = some node ∧ job? node.data = some job ∧
      (job.run watched).result = .error fault := by
  have course := session.trains id watched
  generalize session.train id watched = training at course failure
  cases course with
  | refused found _ gathered faulty =>
    cases failure
    exact ⟨_, _, found, gathered, faulty⟩
  | _ => cases failure

end Session

end RecipeGraph
