import RecipeGraph.Artifact
import RecipeGraph.Failure

/-!
Fitting models, on the level of shapes: the data has to match the model, and the
batches of every epoch are counted. Whoever watches a fit is sent a message behind
every epoch.
-/

namespace RecipeGraph

structure FitOptions where
  epochs : Nat
  batchSize : Nat
deriving DecidableEq, Repr

/-- Sent when an epoch is finished. -/
structure TrainingProgress where
  epoch : Nat
  epochs : Nat
  batches : Nat
deriving DecidableEq, Repr

structure TrainingReport where
  epochs : Nat
  samples : Nat
  batchesPerEpoch : Nat
deriving DecidableEq, Repr

/-- How a fit ends, and the messages it has sent by then. -/
structure Fitting where
  result : Except FitFault TrainingReport
  sent : List TrainingProgress

namespace FitOptions

/-- Messages of the epochs that remain, from `epoch` on. Nothing is sent if nobody
watches. -/
def walk (options : FitOptions) (batches : Nat) (watched : Bool) :
    (remaining epoch : Nat) → List TrainingProgress
  | 0, _ => []
  | remaining + 1, epoch =>
    let later := walk options batches watched remaining (epoch + 1)
    if watched then ⟨epoch, options.epochs, batches⟩ :: later else later

end FitOptions

namespace ModelArtifact

/-- The last batch of an epoch may be short. -/
def fit (model : ModelArtifact) (x y : TensorValue) (options : FitOptions) (watched : Bool) :
    Fitting :=
  if options.epochs = 0 || options.batchSize = 0 then ⟨.error .emptySchedule, []⟩
  else
    match model.inputs with
    | [input] =>
      if x.samples = 0 || x.samples ≠ y.samples then
        ⟨.error (.sampleCounts x.samples y.samples), []⟩
      else if x.featureShape ≠ input.shape.features then
        ⟨.error (.featuresOfX x.featureShape input.shape.features), []⟩
      else if y.featureShape ≠ model.output.shape.features then
        ⟨.error (.featuresOfY y.featureShape model.output.shape.features), []⟩
      else
        let batches := (x.samples + options.batchSize - 1) / options.batchSize
        ⟨.ok ⟨options.epochs, x.samples, batches⟩, options.walk batches watched options.epochs 1⟩
    | _ => ⟨.error .severalInputs, []⟩

end ModelArtifact

end RecipeGraph
