import RecipeGraph.Compile
import RecipeGraph.Json.Value
import RecipeGraph.Training

/-!
Reports of compiling and training as JSON.
-/

namespace RecipeGraph

open Json (size)

def CompileReport.toJson (report : CompileReport) : Json :=
  .obj [("compiled", Json.texts report.compiled), ("order", Json.texts report.order),
    ("skipped", Json.texts report.skipped)]

def TrainingReport.toJson (report : TrainingReport) : Json :=
  .obj [("batches_per_epoch", size report.batchesPerEpoch), ("epochs", size report.epochs),
    ("samples", size report.samples)]

def TrainingProgress.toJson (progress : TrainingProgress) : Json :=
  .obj [("batches", size progress.batches), ("epoch", size progress.epoch),
    ("epochs", size progress.epochs)]

end RecipeGraph
