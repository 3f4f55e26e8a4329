import RecipeGraph.Service.Wire
import RecipeGraph.Settings

/-!
Command line of the service: settings from arguments and environment, then one
request and one answer per line.
-/

namespace RecipeGraph.CommandLine

def usage : String :=
  String.join (Setting.all.map fun setting => "  --" ++ setting.flag ++ " <value>\n")

def complaint : SettingsFault → String
  | .missingValue setting => "a value is required for --" ++ setting.flag
  | .notABoolean setting => "--" ++ setting.flag ++ " is either true or false"
  | .notACount setting => "--" ++ setting.flag ++ " is a whole number"
  | .repeated setting => "--" ++ setting.flag ++ " is given twice"
  | .unknownArgument => "unexpected argument"
  | .surplusValue => "unexpected value"
  | .helpRequested => usage

partial def serve (input output : IO.FS.Stream) (service : Service) : IO Unit := do
  let line ← input.getLine
  if line.isEmpty then return
  let (answer, next) := service.answerLine line
  output.putStrLn answer
  output.flush
  serve input output next

end RecipeGraph.CommandLine

open RecipeGraph CommandLine in
def main (arguments : List String) : IO UInt32 := do
  let environment ← Setting.all.mapM fun setting => do
    return (setting.variableName, ← IO.getEnv setting.variableName)
  match Settings.read arguments fun name => (environment.lookup name).join with
  | .ok settings =>
    serve (← IO.getStdin) (← IO.getStdout) (Service.start Registry.standard settings.scaffold)
    return 0
  | .error .helpRequested =>
    IO.print usage
    return 0
  | .error fault =>
    IO.eprintln (complaint fault)
    return 2
