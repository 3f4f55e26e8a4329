import RecipeGraph.Compiler
import RecipeGraph.Schedule
import RecipeGraph.Store

/-!
Compiling a subset of the nodes in order.

The first node that fails keeps its old output, gets the error and ends the run.
Nodes before it keep their new outputs and nodes behind it are not touched.
-/

namespace RecipeGraph

structure CompileReport where
  order : List String
  compiled : List String
  /-- Nodes whose kind has no compiler. -/
  skipped : List String
deriving DecidableEq, Repr

namespace Store

/-- Stores the result of compiling a node. -/
def commit (store : Store) (id : String) (artifact : Artifact) : Result Unit :=
  store.updateNode id { output := some (some artifact), errors := some [], compiled := some true }

/-- Marks a node as failed: the error replaces all others. -/
def fail (store : Store) (id : String) (fault : CompileFault) : Result Unit :=
  match store.addError id fault.message true with
  | (.ok (), store) => store.updateNode id { compiled := some false }
  | (.error error, store) => (.error error, store)

/-- Compiles nodes one after the other. The lists of the report grow at their
ends. -/
def compileEach (compilers : Compilers) :
    Store → CompileReport → List String → Result CompileReport
  | store, report, [] => (.ok report, store)
  | store, report, id :: rest =>
    match store.node? id with
    | none => (.error (.nodeNotFound id), store)
    | some node =>
      match compilers.serving node.kind with
      | none => compileEach compilers store { report with skipped := report.skipped ++ [id] } rest
      | some compiler =>
        match compiler store.toGraph node with
        | .ok artifact =>
          match store.commit id artifact with
          | (.ok (), store) =>
            compileEach compilers store { report with compiled := report.compiled ++ [id] } rest
          | (.error error, store) => (.error error, store)
        | .error fault =>
          match store.fail id fault with
          | (.ok (), store) => (.error (.compileFailure id fault), store)
          | (.error error, store) => (.error error, store)

def compileOrdered (compilers : Compilers) (store : Store) (subset : List String) :
    Result CompileReport :=
  match store.topoSort subset with
  | .ok order => compileEach compilers store ⟨order, [], []⟩ order
  | .error error => (.error error, store)

/-- Compiles a subset. The notice at the start counts the subset as it is given. -/
def compile (compilers : Compilers) (store : Store) (subset : List String) :
    Result CompileReport :=
  let (result, finished) :=
    compileOrdered compilers (store.emit (.compileStarted subset.length)) subset
  (result, finished.emit (.compileFinished result.isOk))

end Store

end RecipeGraph
