import RecipeGraph.Ancestry.Fingerprint
import RecipeGraph.Compile
import RecipeGraph.Training

/-!
Editing sessions.

A session keeps the fingerprint of every node it has compiled. After a change
that can reach the fields or the edges of nodes, all results whose fingerprint
no longer matches are dropped.
-/

namespace RecipeGraph

/-- `compiling` is up only while a compile runs. In which order the fingerprints are
listed has no meaning. -/
structure Session where
  store : Store
  fingerprints : List (String × Fingerprint) := []
  compiling : Bool := false

namespace Session

abbrev Result (α : Type) := Except GraphError α × Session

def empty : Session where
  store := Store.empty

def isCompiled (session : Session) (id : String) : Bool :=
  match session.store.node? id with
  | some node => node.data.compiled
  | none => false

def withStore (session : Session) (store : Store) : Session :=
  { session with store }

def fingerprint? (session : Session) (id : String) : Option Fingerprint :=
  session.fingerprints.lookup id

def forget (session : Session) (id : String) : Session :=
  { session with fingerprints := session.fingerprints.filter fun entry => entry.1 ≠ id }

def remember (session : Session) (id : String) (fingerprint : Fingerprint) : Session :=
  { session with
    fingerprints := (session.forget id).fingerprints ++ [(id, fingerprint)] }

/-- Ids whose fingerprint no longer matches. -/
def stale (session : Session) : List String :=
  (session.fingerprints.filter fun (id, fingerprint) =>
    fingerprint.isStale session.store.toGraph id).map (·.1)

/-- Drops the result of one node and its fingerprint. -/
def invalidate (session : Session) (id : String) : Session :=
  let session := session.forget id
  if session.store.contains id then
    session.withStore (session.store.updateNode id
      { output := some none, compiled := some false }).2
  else session

def invalidateStale (session : Session) : Session :=
  session.stale.foldl invalidate session

def load (session : Session) (graph : Graph) : Result Unit :=
  match session.store.load graph with
  | (.ok (), store) => (.ok (), { session with store, fingerprints := [] })
  | (.error error, store) => (.error error, session.withStore store)

/-- A new node feeds nothing yet, so no result can be stale. -/
def addNode (session : Session) (node : Node) : Result Unit :=
  match session.store.addNode node with
  | (result, store) => (result, session.withStore store)

def removeNode (session : Session) (id : String) : Result Node :=
  match session.store.removeNode id with
  | (.ok node, store) => (.ok node, ((session.withStore store).forget id).invalidateStale)
  | (.error error, store) => (.error error, session.withStore store)

def updateNode (session : Session) (id : String) (patch : NodePatch) : Result Unit :=
  match session.store.updateNode id patch with
  | (.ok (), store) =>
    let updated := session.withStore store
    (.ok (), if patch.touchesParams then updated.invalidateStale else updated)
  | (.error error, store) => (.error error, session.withStore store)

def addEdge (session : Session) (connection : Connection) : Result Edge :=
  match session.store.addEdge connection with
  | (.ok edge, store) => (.ok edge, (session.withStore store).invalidateStale)
  | (.error error, store) => (.error error, session.withStore store)

def removeEdge (session : Session) (id : String) : Result Edge :=
  match session.store.removeEdge id with
  | (.ok edge, store) => (.ok edge, (session.withStore store).invalidateStale)
  | (.error error, store) => (.error error, session.withStore store)

/-- Takes down what a node was compiled from, or that it is not compiled. -/
def track (session : Session) (id : String) : Except GraphError Session :=
  if session.isCompiled id then do
    let fingerprint ← Fingerprint.capture session.store.toGraph id
    return session.remember id fingerprint
  else .ok (session.forget id)

def trackAll : Session → List String → Result Unit
  | session, [] => (.ok (), session)
  | session, id :: rest =>
    match session.track id with
    | .ok tracked => trackAll tracked rest
    | .error error => (.error error, session)

/-- Compiles a node together with everything it depends on. -/
def compile (compilers : Compilers) (session : Session) (id : String) : Result CompileReport :=
  match session.store.connectedIds id with
  | .error error => (.error error, session)
  | .ok subset =>
    let raised := { session with compiling := true }
    let (result, store) := raised.store.compile compilers subset
    let lowered := { raised with store, compiling := false }
    match lowered.trackAll subset with
    | (.ok (), tracked) => (result, tracked)
    | (.error error, tracked) => (.error error, tracked)

/-- A fit with everything it needs. -/
structure TrainingJob where
  model : ModelArtifact
  x : TensorValue
  y : TensorValue
  options : FitOptions

def TrainingJob.run (job : TrainingJob) (watched : Bool) : Fitting :=
  job.model.fit job.x job.y job.options watched

/-- The job that a compiled training node has gathered, if nothing is missing. -/
def job? (data : NodeData) : Option TrainingJob :=
  if data.compiled then
    match data.output with
    | some (.training ⟨some model, some x, some y, epochs, batchSize⟩) =>
      some ⟨model, x, y, ⟨epochs, batchSize⟩⟩
    | _ => none
  else none

/-- Records on the node why it could not be trained. -/
def trainingFailure (session : Session) (id : String) (fault : TrainingFault) :
    GraphError × Session :=
  (.trainingFailure id fault,
    session.withStore (session.store.addError id fault.message false).2)

/-- Gathers what a training node needs. -/
def prepareTraining (session : Session) (id : String) : Result TrainingJob :=
  match session.store.node? id with
  | none => (.error (.nodeNotFound id), session)
  | some node =>
    if node.kind ≠ .trainModel then
      (.error (.trainingFailure id (.notTrainable node.kind)), session)
    else
      match job? node.data with
      | some job => (.ok job, session)
      | none =>
        let (error, session) := session.trainingFailure id .missingInputs
        (.error error, session)

/-- How a training ends, and the messages it has sent by then. -/
structure Training where
  result : Except GraphError TrainingReport
  sent : List TrainingProgress
  session : Session

/-- Trains a node. Messages are sent only if somebody watches. -/
def train (session : Session) (id : String) (watched : Bool) : Training :=
  match session.prepareTraining id with
  | (.error error, session) => ⟨.error error, [], session⟩
  | (.ok job, session) =>
    let fitting := job.run watched
    match fitting.result with
    | .ok report => ⟨.ok report, fitting.sent, session⟩
    | .error fault =>
      let (error, session) := session.trainingFailure id (.fit fault)
      ⟨.error error, fitting.sent, session⟩

end Session

end RecipeGraph
