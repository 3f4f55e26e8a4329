import RecipeGraph.Service
import RecipeGraph.Proofs.Documents
import RecipeGraph.Proofs.Scanning

/-!
# Services are asked by documents

A request reads what it asks for from a text, so it asks its session for nothing
but what documents can ask for. Whatever holds of all sessions that documents lead
to holds of the session of a service after any requests.
-/

namespace RecipeGraph

open Form (Yields)
open Number (Numeral)

theorem Graph.finite_of_isWritable {graph : Graph} (fits : graph.isWritable = true) :
    graph.Finite := by
  intro node member
  have node := Bool.and_eq_true_iff.mp (List.all_eq_true.mp fits node member)
  exact NodeParams.isFinite_of_isWritable node.1

theorem NodePatch.yields_decode : NodePatch.decode.Yields Numeral.isFinite NodePatch.OfDocument := by
  apply Yields.read
  have absent : ∀ config ∈ (none : Option (List (String × Json))),
      Json.finiteEntries config = true := fun _ member => nomatch member
  refine ((Yields.withDefault Decoder.yields_entries.optional absent).both
    (Yields.withDefault (.trivial _) trivial)).map fun _ known => ?_
  exact ⟨known.1, rfl, rfl, rfl⟩

/-- What a call asks its session for. -/
def Call.operation? : Call → Option Session.Operation
  | .replaceGraph next => some (.load next)
  | .addNode fresh => some (.addNode fresh)
  | .updateNode id patch => some (.updateNode id patch)
  | .removeNode id => some (.removeNode id)
  | .view .compile id => some (.compile id)
  | .view .train id => some (.train id true)
  | .addEdge connection => some (.addEdge connection)
  | .removeEdge id => some (.removeEdge id)
  | _ => none

/-- What an operation brings was read from the text. -/
def Session.Operation.ReadFrom (text : String) : Session.Operation → Prop
  | .load graph => Graph.decode.ofText text = .ok graph
  | .addNode node => Node.decode.ofText text = .ok node
  | .updateNode _ patch => NodePatch.decode.ofText text = .ok patch
  | _ => True

theorem Call.readFrom_view (view : NodeView) (id text : String) :
    ∀ operation ∈ (Call.view view id).operation?, operation.ReadFrom text := by
  intro operation member
  cases view <;> cases member <;> trivial

theorem Session.Operation.ReadFrom.ofDocument {text : String} {operation : Session.Operation}
    (read : operation.ReadFrom text) : operation.OfDocument := by
  have numbers := Number.readsOnly_isFinite
  cases operation with
  | load graph => exact Graph.finite_of_isWritable (Graph.yields_decode.ofText numbers read)
  | addNode node =>
    have fits := Bool.and_eq_true_iff.mp (Node.yields_decode.ofText numbers read)
    exact NodeParams.isFinite_of_isWritable fits.1
  | updateNode id patch => exact NodePatch.yields_decode.ofText numbers read
  | _ => trivial

namespace Request

variable {request : Request}

/-- A body is read if it is said to be JSON, is not too long, and can be read. -/
@[simp] theorem payload_eq_ok {decode : Decoder α} {content : α} :
    request.payload decode = .ok content ↔
      request.isJson = true ∧ request.body.utf8ByteSize ≤ maxBody ∧
        decode.ofText request.body = .ok content := by
  unfold payload
  constructor
  · intro read
    split at read
    · next json =>
      split at read
      · next short =>
        split at read
        · next found =>
          cases read
          exact ⟨json, short, found⟩
        · cases read
      · cases read
    · cases read
  · rintro ⟨json, short, found⟩
    rw [if_pos json, if_pos short, found]

/-- A request asks its session for nothing but what its body says. -/
theorem readFrom_of_callAt {route : Route} {call : Call}
    (asks : request.callAt route = .ok call) :
    ∀ operation ∈ call.operation?, operation.ReadFrom request.body := by
  unfold callAt at asks
  split at asks
  case h_2 | h_4 =>
    obtain ⟨next, read, rfl⟩ := Outcome.map_eq_ok.mp asks
    rintro _ ⟨⟩
    exact (payload_eq_ok.mp read).2.2
  case h_6 =>
    obtain ⟨id, _, further⟩ := Outcome.bind_eq_ok.mp asks
    obtain ⟨patch, read, made⟩ := Outcome.bind_eq_ok.mp further
    cases made
    rintro _ ⟨⟩
    exact (payload_eq_ok.mp read).2.2
  case h_8 =>
    split at asks
    · obtain ⟨id, _, rfl⟩ := Outcome.map_eq_ok.mp asks
      exact Call.readFrom_view _ id request.body
    · cases asks
  case h_5 =>
    obtain ⟨_, _, rfl⟩ := Outcome.map_eq_ok.mp asks
    rintro _ ⟨⟩
  case h_7 | h_9 | h_10 =>
    obtain ⟨_, _, rfl⟩ := Outcome.map_eq_ok.mp asks
    rintro _ ⟨⟩
    trivial
  case h_12 => cases asks
  all_goals
    cases asks
    rintro _ ⟨⟩

theorem readFrom_of_call {call : Call} (asks : request.call = .ok call) :
    ∀ operation ∈ call.operation?, operation.ReadFrom request.body := by
  unfold Request.call at asks
  split at asks
  · exact readFrom_of_callAt asks
  · cases asks

end Request

namespace Service

variable (service : Service)

@[simp] theorem session_behind (result : Session.Result α) :
    (service.behind result).session = result.2 := by
  unfold behind
  dsimp only
  split <;> rfl

@[simp] theorem registry_behind (result : Session.Result α) :
    (service.behind result).registry = service.registry := by
  unfold behind
  dsimp only
  split <;> rfl

/-- A call does to the session what it asks for. -/
theorem perform_spec (call : Call) : (service.perform call).2.registry = service.registry ∧
    (service.perform call).2.session =
      match call.operation? with
      | some operation => service.session.apply service.registry operation
      | none => service.session := by
  cases call with
  | view view id => cases view <;> exact ⟨rfl, rfl⟩
  | replaceGraph next => exact ⟨registry_behind _ _, session_behind _ _⟩
  | addNode fresh => exact ⟨registry_behind _ _, session_behind _ _⟩
  | removeNode id => exact ⟨registry_behind _ _, session_behind _ _⟩
  | addEdge connection => exact ⟨registry_behind _ _, session_behind _ _⟩
  | removeEdge id => exact ⟨registry_behind _ _, session_behind _ _⟩
  | _ => exact ⟨rfl, rfl⟩

/-- The operations that texts can ask for are allowed. -/
def AllowsTexts (allowed : Session.Operation → Prop) : Prop :=
  ∀ text operation, Session.Operation.ReadFrom text operation → allowed operation

variable {registry : Registry} {allowed : Session.Operation → Prop}

theorem answer_reached (texts : AllowsTexts allowed) (same : service.registry = registry)
    (reached : Session.Reached registry allowed service.session) (request : Request) :
    (service.answer request).2.registry = registry ∧
      Session.Reached registry allowed (service.answer request).2.session := by
  unfold answer
  split
  · exact ⟨same, reached⟩
  · next call asks =>
    have spec := service.perform_spec call
    have read := Request.readFrom_of_call asks
    refine ⟨spec.1.trans same, ?_⟩
    change Session.Reached registry _ (service.perform call).2.session
    rw [spec.2, same]
    cases asked : call.operation? with
    | none => exact reached
    | some operation => exact reached.step (texts _ operation (read operation asked))

/-- Texts lead to every session that a service comes to have. -/
theorem answerAll_reached (texts : AllowsTexts allowed) (scaffold : Bool)
    (requests : List Request) :
    Session.Reached registry allowed
      ((start registry scaffold).answerAll requests).2.session := by
  have begins : (start registry scaffold).registry = registry ∧
      Session.Reached registry allowed (start registry scaffold).session := by
    cases scaffold
    · exact ⟨rfl, .empty⟩
    · exact ⟨rfl, .starter⟩
  revert begins
  generalize start registry scaffold = service
  intro begins
  induction requests generalizing service with
  | nil => exact begins.2
  | cons request rest ih => exact ih _ (answer_reached service texts begins.1 begins.2 request)

end Service

end RecipeGraph
