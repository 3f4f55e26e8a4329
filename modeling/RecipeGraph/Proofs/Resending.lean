import RecipeGraph.Proofs.Counted
import RecipeGraph.Proofs.Insisting
import RecipeGraph.Proofs.Reloading

/-!
# Graphs that are sent back

A service takes back the graph that it shows. What stands in the way is the length of a
body, which is limited, and the nesting of brackets: a position that is stored inside few
brackets is shown inside more of them.
-/

namespace RecipeGraph

open Number (Numeral)
open String (utf8Len)

namespace Graph

/-- A graph that is read where it is written has the same nodes at the same edges. -/
@[simp] theorem thins_reread (graph : Graph) : graph.Thins graph.reread := by
  refine ⟨?_, List.Sublist.refl _⟩
  simp only [outline, reread, List.map_map]
  refine List.map_congr_left fun node _ => ?_
  exact Prod.ext rfl (NodeParams.kind_reread node.params)

end Graph

theorem Session.load_reread (session : Session) {graph : Graph} (sound : graph.WellFormed) :
    (session.load graph.reread).1 = .ok () ∧
      (session.load graph.reread).2.store.edges = graph.edges := by
  obtain ⟨built, done, same⟩ := Store.build_of_wellFormed (graph.thins_reread.wellFormed sound)
  obtain ⟨after, loaded, kept⟩ := Store.load_of_build done session.store
  rw [Session.load, loaded]
  refine ⟨rfl, ?_⟩
  change after.toGraph.edges = graph.edges
  rw [kept, same]
  rfl

namespace Request

variable {request : Request}

theorem call_of_put (puts : request.method = .put) (path : request.target.path = "/graph") :
    request.call = (request.payload Graph.decode).map .replaceGraph := by
  rw [call, path]
  change request.callAt .graph = _
  unfold callAt
  rw [puts]
  rfl

theorem call_of_post (posts : request.method = .post)
    (path : request.target.path = "/graph/nodes") :
    request.call = (request.payload Node.decode).map .addNode := by
  rw [call, path]
  change request.callAt .nodes = _
  unfold callAt
  rw [posts]
  rfl

theorem isJson_of_contentType (plain : request.contentType = some "application/json") :
    request.isJson = true := by
  rw [isJson, plain]
  decide

end Request

namespace Service

variable {service : Service} {request : Request}

theorem status_of_refusal {refusal : Refusal} (asks : request.call = .error refusal) :
    (service.answer request).1.status ≠ 200 := by
  unfold answer
  rw [asks]
  change refusal.status ≠ 200
  cases refusal <;> decide

theorem answer_of_put (puts : request.method = .put) {graph : Graph}
    (asks : request.call = .ok (.replaceGraph graph))
    (loads : (service.session.load graph).1 = .ok ()) :
    (service.answer request).1 =
      Response.json 200 (service.session.load graph).2.store.toGraph.toJson := by
  unfold answer
  rw [asks, puts]
  change Response.ofResult 200 _ (service.session.load graph).1 = _
  rw [loads]
  change Response.json 200 (service.behind _).session.store.toGraph.toJson = _
  rw [session_behind]

/-- A graph is taken only if the body is short enough and can be read as one. -/
theorem read_of_taken (puts : request.method = .put) (target : request.target.path = "/graph")
    (taken : (service.answer request).1.status = 200) :
    request.body.utf8ByteSize ≤ Request.maxBody ∧
      ∃ graph, Graph.decode.ofText request.body = .ok graph := by
  have asks := Request.call_of_put puts target
  cases content : request.payload Graph.decode with
  | error refusal =>
    rw [content] at asks
    exact absurd taken (status_of_refusal asks)
  | ok graph =>
    obtain ⟨-, short, read⟩ := Request.payload_eq_ok.mp content
    exact ⟨short, graph, read⟩

/-- The graph that a service shows at any moment can be sent back to it, with the entries
of its objects in any order: it is taken exactly if the body is not too long and no
position is nested too deep, and then the same edges are shown. This is so as long as the
numbers of the results on the nodes are finite, as documents have no others. -/
theorem shown_graph_taken_back (registry : Registry) (scaffold : Bool) (requests : List Request)
    {viewing sending : Request} (views : viewing.method = .get)
    (viewed : viewing.target.path = "/graph") (sends : sending.method = .put)
    (target : sending.target.path = "/graph") (json : sending.isJson = true)
    (results : ∀ node ∈ ((start registry scaffold).answerAll requests).2.graph.nodes,
      node.data.output.all Artifact.isFinite = true) :
    let service := ((start registry scaffold).answerAll requests).2
    ∃ edges nodes : Json,
      (service.answer viewing).1 = Response.json 200 (.obj [("edges", edges), ("nodes", nodes)]) ∧
      ∀ sent : Json, (Json.obj [("edges", edges), ("nodes", nodes)]).Reorders sent →
        sending.body = sent.print →
        ((service.answer sending).1.status = 200 ↔
          sending.body.utf8ByteSize ≤ Request.maxBody ∧
            ∀ node ∈ service.graph.nodes, node.position.depth ≤ Graph.maxPositionDepth) ∧
        ((service.answer sending).1.status = 200 → ∃ others : Json,
          (service.answer sending).1 =
            Response.json 200 (.obj [("edges", edges), ("nodes", others)])) := by
  intro service
  have accurate := (Accurate.start registry scaffold).answerAll requests
  have counted := counted_nodes registry scaffold requests
  have sound : service.graph.WellFormed := accurate.sound
  have fits : service.graph.isWritable = true := List.all_eq_true.mpr fun node member =>
    (counted node member).isWritable (results node member)
  have numbers : ∀ node ∈ service.graph.nodes, node.position.all Numeral.isProper = true :=
    fun node member => (counted node member).documented.numbers
  refine ⟨Json.list Edge.toJson service.graph.edges, Json.list Node.toJson service.graph.nodes,
    answer_of_get views (Request.call_of_graph views viewed), ?_⟩
  intro sent reorders body
  have reorders : service.graph.toJson.Reorders sent := reorders
  have asks := Request.call_of_put sends target
  -- Once the body has been read, nothing can fail.
  have taken : sending.body.utf8ByteSize ≤ Request.maxBody →
      (∀ node ∈ service.graph.nodes, node.position.depth ≤ Graph.maxPositionDepth) →
      (service.answer sending).1 =
        Response.json 200 (service.session.load service.graph.reread).2.store.toGraph.toJson := by
    intro short shallow
    have read := Graph.ofText_print fits numbers shallow reorders
    rw [← body] at read
    rw [Request.payload_eq_ok.mpr ⟨json, short, read⟩] at asks
    exact answer_of_put sends asks (service.session.load_reread sound).1
  have limits : (service.answer sending).1.status = 200 →
      sending.body.utf8ByteSize ≤ Request.maxBody ∧
        ∀ node ∈ service.graph.nodes, node.position.depth ≤ Graph.maxPositionDepth := by
    intro accepted
    obtain ⟨short, graph, read⟩ := read_of_taken sends target accepted
    rw [body] at read
    exact ⟨short, Graph.shallow_of_ofText fits numbers reorders read⟩
  refine ⟨⟨limits, fun ⟨short, shallow⟩ => ?_⟩, fun accepted => ?_⟩
  · rw [taken short shallow]
    rfl
  · obtain ⟨short, shallow⟩ := limits accepted
    refine ⟨Json.list Node.toJson (service.session.load service.graph.reread).2.store.nodes, ?_⟩
    rw [taken short shallow, Graph.toJson, (service.session.load_reread sound).2]

/-- A request to look at the graph. -/
def viewing : Request :=
  ⟨.get, ⟨"/graph"⟩, none, ""⟩

/-- A request that sends a graph. -/
def sending (graph : Json) : Request :=
  ⟨.put, ⟨"/graph"⟩, some "application/json", graph.print⟩

/-- Two layers, of which the second is compiled. -/
def layering : List Request := [
  ⟨.put, ⟨"/graph"⟩, some "application/json",
    "\x7b\"nodes\":[\x7b\"id\":\"i\",\"params\":\x7b\"type\":\"InputLayer\"," ++
      "\"config\":\x7b\"shape\":[4]\x7d\x7d\x7d,\x7b\"id\":\"d\",\"params\":" ++
      "\x7b\"type\":\"DenseLayer\",\"config\":\x7b\"units\":3\x7d\x7d\x7d]," ++
      "\"edges\":[\x7b\"id\":\"e\",\"source\":\"i\",\"target\":\"d\"\x7d]\x7d"⟩,
  ⟨.post, ⟨"/graph/nodes/d/compile"⟩, none, ""⟩]

theorem layering_limits :
    let graph := ((start Registry.standard false).answerAll layering).2.graph
    graph.nodes.all (fun node => node.data.output.all Artifact.isFinite && (node.data.compiled &&
        decide (node.position.depth ≤ Graph.maxPositionDepth))) = true ∧
      utf8Len graph.toJson.chars ≤ Request.maxBody := by
  decide +kernel

theorem shown_graph_taken_back_layering :
    let service := ((start Registry.standard false).answerAll layering).2
    (∀ node ∈ service.graph.nodes, node.data.output.all Artifact.isFinite = true) ∧
      (sending service.graph.toJson).isJson = true ∧
      ∃ edges nodes others : Json,
        (service.answer viewing).1 = Response.json 200 (.obj [("edges", edges), ("nodes", nodes)]) ∧
        (service.answer (sending (.obj [("edges", edges), ("nodes", nodes)]))).1 =
          Response.json 200 (.obj [("edges", edges), ("nodes", others)]) := by
  intro service
  have json : (sending service.graph.toJson).isJson = true := Request.isJson_of_contentType rfl
  obtain ⟨each, short⟩ := layering_limits
  have each : ∀ node ∈ service.graph.nodes, node.data.output.all Artifact.isFinite = true ∧
      node.position.depth ≤ Graph.maxPositionDepth := by
    intro node member
    have known := List.all_eq_true.mp each node member
    simp only [Bool.and_eq_true, decide_eq_true_eq] at known
    exact ⟨known.1, known.2.2⟩
  have results : ∀ node ∈ service.graph.nodes, node.data.output.all Artifact.isFinite = true :=
    fun node member => (each node member).1
  refine ⟨results, json, ?_⟩
  obtain ⟨edges, nodes, shown, back⟩ :=
    @shown_graph_taken_back Registry.standard false layering viewing
      (sending service.graph.toJson) rfl rfl rfl rfl json results
  have same : service.graph.toJson = .obj [("edges", edges), ("nodes", nodes)] := by
    have twice := (answer_of_get rfl (Request.call_of_graph rfl rfl)).symm.trans shown
    exact Content.json.inj (Response.mk.inj twice).2
  obtain ⟨taken, kept⟩ := back service.graph.toJson (same ▸ .refl _) rfl
  obtain ⟨others, answered⟩ := kept (taken.mpr
    ⟨(Json.utf8ByteSize_print _).trans_le short, fun node member => (each node member).2⟩)
  refine ⟨edges, nodes, others, shown, ?_⟩
  rw [← same]
  exact answered

/-- A node with nothing but a position. -/
def pinned (position : Json) : Node where
  id := "v"
  params := .value none
  position := position

def pinning (position : Json) : Request :=
  ⟨.post, ⟨"/graph/nodes"⟩, some "application/json", (pinned position).toJson.print⟩

theorem isWritable_pinned {position : Json} (canonical : position.isCanonical = true) :
    (pinned position).isWritable = true :=
  Bool.and_eq_true_iff.mpr ⟨rfl, Bool.and_eq_true_iff.mpr ⟨canonical, rfl⟩⟩

/-- A node is stored with its position, if that can be sent once. -/
theorem graph_of_pinning (registry : Registry) {position : Json}
    (canonical : position.isCanonical = true) (proper : position.all Numeral.isProper = true)
    (shallow : position.depth ≤ Graph.maxPositionDepth + 2)
    (short : (pinned position).toJson.print.utf8ByteSize ≤ Request.maxBody) :
    ((start registry false).answerAll [pinning position]).2.graph =
      ⟨[pinned position.reread], []⟩ := by
  have read := Node.ofText_print (isWritable_pinned canonical) proper shallow (.refl _)
  have content : (pinning position).payload Node.decode = .ok (pinned position.reread) :=
    Request.payload_eq_ok.mpr ⟨Request.isJson_of_contentType rfl, short, read⟩
  have asks : (pinning position).call = .ok (.addNode (pinned position.reread)) := by
    rw [Request.call_of_post rfl rfl, content]
    rfl
  change ((start registry false).answer (pinning position)).2.graph = _
  unfold answer
  rw [asks]
  rfl

/-- Brackets inside one another. -/
def nested : Nat → Json
  | 0 => .null
  | levels + 1 => .arr [nested levels]

theorem nested_spec (levels : Nat) :
    (nested levels).isCanonical = true ∧ (nested levels).all Numeral.isProper = true ∧
      (nested levels).depth = levels ∧ (nested levels).reread = nested levels ∧
      utf8Len (nested levels).chars = 2 * levels + 4 := by
  induction levels with
  | zero => exact ⟨rfl, rfl, rfl, rfl, by decide⟩
  | succ levels ih =>
    obtain ⟨canonical, proper, deep, same, length⟩ := ih
    refine ⟨?_, ?_, ?_, ?_, ?_⟩
    · exact Bool.and_eq_true_iff.mpr ⟨canonical, rfl⟩
    · exact Bool.and_eq_true_iff.mpr ⟨proper, rfl⟩
    · exact congrArg (· + 1) ((Nat.max_zero _).trans deep)
    · exact congrArg (fun inner => Json.arr [inner]) same
    · have brackets : '['.utf8Size = 1 ∧ utf8Len [']'] = 1 := by decide
      rw [nested, Json.chars, Json.itemChars, String.utf8Len_cons, String.utf8Len_append, length]
      omega

theorem utf8Len_pinned (position : Json) :
    utf8Len (pinned position).toJson.chars + 4 =
      utf8Len (pinned .null).toJson.chars + utf8Len position.chars := by
  have null : utf8Len Json.null.chars = 4 := by decide
  simp only [pinned, Node.toJson, Json.chars, Json.entryChars, String.utf8Len_append,
    String.utf8Len_cons] at null ⊢
  omega

theorem utf8Len_pinned_null : utf8Len (pinned .null).toJson.chars ≤ 1000 := by
  decide +kernel

/-- The graph of the node is read only if the position is nested less deep. -/
theorem shallow_of_pinned {position : Json} {read : Graph}
    (canonical : position.isCanonical = true) (proper : position.all Numeral.isProper = true)
    (decoded : Graph.decode.ofText (Graph.mk [pinned position] []).toJson.print = .ok read) :
    position.depth ≤ Graph.maxPositionDepth := by
  have fits : (Graph.mk [pinned position] []).isWritable = true :=
    Bool.and_eq_true_iff.mpr ⟨isWritable_pinned canonical, rfl⟩
  refine Graph.shallow_of_ofText fits (fun node member => ?_) (.refl _) decoded (pinned position)
    List.mem_cons_self
  rw [List.mem_singleton.mp member]
  exact proper

theorem graph_of_nested (registry : Registry) {levels : Nat}
    (few : levels ≤ Graph.maxPositionDepth + 2) :
    ((start registry false).answerAll [pinning (nested levels)]).2.graph =
      ⟨[pinned (nested levels)], []⟩ := by
  obtain ⟨canonical, proper, deep, same, length⟩ := nested_spec levels
  have stored := graph_of_pinning registry canonical proper (by omega)
  rw [same] at stored
  refine stored ?_
  have text := utf8Len_pinned (nested levels)
  have base := utf8Len_pinned_null
  have room : Graph.maxPositionDepth + 2 = 126 := rfl
  rw [Json.utf8ByteSize_print, Request.maxBody]
  omega

/-- A text of so many letters. -/
def letters (n : Nat) : Json :=
  .str (String.ofList (List.replicate n 'a'))

theorem utf8Len_letters (n : Nat) : utf8Len (letters n).chars = n + 2 := by
  have each : utf8Len ((List.replicate n 'a').flatMap Json.escaped) = n := by
    induction n with
    | zero => rfl
    | succ n ih =>
      rw [List.replicate_succ, List.flatMap_cons, String.utf8Len_append, ih]
      exact Nat.add_comm _ _
  rw [letters, Json.chars, Json.stringChars, String.toList_ofList, List.cons_append,
    String.utf8Len_cons, String.utf8Len_append, each]
  rfl

theorem utf8Len_lt_graph (node : Node) :
    utf8Len node.toJson.chars < utf8Len (Graph.mk [node] []).toJson.chars := by
  have bracket : '\x7b'.utf8Size = 1 := by decide
  simp only [Graph.toJson, Json.list, List.map, Json.chars, Json.entryChars, Json.itemChars,
    String.utf8Len_append, String.utf8Len_cons]
  omega

/-- As many letters as a single node can bring. -/
def mostLetters : Nat :=
  Request.maxBody + 2 - utf8Len (pinned .null).toJson.chars

theorem utf8Len_pinned_letters :
    utf8Len (pinned (letters mostLetters)).toJson.chars = Request.maxBody := by
  have length := utf8Len_pinned (letters mostLetters)
  have base := utf8Len_pinned_null
  have count : mostLetters = Request.maxBody + 2 - utf8Len (pinned .null).toJson.chars := rfl
  have limit : Request.maxBody = 2097152 := rfl
  rw [utf8Len_letters] at length
  omega

theorem graph_of_letters (registry : Registry) :
    ((start registry false).answerAll [pinning (letters mostLetters)]).2.graph =
      ⟨[pinned (letters mostLetters)], []⟩ := by
  refine @graph_of_pinning registry (letters mostLetters) rfl rfl (Nat.zero_le _) ?_
  rw [Json.utf8ByteSize_print, utf8Len_pinned_letters]

/-- A product of finite numbers that is infinite. -/
def overflowing : List Request := [
  ⟨.put, ⟨"/graph"⟩, some "application/json",
    "\x7b\"nodes\":[\x7b\"id\":\"m\",\"params\":\x7b\"type\":\"Multiply\"," ++
      "\"config\":\x7b\"a\":1e200,\"b\":1e200\x7d\x7d\x7d],\"edges\":[]\x7d"⟩,
  ⟨.post, ⟨"/graph/nodes/m/compile"⟩, none, ""⟩]

theorem unreadable_overflowing :
    ((((start Registry.standard false).answerAll overflowing).2.graph.toJson.all
        Numeral.isProper) &&
      !(Graph.decode .live
        (((start Registry.standard false).answerAll overflowing).2.graph.toJson.scanned 0)).isOk) =
      true := by
  decide +kernel

/-- After the requests, the graph that is shown is refused when it is sent back. -/
def RefusesShown (requests : List Request) : Prop :=
  let service := ((start Registry.standard false).answerAll requests).2
  (service.answer viewing).1 = Response.json 200 service.graph.toJson ∧
    (service.answer (sending service.graph.toJson)).1.status ≠ 200

theorem refusesShown_of {requests : List Request} {graph : Graph}
    (stored : ((start Registry.standard false).answerAll requests).2.graph = graph)
    (unread : utf8Len graph.toJson.chars ≤ Request.maxBody →
      ∀ found, Graph.decode.ofText graph.toJson.print ≠ .ok found) :
    RefusesShown requests := by
  refine ⟨answer_of_get rfl (Request.call_of_graph rfl rfl), fun taken => ?_⟩
  rw [stored] at taken
  obtain ⟨short, found, read⟩ := read_of_taken rfl rfl taken
  exact unread ((Json.utf8ByteSize_print _).symm.trans_le short) found read

/-- Each of the limits is reached: by a position nested one level too deep, by one that is
as long as a body can be, and by a result that no document can hold. -/
theorem shown_graph_not_taken_back :
    RefusesShown [pinning (nested (Graph.maxPositionDepth + 1))] ∧
      RefusesShown [pinning (letters mostLetters)] ∧ RefusesShown overflowing := by
  refine ⟨?deep, ?long, ?infinite⟩
  case deep =>
    refine refusesShown_of (graph_of_nested Registry.standard (by decide)) fun _ found read => ?_
    obtain ⟨canonical, proper, deep, -⟩ := nested_spec (Graph.maxPositionDepth + 1)
    have shallow := shallow_of_pinned canonical proper read
    omega
  case long =>
    refine refusesShown_of (graph_of_letters Registry.standard) fun short => ?_
    have longer := utf8Len_lt_graph (pinned (letters mostLetters))
    rw [utf8Len_pinned_letters] at longer
    omega
  case infinite =>
    refine refusesShown_of rfl fun _ found read => ?_
    have checked := Bool.and_eq_true_iff.mp unreadable_overflowing
    rw [Decoder.ofText, Draft.scan_print checked.1] at read
    obtain ⟨graph, decoded, -⟩ := Outcome.bind_eq_ok.mp read
    rw [decoded] at checked
    exact Bool.false_ne_true checked.2

end Service

end RecipeGraph
