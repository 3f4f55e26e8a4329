import RecipeGraph.Proofs.Sessions
import Mathlib.Data.List.Forall2

/-!
# Mirrors of a graph

A mirror follows a graph from outside. It starts from a copy, hears the notices of
every operation, and behind each operation reads again only what these notices have
named. That it never falls behind means that nothing changes, comes, goes or moves
without a notice.
-/

namespace RecipeGraph

/-- Records under their ids. A record is missing until it is read. -/
abbrev Ledger (α : Type) := List (String × Option α)

namespace Ledger

variable {α : Type} {key : α → String}

def ofRecords (key : α → String) (records : List α) : Ledger α :=
  records.map fun record => (key record, some record)

def enter (ledger : Ledger α) (id : String) : Ledger α :=
  ledger ++ [(id, none)]

def strike (ledger : Ledger α) (id : String) : Ledger α :=
  ledger.filter fun entry => entry.1 ≠ id

/-- The ledger with the records of some ids read again. -/
def reread (ledger : Ledger α) (named : List String) (read : String → Option α) : Ledger α :=
  ledger.map fun entry => if entry.1 ∈ named then (entry.1, read entry.1) else entry

/-- The ids are those of the records, in their order, and every record whose id is
not named is there. -/
def Tracks (key : α → String) (ledger : Ledger α) (named : List String) (records : List α) :
    Prop :=
  List.Forall₂ (fun entry record =>
    entry.1 = key record ∧ (entry.1 ∉ named → entry.2 = some record)) ledger records

theorem tracks_ofRecords (key : α → String) (records : List α) :
    Tracks key (ofRecords key records) [] records := by
  unfold Tracks ofRecords
  rw [List.forall₂_map_left_iff, List.forall₂_same]
  exact fun _ _ => ⟨rfl, fun _ => rfl⟩

namespace Tracks

variable {ledger : Ledger α} {named : List String} {records : List α}

theorem mono {more : List String} (tracks : Tracks key ledger named records)
    (among : named ⊆ more) : Tracks key ledger more records :=
  List.Forall₂.imp (fun _ _ pair => ⟨pair.1, fun free => pair.2 fun known => free (among known)⟩)
    tracks

theorem enter {record : α} (tracks : Tracks key ledger named records)
    (member : key record ∈ named) :
    Tracks key (ledger.enter (key record)) named (records ++ [record]) := by
  refine List.rel_append tracks (.cons ⟨rfl, fun free => ?_⟩ .nil)
  exact (free member).elim

theorem strike (tracks : Tracks key ledger named records) (id : String) :
    Tracks key (ledger.strike id) named (records.filter fun record => key record ≠ id) := by
  refine List.rel_filter ?_ tracks
  rintro entry record ⟨same, _⟩
  simp [same]

/-- Records may change under ids that are named. -/
theorem change {change : α → α} (tracks : Tracks key ledger named records)
    (keeps : ∀ record ∈ records, key (change record) = key record)
    (others : ∀ record ∈ records, key record ∉ named → change record = record) :
    Tracks key ledger named (records.map change) := by
  induction tracks with
  | nil => exact .nil
  | @cons entry record _ rest pair _ ih =>
    rw [List.forall_mem_cons] at keeps others
    refine .cons ⟨pair.1.trans keeps.1.symm, fun free => ?_⟩ (ih keeps.2 others.2)
    rw [others.1 (pair.1 ▸ free)]
    exact pair.2 free

/-- Once the named records are read, all are there. -/
theorem reread {read : String → Option α} (tracks : Tracks key ledger named records)
    (reads : ∀ record ∈ records, read (key record) = some record) :
    ledger.reread named read = ofRecords key records := by
  induction tracks with
  | nil => rfl
  | @cons entry record _ rest pair _ ih =>
    rw [List.forall_mem_cons] at reads
    refine congrArg₂ List.cons ?_ (ih reads.2)
    change (if entry.1 ∈ named then (entry.1, read entry.1) else entry) = (key record, some record)
    split
    · rw [pair.1, reads.1]
    · next free => exact Prod.ext pair.1 (pair.2 free)

end Tracks

end Ledger

/-- The node that has to be read after a notice. -/
def Event.namedNode? : Event → Option String
  | .nodeAdded id => some id
  | .nodeUpdated id => some id
  | _ => none

/-- The edge that has to be read after a notice. -/
def Event.namedEdge? : Event → Option String
  | .edgeAdded id => some id
  | _ => none

structure Mirror where
  nodes : Ledger Node
  edges : Ledger Edge

namespace Mirror

def ofGraph (graph : Graph) : Mirror where
  nodes := .ofRecords (·.id) graph.nodes
  edges := .ofRecords (·.id) graph.edges

/-- The mirror behind a notice. What is added goes to the end, and after a reload
everything is read. -/
def hear (graph : Graph) (mirror : Mirror) : Event → Mirror
  | .nodeAdded id => { mirror with nodes := mirror.nodes.enter id }
  | .nodeRemoved id => { mirror with nodes := mirror.nodes.strike id }
  | .edgeAdded id => { mirror with edges := mirror.edges.enter id }
  | .edgeRemoved id => { mirror with edges := mirror.edges.strike id }
  | .reloaded => ofGraph graph
  | .nodeUpdated _ => mirror
  | .compileStarted _ => mirror
  | .compileFinished _ => mirror

/-- The mirror behind an operation: it has heard the notices and reads what they
have named. -/
def observe (graph : Graph) (mirror : Mirror) (events : List Event) : Mirror :=
  let heard := events.foldl (hear graph) mirror
  { nodes := heard.nodes.reread (events.filterMap Event.namedNode?) graph.node?
    edges := heard.edges.reread (events.filterMap Event.namedEdge?) graph.edge? }

/-- In the midst of an operation, with the notices heard so far, nothing is missing
but what is going to be read. -/
structure Follows (mirror : Mirror) (heard : List Event) (graph : Graph) : Prop where
  nodes : Ledger.Tracks Node.id mirror.nodes (heard.filterMap Event.namedNode?) graph.nodes
  edges : Ledger.Tracks Edge.id mirror.edges (heard.filterMap Event.namedEdge?) graph.edges

@[simp] theorem follows_ofGraph (graph : Graph) : (ofGraph graph).Follows [] graph :=
  ⟨Ledger.tracks_ofRecords _ _, Ledger.tracks_ofRecords _ _⟩

/-- Notices that came to nothing do no harm. -/
theorem Follows.mono {mirror : Mirror} {graph : Graph} {heard : List Event}
    (follows : mirror.Follows heard graph) (events : List Event) :
    mirror.Follows (heard ++ events) graph where
  nodes := follows.nodes.mono ((List.sublist_append_left _ _).filterMap _).subset
  edges := follows.edges.mono ((List.sublist_append_left _ _).filterMap _).subset

theorem Follows.observe {mirror : Mirror} {graph : Graph} {events : List Event}
    (follows : (events.foldl (hear graph) mirror).Follows events graph) (sound : graph.WellFormed) :
    mirror.observe graph events = ofGraph graph := by
  have nodes := follows.nodes.reread fun _ member => Graph.node?_of_mem sound.nodes_once member
  have edges := follows.edges.reread fun _ member => Graph.edge?_of_mem sound.edges_once member
  unfold Mirror.observe ofGraph
  rw [← nodes, ← edges]

end Mirror

namespace Store

open RecipeGraph.Mirror (hear Follows)

/-- The notices between two states of a store tell a mirror of the first how to get
to the second, up to what it is going to read. A load is told in another way. -/
def Recounts (before after : Store) : Prop :=
  ∃ events, after.log = before.log ++ events ∧
    ∀ (final : Graph) (mirror : Mirror) (heard : List Event), mirror.Follows heard before.toGraph →
      (events.foldl (hear final) mirror).Follows (heard ++ events) after.toGraph

namespace Recounts

@[simp] theorem refl (store : Store) : store.Recounts store :=
  ⟨[], (List.append_nil _).symm, fun _ _ _ follows => follows.mono []⟩

theorem trans {first middle last : Store} (early : first.Recounts middle)
    (late : middle.Recounts last) : first.Recounts last := by
  obtain ⟨events, log, tells⟩ := early
  obtain ⟨more, log', tells'⟩ := late
  refine ⟨events ++ more, ?_, fun final mirror heard follows => ?_⟩
  · rw [log', log, List.append_assoc]
  · rw [List.foldl_append, ← List.append_assoc]
    exact tells' final _ _ (tells final mirror heard follows)

theorem foldl {Item : Type} {change : Store → Item → Store}
    (each : ∀ (store : Store) item, store.Recounts (change store item)) (store : Store)
    (items : List Item) : store.Recounts (items.foldl change store) := by
  induction items generalizing store with
  | nil => exact refl store
  | cons item rest ih => exact (each store item).trans (ih _)

end Recounts

variable {store : Store}

theorem recounts_emit {event : Event}
    (quiet : ∀ graph mirror, hear graph mirror event = mirror) :
    store.Recounts (store.emit event) := by
  refine ⟨[event], rfl, fun final mirror heard follows => ?_⟩
  change (hear final mirror event).Follows _ _
  rw [quiet]
  exact follows.mono _

theorem recounts_modifyNode {id : String} {change : Node → Node}
    (keeps : ∀ node ∈ store.nodes, node.id = id → (change node).id = node.id) :
    store.Recounts ((store.modifyNode id change).emit (.nodeUpdated id)) := by
  refine ⟨[.nodeUpdated id], rfl, fun final mirror heard follows => ?_⟩
  have later := follows.mono [.nodeUpdated id]
  refine ⟨later.nodes.change (fun node member => ?_) fun node _ free => ?_, later.edges⟩
  · split
    · next here => exact keeps node member here
    · rfl
  · refine if_neg fun here => free ?_
    rw [here, List.filterMap_append]
    exact List.mem_append_right _ List.mem_cons_self

theorem recounts_dropNode (id : String) :
    store.Recounts ((store.dropNode id).emit (.nodeRemoved id)) := by
  refine ⟨[.nodeRemoved id], rfl, fun final mirror heard follows => ?_⟩
  have later := follows.mono [.nodeRemoved id]
  exact ⟨later.nodes.strike id, later.edges⟩

theorem recounts_dropEdge (id : String) :
    store.Recounts ((store.dropEdge id).emit (.edgeRemoved id)) := by
  refine ⟨[.edgeRemoved id], rfl, fun final mirror heard follows => ?_⟩
  have later := follows.mono [.edgeRemoved id]
  exact ⟨later.nodes, later.edges.strike id⟩

theorem recounts_appendNode (node : Node) :
    store.Recounts (({ store with nodes := store.nodes ++ [node] }).emit (.nodeAdded node.id)) := by
  refine ⟨[.nodeAdded node.id], rfl, fun final mirror heard follows => ?_⟩
  have later := follows.mono [.nodeAdded node.id]
  refine ⟨later.nodes.enter ?_, later.edges⟩
  rw [List.filterMap_append]
  exact List.mem_append_right _ List.mem_cons_self

theorem recounts_appendEdge (edge : Edge) :
    store.Recounts (({ store with edges := store.edges ++ [edge] }).emit (.edgeAdded edge.id)) := by
  refine ⟨[.edgeAdded edge.id], rfl, fun final mirror heard follows => ?_⟩
  have later := follows.mono [.edgeAdded edge.id]
  refine ⟨later.nodes, later.edges.enter ?_⟩
  rw [List.filterMap_append]
  exact List.mem_append_right _ List.mem_cons_self

@[simp] theorem recounts_reset (store : Store) (id : String) : store.Recounts (store.reset id) := by
  unfold reset
  split
  · exact recounts_modifyNode fun _ _ _ => rfl
  · exact .refl store

@[simp] theorem modifyNode_of_missing {id : String} {change : Node → Node}
    (missing : store.contains id ≠ true) : store.modifyNode id change = store := by
  have apart : ∀ node ∈ store.nodes, node.id ≠ id := by
    rintro node member rfl
    exact missing (Graph.contains_iff.mpr (Graph.node?_isSome_of_mem member))
  have same : (store.nodes.map fun node => if node.id = id then change node else node) =
      store.nodes := by
    refine (List.map_congr_left fun node member => ?_).trans (List.map_id _)
    exact if_neg (apart node member)
  unfold modifyNode
  rw [same]

/-- Writing a literal has no notice of its own. The reset of the target that always
follows gives one. -/
@[simp] theorem recounts_rebind (store : Store) (edge : Edge) (literal : Option Float) :
    store.Recounts ((store.bindHandle edge literal).reset edge.target) := by
  unfold bindHandle
  split
  · next handle _ =>
    by_cases known : store.contains edge.target = true
    · have keeps : ∀ node : Node, (node.bind handle literal).id = node.id := fun _ => rfl
      have still : (store.modifyNode edge.target fun node => node.bind handle literal).contains
          edge.target = true := by
        unfold Graph.contains
        rw [node?_modifyNode_self keeps, Option.isSome_map]
        exact known
      rw [reset, if_pos still, modifyNode_modifyNode keeps]
      exact recounts_modifyNode fun _ _ _ => rfl
    · rw [modifyNode_of_missing known]
      exact recounts_reset store edge.target
  · exact recounts_reset store edge.target

/-- What goes on in the nodes when an edge is taken out does not depend on whether
the edge is still there. -/
theorem detach_eq (store : Store) (edge : Edge) :
    store.detach edge = (((store.bindHandle edge none).reset edge.target).dropEdge edge.id).emit
      (.edgeRemoved edge.id) := by
  have commutes : ∀ other : Store,
      (other.dropEdge edge.id).reset edge.target = (other.reset edge.target).dropEdge edge.id := by
    intro other
    unfold reset
    change (if other.contains edge.target then _ else _) = _
    split <;> rfl
  rw [detach, ← commutes]
  unfold bindHandle
  split <;> rfl

@[simp]
theorem recounts_detach (store : Store) (edge : Edge) : store.Recounts (store.detach edge) := by
  rw [detach_eq]
  exact (recounts_rebind store edge none).trans (recounts_dropEdge edge.id)

@[simp] theorem recounts_detachAll (store : Store) (edges : List Edge) :
    store.Recounts (store.detachAll edges) :=
  .foldl recounts_detach store edges

@[simp] theorem recounts_addNode (store : Store) (node : Node) :
    store.Recounts (store.addNode node).2 := by
  unfold addNode
  split
  · exact .refl store
  · exact recounts_appendNode node.fresh

@[simp] theorem recounts_removeNode (store : Store) (id : String) :
    store.Recounts (store.removeNode id).2 := by
  unfold removeNode
  split
  · simp only
    split
    · exact (recounts_detachAll store _).trans (recounts_dropNode id)
    · exact recounts_detachAll store _
  · exact .refl store

@[simp] theorem recounts_removeEdge (store : Store) (id : String) :
    store.Recounts (store.removeEdge id).2 := by
  unfold removeEdge
  split
  · exact recounts_detach store _
  · exact .refl store

@[simp] theorem recounts_passLiteral (literal : Option Float) (store : Store) (edge : Edge) :
    store.Recounts (store.passLiteral literal edge) := by
  unfold passLiteral
  split
  · split
    · split
      · exact .refl store
      · exact recounts_rebind store edge literal
    · exact .refl store
  · exact .refl store

@[simp] theorem recounts_passLiterals (store : Store) (id : String) (literal : Option Float) :
    store.Recounts (store.passLiterals id literal) :=
  .foldl (recounts_passLiteral literal) store _

@[simp] theorem recounts_updateNode (store : Store) (id : String) (patch : NodePatch) :
    store.Recounts (store.updateNode id patch).2 := by
  unfold updateNode
  split
  · exact .refl store
  · next node found =>
    split
    · exact .refl store
    · next patched fits =>
      -- The literals that are handed on have notices of their own.
      have updated : store.Recounts
          ((store.modifyNode id fun _ => patched).emit (.nodeUpdated id)) := by
        refine recounts_modifyNode fun other _ here => ?_
        rw [here, (Node.patched_ok fits).id, Graph.id_of_node? found]
      simp only
      split
      · exact updated.trans (recounts_passLiterals _ id _)
      · exact updated

@[simp] theorem recounts_addError (store : Store) (id message : String) (clear : Bool) :
    store.Recounts (store.addError id message clear).2 := by
  unfold addError
  split
  · exact recounts_modifyNode fun _ _ _ => rfl
  · exact .refl store

@[simp] theorem recounts_place (store : Store) (edge : Edge) (literal : Option Float) :
    store.Recounts (store.place edge literal) :=
  ((recounts_detachAll store _).trans (recounts_rebind _ edge literal)).trans
    (recounts_appendEdge edge)

@[simp] theorem recounts_connect (store : Store) (connection : Connection) (id : Option String) :
    store.Recounts (store.connect connection id).2 := by
  unfold connect
  split
  · exact .refl store
  · exact .refl store
  · split
    · exact recounts_place store _ _
    · exact .refl store

@[simp] theorem recounts_fail (store : Store) (id : String) (fault : CompileFault) :
    store.Recounts (store.fail id fault).2 := by
  have noted := recounts_addError store id fault.message true
  unfold fail
  split <;> next same =>
    rw [same] at noted
    first
    | exact noted.trans (recounts_updateNode _ id _)
    | exact noted

@[simp]
theorem recounts_compileEach (compilers : Compilers) (store : Store) (report : CompileReport)
    (ids : List String) : store.Recounts (compileEach compilers store report ids).2 := by
  induction ids generalizing store report with
  | nil => exact .refl store
  | cons id rest ih =>
    unfold compileEach
    split
    · exact .refl store
    · split
      · exact ih store _
      · split
        · next artifact _ =>
          have committed : store.Recounts (store.commit id artifact).2 :=
            recounts_updateNode store id _
          split
          · next same =>
            rw [same] at committed
            exact committed.trans (ih _ _)
          · next same =>
            rw [same] at committed
            exact committed
        · next fault _ =>
          have failed := recounts_fail store id fault
          split <;> next same =>
            rw [same] at failed
            exact failed

@[simp] theorem recounts_compile (compilers : Compilers) (store : Store) (subset : List String) :
    store.Recounts (store.compile compilers subset).2 := by
  have started : store.Recounts (store.emit (.compileStarted subset.length)) :=
    recounts_emit fun _ _ => rfl
  have ordered : (store.emit (.compileStarted subset.length)).Recounts
      (compileOrdered compilers (store.emit (.compileStarted subset.length)) subset).2 := by
    unfold compileOrdered
    split
    · exact recounts_compileEach compilers _ _ _
    · exact .refl _
  exact (started.trans ordered).trans (recounts_emit fun _ _ => rfl)

theorem recounts_apply (store : Store) {operation : Operation}
    (stays : operation.replaces = false) : store.Recounts (store.apply operation) := by
  cases operation with
  | load graph => cases stays
  | addNode node => exact recounts_addNode store node
  | removeNode id => exact recounts_removeNode store id
  | updateNode id patch => exact recounts_updateNode store id patch
  | addEdge connection => exact recounts_connect store connection none
  | removeEdge id => exact recounts_removeEdge store id
  | addError id message clear => exact recounts_addError store id message clear
  | compile compilers subset => exact recounts_compile compilers store subset

/-- A mirror that reads what the notices of an operation have named is up to date
behind it. -/
def Told (before after : Store) : Prop :=
  ∃ events, after.log = before.log ++ events ∧
    (Mirror.ofGraph before.toGraph).observe after.toGraph events = Mirror.ofGraph after.toGraph

theorem Recounts.told {after : Store} (recounts : store.Recounts after)
    (sound : after.WellFormed) : store.Told after := by
  obtain ⟨events, log, tells⟩ := recounts
  refine ⟨events, log, Mirror.Follows.observe ?_ sound⟩
  exact tells after.toGraph _ [] (Mirror.follows_ofGraph store.toGraph)

theorem told_load (sound : store.WellFormed) (graph : Graph) : store.Told (store.load graph).2 := by
  have sound' := load_wellFormed sound graph
  revert sound'
  unfold load
  split
  · intro sound'
    refine ⟨[.reloaded], rfl, Mirror.Follows.observe ?_ sound'⟩
    exact (Mirror.follows_ofGraph _).mono [.reloaded]
  · intro sound'
    exact (Recounts.refl store).told sound'

theorem told_apply (sound : store.WellFormed) (operation : Operation) :
    store.Told (store.apply operation) := by
  cases kind : operation.replaces with
  | true =>
    cases operation with
    | load graph => exact told_load sound graph
    | _ => cases kind
  | false => exact (recounts_apply store kind).told (apply_wellFormed sound operation)

end Store

namespace Session

theorem recounts_invalidate (session : Session) (id : String) :
    session.store.Recounts (session.invalidate id).store := by
  unfold invalidate
  simp only
  split
  · exact Store.recounts_updateNode session.store id _
  · exact .refl session.store

theorem recounts_invalidateStale (session : Session) :
    session.store.Recounts session.invalidateStale.store := by
  unfold invalidateStale
  -- Which ids are stale does not matter, and it is fixed before the first is dropped.
  generalize session.stale = ids
  induction ids generalizing session with
  | nil => exact .refl session.store
  | cons id rest ih => exact (recounts_invalidate session id).trans (ih _)

@[simp] theorem store_load (session : Session) (graph : Graph) :
    (session.load graph).2.store = (session.store.load graph).2 := by
  unfold load
  split
  · next same => rw [same]
  · next same =>
    rw [same]
    rfl

def Operation.replaces (operation : Operation) : Bool :=
  operation.edit?.any (·.replaces)

theorem recounts_edited (session : Session) {operation : Operation}
    (stays : operation.replaces = false) :
    session.store.Recounts (session.edited operation) := by
  rw [edited_eq]
  unfold Operation.replaces at stays
  cases given : operation.edit? with
  | none => exact .refl session.store
  | some edit =>
    rw [given] at stays
    exact Store.recounts_apply session.store stays

theorem Steps.recounts {compilers : Compilers} {session after : Session} {operation : Operation}
    (steps : Steps compilers session operation after) (sound : session.store.WellFormed)
    (stays : operation.replaces = false) : session.store.Recounts after.store := by
  cases steps with
  | idle same => exact .refl session.store
  | loaded => cases stays
  | added => exact recounts_edited session stays
  | @swept operation middle store _ =>
    have edited := recounts_edited session stays
    rw [← store] at edited
    exact edited.trans (recounts_invalidateStale middle)
  | unnoticed _ => exact recounts_edited session stays
  | compiled found =>
    obtain ⟨compiled, same, store, _⟩ :=
      compile_spec compilers sound (Graph.contains_iff.mpr ⟨_, found⟩)
    rw [same]
    change session.store.Recounts compiled.store
    rw [store]
    exact Store.recounts_compile compilers session.store _
  | noted => exact Store.recounts_addError session.store _ _ _

/-- A way to list the recorded fingerprints. They are kept in no order of their own, and they
are looked through in whichever order they are listed. -/
structure Arrangement where
  list : List (String × Fingerprint) → List (String × Fingerprint)
  complete : ∀ entries, (list entries).Perm entries

/-- Something done to a session, or to its store alone, as when a training that runs
on its own notes there why it has failed. Between any two operations the fingerprints may
come to be listed in another way. -/
inductive Change where
  | session (compilers : Compilers) (operation : Operation)
  | store (operation : Store.Operation)
  | arranged (arrangement : Arrangement)

def change (session : Session) : Change → Session
  | .session compilers operation => session.apply compilers operation
  | .store operation => session.withStore (session.store.apply operation)
  | .arranged arrangement =>
    { session with fingerprints := arrangement.list session.fingerprints }

/-- The session behind changes that are made one after the other. -/
def changed (session : Session) (changes : List Change) : Session :=
  changes.foldl change session

theorem change_wellFormed {session : Session} (sound : session.store.WellFormed)
    (made : Change) : (session.change made).store.WellFormed := by
  cases made with
  | session compilers operation => exact apply_wellFormed compilers sound operation
  | store operation => exact Store.apply_wellFormed sound operation
  | arranged => exact sound

theorem told_change {session : Session} (sound : session.store.WellFormed) (made : Change) :
    session.store.Told (session.change made).store := by
  cases made with
  | store operation => exact Store.told_apply sound operation
  | arranged => exact (Store.Recounts.refl session.store).told sound
  | session compilers operation =>
    have sound' := apply_wellFormed compilers sound operation
    cases kind : operation.replaces with
    | false =>
      exact ((steps_apply compilers session operation).recounts sound kind).told sound'
    | true =>
      cases operation with
      | load graph =>
        change session.store.Told (session.load graph).2.store
        rw [store_load]
        exact Store.told_load sound graph
      | _ => cases kind

theorem changed_wellFormed {session : Session} (sound : session.store.WellFormed)
    (changes : List Change) : (session.changed changes).store.WellFormed := by
  induction changes generalizing session with
  | nil => exact sound
  | cons made rest ih => exact ih (change_wellFormed sound made)

/-- What is new in the log of a store since it was shorter. -/
def newsSince (session later : Session) : List Event :=
  later.store.log.drop session.store.log.length

end Session

/-- The mirror of a session behind changes. -/
def Mirror.follow (mirror : Mirror) (session : Session) : List Session.Change → Mirror
  | [] => mirror
  | made :: rest =>
    let after := session.change made
    (mirror.observe after.store.toGraph (session.newsSince after)).follow after rest

/-- A mirror of a session that anything has been done to shows the graph as it is
behind everything that is done from then on, with any compilers and in whichever order stale
results are dropped, and no notice is ever taken back. -/
theorem Session.mirror_follows (earlier later : List Change) :
    (Mirror.ofGraph (empty.changed earlier).store.toGraph).follow (empty.changed earlier) later =
        Mirror.ofGraph ((empty.changed earlier).changed later).store.toGraph ∧
      (empty.changed earlier).store.log <+: ((empty.changed earlier).changed later).store.log := by
  have sound := @changed_wellFormed empty Store.empty_wellFormed earlier
  -- From here on nothing matters about the session but that its graph is well formed,
  -- so that reading by id finds the one record of that id.
  generalize empty.changed earlier = session at sound
  induction later generalizing session with
  | nil => exact ⟨rfl, List.prefix_rfl⟩
  | cons made rest ih =>
    obtain ⟨events, log, told⟩ := told_change sound made
    obtain ⟨follows, grows⟩ := ih (session.change made) (change_wellFormed sound made)
    have news : session.newsSince (session.change made) = events := by
      rw [newsSince, log, List.drop_left]
    constructor
    · rw [Mirror.follow, news, told]
      exact follows
    · exact List.IsPrefix.trans ⟨events, log.symm⟩ grows

end RecipeGraph
