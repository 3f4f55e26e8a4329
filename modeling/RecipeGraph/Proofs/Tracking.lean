import RecipeGraph.Session
import RecipeGraph.Proofs.Compiling

/-!
# Fingerprints in a session

A fingerprint never fails for a node of a well-formed graph and takes nothing
from what is left on nodes. Taking fingerprints and dropping stale results only
ever touches the nodes concerned.
-/

namespace RecipeGraph

namespace Graph

theorem ancestry_of_edges {left right : Graph} (same : left.edges = right.edges) (id : String) :
    left.ancestry id = right.ancestry id := by
  refine walk_congr fun member _ => ?_
  rw [inbound, inbound, same]

@[simp] theorem nodesOf_blank (graph : Graph) (ids : List String) :
    graph.blank.nodesOf ids = (graph.nodesOf ids).map (List.map Node.fresh) := by
  induction ids with
  | nil => rfl
  | cons id rest ih =>
    unfold nodesOf
    rw [ih, node, node, node?_blank]
    cases graph.node? id with
    | none => rfl
    | some found => cases graph.nodesOf rest <;> rfl

@[simp] theorem connected_blank (graph : Graph) (id : String) :
    graph.blank.connected id = (graph.connected id).map (List.map Node.fresh) := by
  unfold connected
  rw [nodesOf_blank, ancestry_of_edges (show graph.blank.edges = graph.edges from rfl)]

end Graph

namespace Fingerprint

/-- The fingerprint of these nodes. -/
def ofNodes (edges : List Edge) (nodes : List Node) : Fingerprint where
  nodes := nodes.map fun node => (node.id, node.params)
  edges := (edges.filter fun edge => (nodes.map (·.id)).contains edge.target).map (·.connection)

theorem capture_eq_map (graph : Graph) (id : String) :
    capture graph id = (graph.connected id).map (ofNodes graph.edges) := by
  unfold capture
  cases graph.connected id <;> rfl

@[simp] theorem capture_blank (graph : Graph) (id : String) :
    capture graph.blank id = capture graph id := by
  rw [capture_eq_map, capture_eq_map, Graph.connected_blank]
  cases graph.connected id with
  | error error => rfl
  | ok nodes =>
    apply congrArg Except.ok
    simp [ofNodes, Node.fresh, Graph.blank, Function.comp_def]

theorem capture_of_blank {left right : Graph} (same : left.blank = right.blank) (id : String) :
    capture left id = capture right id := by
  rw [← capture_blank left, same, capture_blank]

theorem exists_capture {graph : Graph} (sound : graph.WellFormed) {id : String}
    (known : graph.contains id = true) : ∃ fingerprint, capture graph id = .ok fingerprint := by
  obtain ⟨nodes, found, _⟩ := Graph.exists_connected sound known
  exact ⟨ofNodes graph.edges nodes, by rw [capture_eq_map, found]; rfl⟩

theorem isStale_of_blank {left right : Graph} (same : left.blank = right.blank)
    (fingerprint : Fingerprint) (id : String) :
    fingerprint.isStale left id = fingerprint.isStale right id := by
  unfold isStale
  rw [capture_of_blank same]

end Fingerprint

namespace Store

@[simp] theorem node?_reset (store : Store) (id other : String) :
    (store.reset id).node? other =
      if other = id then (store.node? other).map Node.uncompiled else store.node? other := by
  unfold reset
  split
  · exact node?_modifyNode_ite fun _ => rfl
  · next missing =>
    split
    · next same =>
      have absent : store.node? other = none := by
        rw [same, ← Option.not_isSome_iff_eq_none]
        exact missing
      rw [absent]
      rfl
    · rfl

@[simp]
theorem blank_reset (store : Store) (id : String) : (store.reset id).blank = store.blank := by
  unfold reset
  split
  · exact blank_modifyNode fun _ => rfl
  · rfl

end Store

namespace Session

@[simp] theorem fingerprint?_forget (session : Session) (id other : String) :
    (session.forget id).fingerprint? other =
      if other = id then none else session.fingerprint? other := by
  unfold fingerprint? forget
  induction session.fingerprints with
  | nil => simp
  | cons entry rest ih =>
    obtain ⟨key, fingerprint⟩ := entry
    by_cases gone : key = id
    · subst gone
      by_cases same : other = key
      · subst same
        simpa using ih
      · have differs : (other == key) = false := by simpa using same
        simpa [List.lookup_cons, differs, same] using ih
    · by_cases same : other = key
      · subst same
        simp [gone]
      · have differs : (other == key) = false := by simpa using same
        simpa [List.lookup_cons, differs, gone] using ih

@[simp]
theorem fingerprint?_remember (session : Session) (id other : String) (fingerprint : Fingerprint) :
    (session.remember id fingerprint).fingerprint? other =
      if other = id then some fingerprint else session.fingerprint? other := by
  have forgotten := fingerprint?_forget session id other
  unfold fingerprint? at *
  unfold remember
  rw [List.lookup_append, forgotten]
  by_cases same : other = id
  · simp [same]
  · simp [same, List.lookup_cons, beq_false_of_ne same]

/-- What the graph gives as the fingerprint of a node now. -/
def current (session : Session) (id : String) : Option Fingerprint :=
  (Fingerprint.capture session.store.toGraph id).toOption

/-- What is recorded for a node once it has been looked at. -/
def tracked (session : Session) (id : String) : Option Fingerprint :=
  if session.isCompiled id then session.current id else none

theorem isCompiled_iff {session : Session} {id : String} :
    session.isCompiled id = true ↔
      ∃ node, session.store.node? id = some node ∧ node.data.compiled = true := by
  unfold isCompiled
  cases session.store.node? id <;> simp

theorem contains_of_isCompiled {session : Session} {id : String}
    (compiled : session.isCompiled id = true) : session.store.contains id = true := by
  obtain ⟨node, found, _⟩ := isCompiled_iff.mp compiled
  exact Graph.contains_iff.mpr ⟨node, found⟩

/-- Looking at a compiled node takes its fingerprint. -/
theorem exists_tracked {session : Session} (sound : session.store.WellFormed) {id : String}
    (compiled : session.isCompiled id = true) :
    ∃ now, Fingerprint.capture session.store.toGraph id = .ok now ∧
      session.tracked id = some now := by
  obtain ⟨now, captured⟩ := Fingerprint.exists_capture sound (contains_of_isCompiled compiled)
  refine ⟨now, captured, ?_⟩
  rw [tracked, if_pos compiled, current, captured]
  rfl

theorem track_spec {session : Session} (sound : session.store.WellFormed) (id : String) :
    ∃ after, session.track id = .ok after ∧ after.store = session.store ∧
      after.compiling = session.compiling ∧
      ∀ other, after.fingerprint? other =
        if other = id then session.tracked id else session.fingerprint? other := by
  unfold track tracked
  by_cases compiled : session.isCompiled id = true
  · obtain ⟨now, captured⟩ := Fingerprint.exists_capture sound (contains_of_isCompiled compiled)
    refine ⟨session.remember id now, ?_, rfl, rfl, fun other => ?_⟩
    · rw [if_pos compiled, captured]
      rfl
    · rw [fingerprint?_remember, if_pos compiled, current, captured]
      rfl
  · refine ⟨session.forget id, if_neg compiled, rfl, rfl, fun other => ?_⟩
    rw [fingerprint?_forget, if_neg compiled]

theorem tracked_of_store {left right : Session} (same : left.store = right.store) (id : String) :
    left.tracked id = right.tracked id := by
  unfold tracked isCompiled current
  rw [same]

/-- Looking at nodes never fails and records exactly what there is to record. -/
theorem trackAll_spec {session : Session} (sound : session.store.WellFormed) (ids : List String) :
    ∃ after, session.trackAll ids = (.ok (), after) ∧ after.store = session.store ∧
      after.compiling = session.compiling ∧
      ∀ id, after.fingerprint? id =
        if id ∈ ids then session.tracked id else session.fingerprint? id := by
  induction ids generalizing session with
  | nil => exact ⟨session, rfl, rfl, rfl, fun id => by simp⟩
  | cons first rest ih =>
    obtain ⟨middle, step, store, compiling, recorded⟩ := track_spec sound first
    obtain ⟨after, steps, store', compiling', recorded'⟩ :=
      ih (show middle.store.WellFormed from store ▸ sound)
    refine ⟨after, ?_, store'.trans store, compiling'.trans compiling, fun id => ?_⟩
    · rw [trackAll, step]
      exact steps
    · rw [recorded' id, tracked_of_store store, recorded id]
      by_cases later : id ∈ rest
      · simp [later]
      · by_cases here : id = first <;> simp [later, here]

@[simp]
theorem store_invalidate {session : Session} (sound : session.store.WellFormed) (id : String) :
    (session.invalidate id).store = session.store.reset id := by
  unfold invalidate Store.reset
  change (if session.store.contains id then _ else _ : Session).store = _
  split
  · next known =>
    obtain ⟨node, found⟩ := Graph.contains_iff.mp known
    have written := Store.modifyNode_const sound found Node.uncompiled
    have updated : session.store.updateNode id { output := some none, compiled := some false } =
        (.ok (), (session.store.modifyNode id Node.uncompiled).emit (.nodeUpdated id)) := by
      unfold Store.updateNode
      rw [found, ← written]
      rfl
    change (session.store.updateNode id { output := some none, compiled := some false }).2 = _
    rw [updated]
  · rfl

@[simp] theorem fingerprint?_invalidate (session : Session) (id other : String) :
    (session.invalidate id).fingerprint? other =
      if other = id then none else session.fingerprint? other := by
  rw [← fingerprint?_forget]
  unfold invalidate
  simp only
  split <;> rfl

/-- Dropping results leaves the other nodes and all fields alone. -/
theorem invalidateAll_spec {session : Session} (sound : session.store.WellFormed)
    (ids : List String) :
    (ids.foldl invalidate session).store.blank = session.store.blank ∧
      ∀ id, (ids.foldl invalidate session).store.node? id =
          (session.store.node? id).map (fun node => if id ∈ ids then node.uncompiled else node) ∧
        (ids.foldl invalidate session).fingerprint? id =
          if id ∈ ids then none else session.fingerprint? id := by
  induction ids generalizing session with
  | nil => exact ⟨rfl, fun id => by simp⟩
  | cons first rest ih =>
    have store := store_invalidate sound first
    have blank : (session.invalidate first).store.blank = session.store.blank := by
      rw [store]
      exact Store.blank_reset _ _
    obtain ⟨same, each⟩ := ih (Store.wellFormed_of_blank blank sound)
    refine ⟨same.trans blank, fun id => ?_⟩
    rw [List.foldl_cons, (each id).1, (each id).2, fingerprint?_invalidate, store,
      Store.node?_reset]
    constructor
    · by_cases here : id = first <;> by_cases later : id ∈ rest <;>
        cases session.store.node? id <;> simp [here, later, Node.uncompiled]
    · by_cases here : id = first <;> by_cases later : id ∈ rest <;> simp [here, later]

@[simp] theorem blank_invalidateStale {session : Session} (sound : session.store.WellFormed) :
    session.invalidateStale.store.blank = session.store.blank :=
  (invalidateAll_spec sound _).1

theorem mem_stale {session : Session} {id : String} {fingerprint : Fingerprint}
    (recorded : session.fingerprint? id = some fingerprint)
    (stale : fingerprint.isStale session.store.toGraph id = true) : id ∈ session.stale := by
  unfold fingerprint? at recorded
  obtain ⟨before, behind, parts, _⟩ := List.lookup_eq_some_iff.mp recorded
  refine List.mem_map.mpr ⟨(id, fingerprint), List.mem_filter.mpr ⟨?_, stale⟩, rfl⟩
  rw [parts]
  simp

/-- A node that is still compiled when stale results are gone is as it was, and
what is recorded for it matches. -/
theorem invalidateStale_spec {session : Session} (sound : session.store.WellFormed) {id : String}
    {node : Node} (found : session.invalidateStale.store.node? id = some node)
    (compiled : node.data.compiled = true) :
    session.store.node? id = some node ∧
      session.invalidateStale.fingerprint? id = session.fingerprint? id ∧
      ∀ fingerprint, session.fingerprint? id = some fingerprint →
        fingerprint.isStale session.store.toGraph id = false := by
  have each := (invalidateAll_spec sound session.stale).2 id
  have kept : id ∉ session.stale := by
    intro stale
    have dropped := each.1.symm.trans found
    obtain ⟨old, _, same⟩ := Option.map_eq_some_iff.mp dropped
    rw [if_pos stale] at same
    rw [← same] at compiled
    cases compiled
  refine ⟨?_, ?_, fun fingerprint recorded => ?_⟩
  · have same := each.1.symm.trans found
    simpa [kept] using same
  · exact each.2.trans (if_neg kept)
  · apply Bool.eq_false_iff.mpr
    exact fun stale => kept (mem_stale recorded stale)

/-- Nothing comes back to a node by dropping stale results. -/
theorem invalidateStale_node? {session : Session} (sound : session.store.WellFormed) {id : String}
    {node : Node} (found : session.invalidateStale.store.node? id = some node) :
    ∃ old, session.store.node? id = some old ∧ (node = old ∨ node = old.uncompiled) := by
  have each := (invalidateAll_spec sound session.stale).2 id
  obtain ⟨old, before, same⟩ := Option.map_eq_some_iff.mp (each.1.symm.trans found)
  refine ⟨old, before, ?_⟩
  split at same
  · exact .inr same.symm
  · exact .inl same.symm

end Session

end RecipeGraph
