import RecipeGraph.Proofs.Closing

/-!
# Drawing edges anew

Whatever a compiled node depends on is compiled too, with one exception. Drawing an edge
always drops the result of its target, but the nodes behind it are told by their
fingerprints only. Where the edge is there already and is the last of those that count
for a node, no fingerprint of that node can tell the difference.
-/

namespace RecipeGraph

namespace Session

/-- An edge is drawn that is there already. Of all edges into what another node depends on
it is the last, no other of them has the id of the new one, and the target remembers what
the source brings. -/
inductive Redraws (session : Session) : Operation → Prop
  | intro {connection : Connection} {source target : Node} {dependent : String}
      {earlier : List Edge} {edge : Edge}
      (found : session.store.node? connection.source = some source)
      (into : session.store.node? connection.target = some target)
      (compiled : session.isCompiled dependent = true)
      (apart : dependent ≠ connection.target)
      (last : session.store.feeding dependent = earlier ++ [edge])
      (drawn : edge.connection = connection.withHandle target.kind)
      (named : ∀ other ∈ earlier, other.id ≠ (connection.withHandle target.kind).edgeId)
      (calm : ¬ target.Stirred source.params.literal edge) :
      Redraws session (.addEdge connection)

/-- A patch that gives fields gives some. -/
def Operation.Named : Operation → Prop
  | .updateNode _ patch => patch.config ≠ some []
  | _ => True

@[simp] theorem NodePatch.any_isEmpty_config {patch : NodePatch} :
    patch.config.any List.isEmpty = false ↔ patch.config ≠ some [] := by
  rcases patch.config with _ | _ | _ <;> simp

instance : (operation : Operation) → Decidable operation.Named
  | .updateNode _ patch =>
    decidable_of_iff (patch.config.any List.isEmpty = false) NodePatch.any_isEmpty_config
  | .load _ | .addNode _ | .removeNode _ | .addEdge _ | .removeEdge _ | .compile _ | .train _ _ =>
    isTrue trivial

section Drawing

variable {session : Session} {connection : Connection} {source target : Node} {edge : Edge}
  {id : String}

/-- Drawing an edge puts it behind all others that count for a node. -/
theorem feeding_place (sound : session.store.WellFormed) (literal : Option Float)
    (listed : edge.target ∈ session.store.ancestry id) :
    ((session.store.place edge literal).edges.filter fun other =>
        (session.store.ancestry id).contains other.target) =
      ((session.store.feeding id).filter fun other => !other.yieldsTo edge) ++ [edge] := by
  rw [Store.edges_place sound.edges_once, List.filter_append, Graph.feeding, List.filter_filter,
    List.filter_filter, List.filter_singleton]
  congr 1
  · exact List.filter_congr fun other _ => Bool.and_comm _ _
  · simp [listed]

/-- A node can only keep its fingerprint while the result of a node before it goes if an edge is
drawn anew. -/
theorem redraws_of_matches (sound : session.store.WellFormed)
    (found : session.store.node? connection.source = some source)
    (into : session.store.node? connection.target = some target)
    (drawn : edge = (connection.withHandle target.kind).toEdge
      (connection.withHandle target.kind).edgeId)
    (same : session.store.Matches (session.store.place edge source.params.literal).toGraph id)
    (listed : edge.target ∈ session.store.ancestry id) (compiled : session.isCompiled id = true)
    (apart : id ≠ connection.target) : session.Redraws (.addEdge connection) := by
  have ends : edge.target = connection.target := by rw [drawn]; rfl
  have ports : edge.connection = connection.withHandle target.kind := by rw [drawn]; rfl
  have edges := same.edges
  rw [feeding_place sound _ listed, List.map_append] at edges
  obtain ⟨earlier, final, feeding, front, back⟩ := List.map_eq_append_iff.mp edges.symm
  obtain ⟨last, rfl, connected⟩ := List.map_eq_singleton_iff.mp back
  -- The edge that was there has made room for the new one, and no other edge has.
  have yields : last.yieldsTo edge = true := by
    have handle := congrArg Connection.targetHandle connected
    have goal := congrArg Connection.target connected
    simp only [Edge.connection] at handle goal
    simp [Edge.yieldsTo, Edge.occupies, handle, goal]
  have stay : ∀ other ∈ earlier, other.yieldsTo edge = false := by
    have lengths := congrArg List.length front
    rw [feeding, List.filter_append, List.filter_singleton, yields] at lengths
    simp only [List.length_map, Bool.not_true, cond_false, List.append_nil] at lengths
    intro other member
    simpa using List.length_filter_eq_length_iff.mp lengths.symm other member
  refine .intro found into compiled apart feeding (connected.trans ports) ?_ ?_
  · intro other member named
    have kept := stay other member
    rw [Edge.yieldsTo, drawn] at kept
    simp [Connection.toEdge, named] at kept
  · rintro ⟨_, handle, held, named, field, news⟩
    have port : edge.targetHandle = some handle := by
      have handles := congrArg Connection.targetHandle connected
      exact handles.symm.trans named
    obtain ⟨old, new, known, known', params⟩ := same.fields edge.target listed
    rw [ends, into] at known
    cases known
    rw [Store.node?_place _ port, ends, into, Option.map_some] at known'
    have here : connection.target = target.id := (Graph.id_of_node? into).symm
    simp only [here, if_true] at known'
    cases known'
    have equal := NodeParams.bound?_beq params field (Node.bound?_replugged field _ _)
    rw [news] at equal
    cases equal

/-- An edge that is drawn does nothing to nodes in which no edge goes or comes. -/
theorem node?_place_of_ne (handled : edge.targetHandle.isSome = true) (literal : Option Float)
    {member : String} (apart : member ≠ edge.target)
    (spared : ∀ node, session.store.node? member = some node →
      (session.store.edges.filter (·.yieldsTo edge)).foldl Node.unplugged node = node) :
    (session.store.place edge literal).node? member = session.store.node? member := by
  obtain ⟨handle, named⟩ := Option.isSome_iff_exists.mp handled
  rw [Store.node?_place _ named]
  cases found : session.store.node? member with
  | none => rfl
  | some node =>
    have elsewhere : edge.target ≠ node.id := fun into =>
      apart ((Graph.id_of_node? found).symm.trans into.symm)
    rw [Option.map_some]
    simp only [if_neg elsewhere, spared node found]

theorem spared_place (sound : session.store.WellFormed) (handled : edge.targetHandle.isSome = true)
    (literal : Option Float) {member : String}
    (same : session.store.Matches (session.store.place edge literal).toGraph id)
    (listed : member ∈ session.store.ancestry id) (apart : member ≠ edge.target) :
    (session.store.place edge literal).node? member = session.store.node? member := by
  have edges := Store.edges_place sound.edges_once edge literal
  refine node?_place_of_ne handled literal apart fun node found => ?_
  apply unplugged_of_matches same listed edges _ found
  intro other added
  rw [List.mem_singleton.mp added]
  exact Ne.symm apart

theorem not_isCompiled_place (session : Session) (handled : edge.targetHandle.isSome = true)
    (literal : Option Float) :
    (session.withStore (session.store.place edge literal)).isCompiled edge.target = false := by
  obtain ⟨handle, named⟩ := Option.isSome_iff_exists.mp handled
  rw [← Bool.not_eq_true]
  intro compiled
  obtain ⟨node, found, marked⟩ := isCompiled_iff.mp compiled
  change (session.store.place edge literal).node? edge.target = some node at found
  rw [Store.node?_place _ named] at found
  obtain ⟨old, there, rfl⟩ := Option.map_eq_some_iff.mp found
  simp only [if_pos (Graph.id_of_node? there).symm] at marked
  cases marked

/-- Of the edges that count for the node the last is drawn anew, and no other of them has
the id of the new one. -/
structure Anew (session : Session) (id : String) (edge last : Edge) (earlier : List Edge) :
    Prop where
  feeding : session.store.feeding id = earlier ++ [last]
  connected : last.connection = edge.connection
  named : ∀ other ∈ earlier, other.id ≠ edge.id

namespace Anew

variable {last : Edge} {earlier : List Edge}

theorem goal (anew : session.Anew id edge last earlier) : last.target = edge.target :=
  congrArg Connection.target anew.connected

theorem port (anew : session.Anew id edge last earlier) : last.targetHandle = edge.targetHandle :=
  congrArg Connection.targetHandle anew.connected

theorem drawn (anew : session.Anew id edge last earlier) :
    last ∈ session.store.edges ∧ last.target ∈ session.store.ancestry id := by
  apply Graph.mem_feeding.mp
  simp [anew.feeding]

/-- Of the edges that count only the one that was there makes room. -/
theorem eq_of_yieldsTo (anew : session.Anew id edge last earlier) (sound : session.store.WellFormed)
    {other : Edge} (there : other ∈ session.store.edges)
    (inside : other.target ∈ session.store.ancestry id) (yields : other.yieldsTo edge = true) :
    other = last := by
  have member := Graph.mem_feeding.mpr ⟨there, inside⟩
  rw [anew.feeding] at member
  rcases List.mem_append.mp member with old | new
  · simp only [Edge.yieldsTo, Edge.occupies, Bool.or_eq_true, Bool.and_eq_true,
      decide_eq_true_eq] at yields
    rcases yields with clash | ⟨target, handle⟩
    · exact (anew.named other old clash).elim
    · apply List.inj_on_of_nodup_map sound.unshared there anew.drawn.1
      rw [target, handle, anew.goal, anew.port]
  · exact List.mem_singleton.mp new

theorem stays (anew : session.Anew id edge last earlier) (sound : session.store.WellFormed)
    {other : Edge} (old : other ∈ earlier) : other.yieldsTo edge = false := by
  have once : (session.store.feeding id).Nodup := (sound.edges_once.of_map _).filter _
  rw [anew.feeding] at once
  rw [← Bool.not_eq_true]
  intro yields
  obtain ⟨there, inside⟩ := Graph.mem_feeding.mp (show other ∈ session.store.feeding id by
    simp [anew.feeding, old])
  have same := anew.eq_of_yieldsTo sound there inside yields
  exact (List.nodup_append.mp once).2.2 other old last (by simp) same

/-- The new edge is the same connection in the same place. -/
theorem connections (anew : session.Anew id edge last earlier) (sound : session.store.WellFormed)
    (literal : Option Float) :
    ((session.store.place edge literal).edges.filter fun other =>
        (session.store.ancestry id).contains other.target).map Edge.connection =
      (session.store.feeding id).map Edge.connection := by
  have stay : earlier.filter (fun other => !other.yieldsTo edge) = earlier :=
    List.filter_eq_self.mpr fun other old => by rw [anew.stays sound old]; rfl
  have yields : last.yieldsTo edge = true := by
    simp [Edge.yieldsTo, Edge.occupies, anew.goal, anew.port]
  rw [feeding_place sound literal (anew.goal ▸ anew.drawn.2), anew.feeding, List.filter_append,
    stay, List.filter_singleton, yields]
  simp [anew.connected]

theorem spared (anew : session.Anew id edge last earlier) (sound : session.store.WellFormed)
    (handled : edge.targetHandle.isSome = true) (literal : Option Float) {member : String}
    (inside : member ∈ session.store.ancestry id) (apart : member ≠ edge.target) :
    (session.store.place edge literal).node? member = session.store.node? member := by
  refine node?_place_of_ne handled literal apart fun node found => ?_
  apply Node.foldl_unplugged_of_spared
  intro other gone target
  obtain ⟨there, yields⟩ := List.mem_filter.mp gone
  have here := target.trans (Graph.id_of_node? found)
  rw [anew.eq_of_yieldsTo sound there (here ▸ inside) yields, anew.goal] at here
  exact apart here.symm

/-- The target is told what it remembers already. -/
theorem heard (anew : session.Anew id edge last earlier) (sound : session.store.WellFormed)
    (into : session.store.node? edge.target = some target) (number : target.params.isFinite = true)
    {literal : Option Float} (handled : edge.targetHandle.isSome = true)
    (calm : ¬ target.Stirred literal last) :
    ∃ told, (session.store.place edge literal).node? edge.target = some told ∧
      (target.params == told.params) = true := by
  obtain ⟨handle, port⟩ := Option.isSome_iff_exists.mp handled
  have self : edge.target = target.id := (Graph.id_of_node? into).symm
  refine ⟨_, by rw [Store.node?_place _ port, into]; rfl, ?_⟩
  simp only [if_pos self]
  change (_ == NodeParams.bind _ handle literal) = true
  rw [Node.foldl_unplugged_params]
  · refine NodeParams.beq_bind number fun held field => ?_
    by_contra news
    exact calm ⟨anew.goal.trans self, handle, held, anew.port.trans port, field,
      Bool.eq_false_iff.mpr news⟩
  · intro other gone into
    obtain ⟨there, yields⟩ := List.mem_filter.mp gone
    have inside : other.target ∈ session.store.ancestry id := by
      rw [into, ← self, ← anew.goal]
      exact anew.drawn.2
    rw [anew.eq_of_yieldsTo sound there inside yields, anew.port, port]

/-- Drawing an edge anew leaves the fingerprint of the node as it was. -/
theorem matching (anew : session.Anew id edge last earlier) (sound : session.store.WellFormed)
    (finite : session.store.Finite) (into : session.store.node? edge.target = some target)
    {literal : Option Float} (handled : edge.targetHandle.isSome = true)
    (calm : ¬ target.Stirred literal last) (known : session.store.contains id = true) :
    session.store.Matches (session.store.place edge literal).toGraph id where
  edges := anew.connections sound literal
  fields member inside := by
    obtain ⟨node, found⟩ := Graph.contains_iff.mp
      (Graph.contains_of_reaches sound known (Graph.mem_ancestry.mp inside))
    have number := finite node (Graph.mem_of_node? found)
    by_cases here : member = edge.target
    · subst here
      cases into.symm.trans found
      obtain ⟨told, there, same⟩ := anew.heard sound into number handled calm
      exact ⟨target, told, into, there, same⟩
    · have kept := anew.spared sound handled literal inside here
      exact ⟨node, node, found, kept.trans found, NodeParams.beq_self number⟩

end Anew

end Drawing

end Session

namespace Store

variable {store : Store} {connection : Connection}

end Store

namespace Session

section Operations

variable {session : Session} {operation : Operation}

/-- The session behind a change of the graph is closed once stale results are gone, if the
change itself has dropped nothing that matching fingerprints vouch for. -/
theorem Closed.swept_edited (closed : session.Closed) (tracked : session.Tracked)
    (sound : session.store.WellFormed) (proper : operation.OfDocument) {middle : Session}
    (keyed : middle.Keyed) (store : session.edited operation = middle.store)
    (entries : ∀ id, middle.store.contains id = true →
      middle.fingerprint? id = session.fingerprint? id)
    (spared : ∀ id member, session.isCompiled id = true → middle.isCompiled id = true →
      session.store.Matches middle.store.toGraph id → member ∈ session.store.ancestry id →
      session.isCompiled member = true → middle.isCompiled member = true) :
    middle.invalidateStale.Closed := by
  have sound' := edited_wellFormed sound operation
  have traced := every_edited (Tracked.traced_lasting session) (Tracked.every_traced sound)
    (proper.plain.brings_traced session)
  rw [store] at sound' traced
  exact closed.swept tracked keyed sound sound' traced entries spared

@[simp] theorem isCompiled_addNode (session : Session) (node : Node) (id : String) :
    (session.withStore (session.store.addNode node).2).isCompiled id = session.isCompiled id := by
  cases found : session.store.node? id with
  | some old =>
    rw [isCompiled_of_node? found]
    exact isCompiled_of_node? (Store.node?_addNode found)
  | none =>
    have bare : session.isCompiled id = false := by rw [isCompiled, found]
    rw [bare, ← Bool.not_eq_true]
    intro compiled
    obtain ⟨new, there, marked⟩ := isCompiled_iff.mp compiled
    change (session.store.addNode node).2.node? id = some new at there
    unfold Store.addNode at there
    split at there
    · cases found.symm.trans there
    · change (session.store.nodes ++ [node.fresh]).find? _ = some new at there
      change session.store.nodes.find? _ = none at found
      rw [List.find?_append, found, Option.none_or, List.find?_singleton] at there
      split at there
      · cases there
        cases marked
      · cases there

theorem isCompiled_congr {left right : Session} {id : String}
    (same : (left.store.node? id).map (·.data.compiled) =
      (right.store.node? id).map (·.data.compiled)) : left.isCompiled id = right.isCompiled id := by
  unfold isCompiled
  cases here : left.store.node? id <;> cases there : right.store.node? id <;>
    simp_all

@[simp] theorem isCompiled_addError (session : Session) (id message : String) (clear : Bool)
    (other : String) :
    (session.withStore (session.store.addError id message clear).2).isCompiled other =
      session.isCompiled other := by
  apply isCompiled_congr
  change ((session.store.addError id message clear).2.node? other).map _ = _
  unfold Store.addError
  split
  · have moved := @Store.node?_modifyNode session.store id (·.addError message clear)
      (fun _ _ _ => rfl) other
    change ((session.store.modifyNode id _).node? other).map _ = _
    rw [moved, Option.map_map]
    refine Option.map_congr fun node _ => ?_
    simp only [Function.comp_apply]
    split <;> rfl
  · rfl

/-- A patch that gives no fields leaves marks alone. -/
theorem isCompiled_unnoticed {target : String} {patch : NodePatch} (proper : patch.OfDocument)
    (untouched : patch.touchesParams = false) (named : patch.config ≠ some []) (id : String) :
    (session.withStore (session.store.updateNode target patch).2).isCompiled id =
      session.isCompiled id := by
  rcases Store.updateNode_cases session.store target patch with
    ⟨_, failed⟩ | ⟨source, patched, found, fits⟩
  · rw [failed]
    rfl
  · have bare : patch.config.isSome = false := by
      rw [← Bool.not_eq_true]
      exact fun given => named (bare_of_untouched untouched given)
    have marked := (Node.patched_ok fits).compiled
    rw [proper.2.2.2] at marked
    apply isCompiled_congr
    change ((session.store.updateNode target patch).2.node? id).map _ = _
    have silent : session.store.outlets target patch patched.kind = [] := by
      rw [Store.outlets, bare]
      rfl
    rw [Store.node?_updated found fits, silent]
    split
    · next here =>
      rw [here, found]
      exact congrArg some marked
    · simp

/-- Where an edge is drawn, but not anew, a fingerprint that still matches vouches for all
results before the node. -/
theorem spared_addEdge (sound : session.store.WellFormed) {connection : Connection}
    (steady : ¬ session.Redraws (.addEdge connection)) {edge : Edge} {after : Store}
    (done : session.store.addEdge connection = (.ok edge, after)) {dependent member : String}
    (compiled : session.isCompiled dependent = true)
    (still : (session.withStore after).isCompiled dependent = true)
    (same : session.store.Matches after.toGraph dependent)
    (listed : member ∈ session.store.ancestry dependent)
    (had : session.isCompiled member = true) :
    (session.withStore after).isCompiled member = true := by
  obtain ⟨source, target, found, into, drawn, handled, rfl⟩ := Store.addEdge_of_ok done
  by_cases here : member = edge.target
  · subst here
    refine (steady (redraws_of_matches sound found into drawn same listed compiled ?_)).elim
    rintro rfl
    have dropped := not_isCompiled_place session handled source.params.literal
    have ends : edge.target = connection.target := by rw [drawn]; rfl
    rw [ends] at dropped
    cases dropped.symm.trans still
  · exact isCompiled_of_same (spared_place sound handled _ same listed here) had

namespace Closed

theorem load (closed : session.Closed) (graph : Graph) : (session.load graph).2.Closed := by
  simp only [Session.load]
  split
  · next store done =>
    obtain ⟨built, success, same⟩ := Store.load_of_ok done
    intro id compiled
    cases (isCompiled_built success same id).symm.trans compiled
  · next failed =>
    rw [Store.load_of_error failed]
    exact closed

theorem addNode (closed : session.Closed) (sound : session.store.WellFormed) (node : Node) :
    (session.addNode node).2.Closed := by
  have sound' : (session.store.addNode node).2.WellFormed := edited_wellFormed sound (.addNode node)
  exact closed.carry sound sound' (Store.edges_addNode _ _) (isCompiled_addNode session node)

/-- The nodes that a removal strikes are not before a node whose fingerprint still matches. -/
theorem removeNode (closed : session.Closed) (tracked : session.Tracked) (keyed : session.Keyed)
    (sound : session.store.WellFormed) (id : String) : (session.removeNode id).2.Closed := by
  have proper : (Operation.removeNode id).OfDocument := trivial
  simp only [Session.removeNode]
  split
  · next store done =>
    have moved : (session.withStore store).Keyed := keyed
    refine closed.swept_edited tracked sound proper (moved.forget id) (congrArg Prod.snd done)
      (fun _ known => fingerprint?_of_removeNode done known) ?_
    intro dependent member _ _ same listed compiled
    exact isCompiled_of_same ((Store.struckAt_removeNode sound done).node?_of_matches same listed)
      compiled
  · next failed =>
    rw [Store.removeNode_of_error failed]
    exact closed

theorem updateNode (closed : session.Closed) (tracked : session.Tracked) (keyed : session.Keyed)
    (sound : session.store.WellFormed) {id : String} {patch : NodePatch}
    (proper : patch.OfDocument) (named : patch.config ≠ some []) :
    (session.updateNode id patch).2.Closed := by
  have asked : (Operation.updateNode id patch).OfDocument := proper
  simp only [Session.updateNode]
  split
  · next store done =>
    have edited : (session.store.updateNode id patch).2 = store := congrArg Prod.snd done
    have moved : (session.withStore store).Keyed := keyed
    simp only
    split
    · refine closed.swept_edited tracked sound asked moved edited (fun _ _ => rfl) ?_
      intro dependent member _ _ same listed compiled
      subst edited
      exact spared_updateNode sound proper same listed compiled
    · next untouched =>
      have sound' := edited_wellFormed sound (.updateNode id patch)
      subst edited
      exact closed.carry sound sound' (Store.edges_updateNode _ _ _)
        (isCompiled_unnoticed proper (Bool.eq_false_iff.mpr untouched) named)
  · next failed =>
    rw [Store.updateNode_of_error failed]
    exact closed

theorem addEdge (closed : session.Closed) (tracked : session.Tracked) (keyed : session.Keyed)
    (sound : session.store.WellFormed) {connection : Connection}
    (steady : ¬ session.Redraws (.addEdge connection)) : (session.addEdge connection).2.Closed := by
  have proper : (Operation.addEdge connection).OfDocument := trivial
  simp only [Session.addEdge]
  split
  · next edge store done =>
    have moved : (session.withStore store).Keyed := keyed
    refine closed.swept_edited tracked sound proper moved (congrArg Prod.snd done)
      (fun _ _ => rfl) ?_
    intro dependent member
    exact spared_addEdge sound steady done
  · next failed =>
    rw [Store.connect_of_error failed]
    exact closed

theorem removeEdge (closed : session.Closed) (tracked : session.Tracked) (keyed : session.Keyed)
    (sound : session.store.WellFormed) (id : String) : (session.removeEdge id).2.Closed := by
  have proper : (Operation.removeEdge id).OfDocument := trivial
  simp only [Session.removeEdge]
  split
  · next edge store done =>
    have moved : (session.withStore store).Keyed := keyed
    refine closed.swept_edited tracked sound proper moved (congrArg Prod.snd done)
      (fun _ _ => rfl) ?_
    intro dependent member _ _ same listed compiled
    unfold Store.removeEdge at done
    split at done
    · next found =>
      cases done
      have drawn := List.mem_of_find?_eq_some found
      exact isCompiled_of_same ((Store.struckAt_detach sound drawn).node?_of_matches same listed)
        compiled
    · cases done
  · next failed =>
    rw [Store.removeEdge_of_error failed]
    exact closed

theorem train (closed : session.Closed) (sound : session.store.WellFormed) (id : String)
    (watched : Bool) : (session.train id watched).session.Closed := by
  rcases session_train session id watched with same | ⟨_, message, _, _, same⟩
  · rw [same]
    exact closed
  · rw [same]
    have blank := Store.blank_addError session.store id message false
    exact closed.carry sound (Store.wellFormed_of_blank blank sound)
      (Graph.edges_of_blank blank) (isCompiled_addError session id message false)

/-- Only drawing an edge anew leaves a compiled node behind one that is not. -/
theorem steps (closed : session.Closed) (fresh : session.Fresh) (tracked : session.Tracked)
    (keyed : session.Keyed) (proper : operation.OfDocument) (named : operation.Named)
    (steady : ¬ session.Redraws operation) :
    (session.apply Registry.standard operation).Closed := by
  have sound := fresh.sound
  cases operation with
  | load graph => exact closed.load graph
  | addNode node => exact closed.addNode sound node
  | removeNode id => exact closed.removeNode tracked keyed sound id
  | updateNode id patch => exact closed.updateNode tracked keyed sound proper named
  | addEdge connection => exact closed.addEdge tracked keyed sound steady
  | removeEdge id => exact closed.removeEdge tracked keyed sound id
  | compile id =>
    change (session.compile Registry.standard id).2.Closed
    cases found : session.store.node? id with
    | none =>
      rw [compile_of_missing Registry.standard found]
      exact closed
    | some node => exact closed.compile fresh (Graph.contains_iff.mpr ⟨node, found⟩)
  | train id watched => exact closed.train sound id watched

end Closed

end Operations

end Session

end RecipeGraph
