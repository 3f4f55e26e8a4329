import RecipeGraph.Compiler
import RecipeGraph.Proofs.Compiling
import RecipeGraph.Proofs.Sameness

/-!
# Graphs that look the same from a node

What a node compiles to depends on the nodes from which it can be reached: on
their fields and on the edges into them, in their order. A field that remembers
the literal of an edge does not count while the edge is there.
-/

namespace RecipeGraph

open Relation (ReflTransGen TransGen)

theorem Edge.occupies_iff {edge : Edge} {id : String} {handle : Option String} :
    edge.occupies id handle = true ↔ edge.target = id ∧ edge.targetHandle = handle := by
  simp only [occupies, Bool.and_eq_true, decide_eq_true_eq]

/-- The fields without those that remember a literal for a handle in use. -/
def NodeParams.unfed (params : NodeParams) (fed : String → Bool) : NodeParams :=
  match params with
  | .multiply a b =>
    .multiply (if fed Handle.a then none else a) (if fed Handle.b then none else b)
  | other => other

@[simp]
theorem NodeParams.kind_unfed (params : NodeParams) (fed : String → Bool) :
    (params.unfed fed).kind = params.kind := by
  cases params <;> rfl

/-- What produces no numbers has no field that may be overruled. -/
@[simp] theorem NodeParams.unfed_of_numberless {params : NodeParams}
    (numberless : params.kind.producesValue = false) (fed : String → Bool) :
    params.unfed fed = params := by
  cases params with
  | multiply => cases numberless
  | _ => rfl

/-- Fields that count as equal are of one kind, and equal where none of them remembers a
literal. -/
theorem NodeParams.beq_of_unfed {left right : NodeParams} {fed : String → Bool}
    (equal : (left.unfed fed == right.unfed fed) = true) :
    left.kind = right.kind ∧ (left.kind.producesValue = false → (left == right) = true) := by
  have kinds : (left.unfed fed).kind = (right.unfed fed).kind := by
    generalize left.unfed fed = a, right.unfed fed = b at equal
    cases NodeParams.beq_iff.mp equal <;> rfl
  rw [kind_unfed, kind_unfed] at kinds
  refine ⟨kinds, fun numberless => ?_⟩
  rwa [unfed_of_numberless numberless, unfed_of_numberless (kinds ▸ numberless)] at equal

namespace Graph

/-- The edges into a node without their ids. -/
def ends (graph : Graph) (id : String) : List Connection :=
  (graph.inbound id).map Edge.connection

/-- The id of the node plugged into a handle. -/
def plugged (graph : Graph) (id handle : String) : Option String :=
  (graph.inputEdge? id handle).map (·.source)

def fed (graph : Graph) (id handle : String) : Bool :=
  (graph.plugged id handle).isSome

theorem plugged_eq_find (graph : Graph) (id handle : String) :
    graph.plugged id handle =
      ((graph.ends id).find? fun port => port.targetHandle = some handle).map (·.source) := by
  unfold plugged inputEdge? ends inbound
  rw [List.find?_map, List.find?_filter, Option.map_map]
  congr 2
  funext edge
  by_cases into : edge.target = id <;> by_cases named : edge.targetHandle = some handle <;>
    simp [Edge.occupies, Edge.connection, into, named]

theorem inputNode?_eq_bind (graph : Graph) (id handle : String) :
    graph.inputNode? id handle = (graph.plugged id handle).bind graph.node? := by
  unfold inputNode? plugged
  cases graph.inputEdge? id handle <;> rfl

theorem occupies_of_inputEdge? {graph : Graph} {id handle : String} {edge : Edge}
    (found : graph.inputEdge? id handle = some edge) :
    edge ∈ graph.edges ∧ edge.occupies id (some handle) = true := by
  have here := List.find?_some found
  exact ⟨List.mem_of_find?_eq_some found, here⟩

theorem exists_edge_of_plugged {graph : Graph} {id handle source : String}
    (plugged : graph.plugged id handle = some source) :
    ∃ edge ∈ graph.edges, edge.source = source ∧ edge.target = id ∧
      edge.targetHandle = some handle := by
  obtain ⟨edge, found, rfl⟩ := Option.map_eq_some_iff.mp plugged
  obtain ⟨drawn, here⟩ := occupies_of_inputEdge? found
  exact ⟨edge, drawn, rfl, Edge.occupies_iff.mp here⟩

theorem feeds_of_plugged {graph : Graph} {id handle source : String}
    (plugged : graph.plugged id handle = some source) : graph.Feeds source id := by
  obtain ⟨edge, drawn, named, into, _⟩ := exists_edge_of_plugged plugged
  exact ⟨edge, drawn, named, into⟩

/-- Nothing is plugged into a handle unless an edge ends in it. -/
theorem plugged_eq_none_iff {graph : Graph} {id handle : String} :
    graph.plugged id handle = none ↔
      ∀ edge ∈ graph.edges, edge.occupies id (some handle) = false := by
  simp only [plugged, inputEdge?, Option.map_eq_none_iff, List.find?_eq_none, Bool.not_eq_true]

/-- At most one edge ends in a handle of a well-formed graph. -/
theorem eq_of_occupies {graph : Graph} (sound : graph.WellFormed) {edge other : Edge}
    (drawn : edge ∈ graph.edges) (drawn' : other ∈ graph.edges) {id handle : String}
    (here : edge.occupies id (some handle) = true)
    (here' : other.occupies id (some handle) = true) : other = edge := by
  obtain ⟨rfl, port⟩ := Edge.occupies_iff.mp here
  obtain ⟨into, port'⟩ := Edge.occupies_iff.mp here'
  apply List.inj_on_of_nodup_map sound.unshared drawn' drawn
  rw [into, port, port']

/-- In a well-formed graph, the edge that ends in a handle is the one that is found. -/
theorem plugged_of_edge {graph : Graph} (sound : graph.WellFormed) {edge : Edge}
    (drawn : edge ∈ graph.edges) {handle : String} (port : edge.targetHandle = some handle) :
    graph.plugged edge.target handle = some edge.source := by
  have here : edge.occupies edge.target (some handle) = true := Edge.occupies_iff.mpr ⟨rfl, port⟩
  cases found : graph.inputEdge? edge.target handle with
  | none => exact absurd here (List.find?_eq_none.mp found edge drawn)
  | some other =>
    obtain ⟨drawn', here'⟩ := occupies_of_inputEdge? found
    rw [plugged, found, Option.map_some, eq_of_occupies sound drawn drawn' here here']

theorem feeds_iff_ends {graph : Graph} {source id : String} :
    graph.Feeds source id ↔ ∃ port ∈ graph.ends id, port.source = source := by
  constructor
  · rintro ⟨edge, drawn, rfl, into⟩
    refine ⟨edge.connection, List.mem_map_of_mem (List.mem_filter.mpr ⟨drawn, ?_⟩), rfl⟩
    simpa using into
  · rintro ⟨port, listed, rfl⟩
    obtain ⟨edge, inbound, rfl⟩ := List.mem_map.mp listed
    have parts := List.mem_filter.mp inbound
    exact ⟨edge, parts.1, rfl, by simpa using parts.2⟩

/-- The graphs show the same at one node: the same edges into it and equal
fields, apart from those that handles in use overrule. -/
structure SameAt (left right : Graph) (id : String) : Prop where
  ends : left.ends id = right.ends id
  params : ∃ a b, left.node? id = some a ∧ right.node? id = some b ∧
    (a.params.unfed (left.fed id) == b.params.unfed (left.fed id)) = true

/-- The graphs show the same at every node from which this one can be reached. -/
def SameUpstream (left right : Graph) (id : String) : Prop :=
  ∀ member, ReflTransGen left.Feeds member id → left.SameAt right member

namespace SameAt

variable {left middle right : Graph} {id : String}

theorem plugged (same : left.SameAt right id) (handle : String) :
    left.plugged id handle = right.plugged id handle := by
  rw [plugged_eq_find, plugged_eq_find, same.ends]

theorem fed (same : left.SameAt right id) : left.fed id = right.fed id := by
  funext handle
  rw [Graph.fed, Graph.fed, same.plugged]

theorem feeds (same : left.SameAt right id) {source : String} :
    left.Feeds source id ↔ right.Feeds source id := by
  rw [feeds_iff_ends, feeds_iff_ends, same.ends]

theorem symm (same : left.SameAt right id) : right.SameAt left id := by
  obtain ⟨a, b, here, there, equal⟩ := same.params
  refine ⟨same.ends.symm, b, a, there, here, ?_⟩
  rw [← same.fed]
  exact BEq.symm equal

theorem trans (first : left.SameAt middle id) (second : middle.SameAt right id) :
    left.SameAt right id := by
  obtain ⟨a, b, here, between, equal⟩ := first.params
  obtain ⟨b', c, between', there, equal'⟩ := second.params
  rw [between] at between'
  cases between'
  refine ⟨first.ends.trans second.ends, a, c, here, there, ?_⟩
  rw [← first.fed] at equal'
  exact BEq.trans equal equal'

end SameAt

namespace SameUpstream

variable {left middle right : Graph} {id : String}

theorem reaches (same : left.SameUpstream right id) {member : String} :
    ReflTransGen left.Feeds member id ↔ ReflTransGen right.Feeds member id := by
  constructor
  · intro reaches
    induction reaches using Relation.ReflTransGen.head_induction_on with
    | refl => exact .refl
    | head feeds later ih => exact .head ((same _ later).feeds.mp feeds) ih
  · intro reaches
    induction reaches using Relation.ReflTransGen.head_induction_on with
    | refl => exact .refl
    | head feeds _ ih => exact .head ((same _ ih).feeds.mpr feeds) ih

theorem symm (same : left.SameUpstream right id) : right.SameUpstream left id :=
  fun member reaches => (same member (same.reaches.mpr reaches)).symm

theorem trans (first : left.SameUpstream middle id) (second : middle.SameUpstream right id) :
    left.SameUpstream right id :=
  fun member reaches => (first member reaches).trans (second member (first.reaches.mp reaches))

theorem upstream (same : left.SameUpstream right id) {member : String}
    (reaches : ReflTransGen left.Feeds member id) : left.SameUpstream right member :=
  fun ancestor leads => same ancestor (leads.trans reaches)

theorem ancestry (same : left.SameUpstream right id) : left.ancestry id = right.ancestry id := by
  refine walk_congr fun member found => ?_
  have ends := (same member (mem_ancestry.mp found)).ends
  have sources := congrArg (List.map Connection.source) ends
  unfold Graph.ends at sources
  rw [List.map_map, List.map_map] at sources
  exact sources

end SameUpstream

/-- All numbers in the fields of all nodes are finite. -/
def Finite (graph : Graph) : Prop :=
  ∀ node ∈ graph.nodes, node.params.isFinite = true

instance (graph : Graph) : Decidable graph.Finite :=
  inferInstanceAs (Decidable (∀ node ∈ graph.nodes, node.params.isFinite = true))

end Graph

@[simp] theorem NodeParams.isFinite_unfed {params : NodeParams} (finite : params.isFinite = true)
    (fed : String → Bool) : (params.unfed fed).isFinite = true := by
  cases params with
  | multiply a b =>
    have parts := Bool.and_eq_true_iff.mp finite
    refine Bool.and_eq_true_iff.mpr ⟨?_, ?_⟩
    · split
      · rfl
      · exact parts.1
    · split
      · rfl
      · exact parts.2
  | _ => exact finite

/-- Fields that are equal stay so when some of them no longer count. -/
@[simp] theorem NodeParams.unfed_beq {left right : NodeParams} (same : (left == right) = true)
    (fed : String → Bool) : (left.unfed fed == right.unfed fed) = true := by
  cases NodeParams.beq_iff.mp same with
  | multiply a b =>
    refine NodeParams.beq_iff.mpr (.multiply ?_ ?_)
    · split
      · rfl
      · exact a
    · split
      · rfl
      · exact b
  | _ => exact same

namespace Graph

/-- What nodes have whatever is left on them, they have in all graphs that differ in no
more than that. -/
theorem forall_of_blank {left right : Graph} (same : right.blank = left.blank)
    {holds : Node → Prop} (fresh : ∀ node : Node, holds node.fresh ↔ holds node)
    (each : ∀ node ∈ left.nodes, holds node) : ∀ node ∈ right.nodes, holds node := by
  intro node member
  have listed : node.fresh ∈ left.blank.nodes := same ▸ List.mem_map_of_mem member
  obtain ⟨other, stored, equal⟩ := List.mem_map.mp listed
  have had := (fresh other).mpr (each other stored)
  rw [equal] at had
  exact (fresh node).mp had

theorem finite_of_blank {left right : Graph} (same : right.blank = left.blank)
    (finite : left.Finite) : right.Finite :=
  forall_of_blank same (fun _ => Iff.rfl) finite

theorem ends_of_edges {left right : Graph} (same : left.edges = right.edges) (id : String) :
    left.ends id = right.ends id := by
  unfold ends inbound
  rw [same]

theorem plugged_of_edges {left right : Graph} (same : left.edges = right.edges)
    (id handle : String) : left.plugged id handle = right.plugged id handle := by
  rw [plugged_eq_find, plugged_eq_find, ends_of_edges same]

/-- Fields that are the same but for handles in use show the same. -/
theorem sameAt_of_unfed {left right : Graph} (finite : left.Finite) {id : String} {a b : Node}
    (ends : left.ends id = right.ends id) (here : left.node? id = some a)
    (there : right.node? id = some b)
    (same : a.params.unfed (left.fed id) = b.params.unfed (left.fed id)) :
    left.SameAt right id := by
  refine ⟨ends, a, b, here, there, ?_⟩
  rw [← same]
  exact NodeParams.beq_self (NodeParams.isFinite_unfed (finite a (mem_of_node? here)) _)

/-- Graphs with the same edges look the same from a node if all nodes have the
same fields, apart from those that handles in use overrule. -/
theorem sameUpstream_of_unfed {left right : Graph} (sound : left.WellFormed)
    (finite : left.Finite) (edges : right.edges = left.edges)
    (same : ∀ member a, left.node? member = some a → ∃ b, right.node? member = some b ∧
      b.params.unfed (left.fed member) = a.params.unfed (left.fed member))
    {id : String} (known : left.contains id = true) : left.SameUpstream right id := by
  intro member reaches
  obtain ⟨a, here⟩ := contains_iff.mp (contains_of_reaches sound known reaches)
  obtain ⟨b, there, equal⟩ := same member a here
  exact sameAt_of_unfed finite (ends_of_edges edges.symm member) here there equal.symm

theorem SameUpstream.refl {graph : Graph} (sound : graph.WellFormed) (finite : graph.Finite)
    {id : String} (known : graph.contains id = true) : graph.SameUpstream graph id :=
  sameUpstream_of_unfed sound finite rfl (fun _ a found => ⟨a, found, rfl⟩) known

end Graph

end RecipeGraph
