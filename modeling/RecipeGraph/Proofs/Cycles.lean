import RecipeGraph.Proofs.Lineage

/-!
# Cycles, and the chains behind models

The kinds of the two ends of an edge never step down, and stay level only among
multiplications and among dense layers, so a cycle is all of the one or all of the
other. What is plugged into a model heads a chain of layers. The chain ends in the one
input of the model, or it runs into a cycle and the model has none.
-/

namespace RecipeGraph

open Relation (ReflTransGen TransGen)

namespace NodeKind

/-- Edges never lead to a lower level. -/
def level : NodeKind → Nat
  | .value | .tensor | .inputLayer => 0
  | .multiply | .denseLayer => 1
  | .model => 2
  | .trainModel => 3

/-- Kinds whose nodes can feed each other. -/
def feedsItself : NodeKind → Bool
  | .multiply | .denseLayer => true
  | _ => false

/-- The second kind is on a higher level, or both are one kind whose nodes can feed
each other. -/
def Climbs (kind next : NodeKind) : Prop :=
  kind.level < next.level ∨ kind = next ∧ kind.feedsItself = true

variable {kind next last : NodeKind}

theorem climbs_of_accepts {sourceHandle targetHandle : Option String}
    (accepts : next.accepts kind sourceHandle targetHandle = true) : kind.Climbs next := by
  unfold Climbs
  cases next with
  | multiply =>
    have fits : kind.producesValue = true := (Bool.and_eq_true_iff.mp accepts).2
    revert fits
    cases kind <;> decide
  | denseLayer | model =>
    have fits : kind.producesLayer = true := (Bool.and_eq_true_iff.mp accepts).2
    revert fits
    cases kind <;> decide
  | trainModel =>
    have fits : kind ≠ .trainModel := by
      rintro rfl
      simp [NodeKind.accepts] at accepts
    revert fits
    cases kind <;> decide
  | _ => cases accepts

theorem Climbs.level_le (climbs : kind.Climbs next) : kind.level ≤ next.level := by
  rcases climbs with higher | ⟨rfl, _⟩
  · exact higher.le
  · exact le_rfl

theorem Climbs.trans (first : kind.Climbs next) (second : next.Climbs last) :
    kind.Climbs last := by
  rcases first with higher | ⟨rfl, _⟩
  · exact .inl (higher.trans_le second.level_le)
  · exact second

/-- Kinds that climb to each other are one. -/
theorem Climbs.eq_of_back (there : kind.Climbs next) (back : next.Climbs kind) : kind = next := by
  rcases there with higher | ⟨same, _⟩
  · exact (Nat.lt_irrefl _ (higher.trans_le back.level_le)).elim
  · exact same

theorem Climbs.feedsItself (loop : kind.Climbs kind) : kind.feedsItself = true := by
  rcases loop with higher | ⟨_, feeds⟩
  · exact (Nat.lt_irrefl _ higher).elim
  · exact feeds

@[simp]
theorem feedsItself_iff : kind.feedsItself = true ↔ kind = .multiply ∨ kind = .denseLayer := by
  cases kind <;> decide

end NodeKind

namespace Graph

variable {graph : Graph} {id source first last : String} {path : List Edge}

/-- The edges lead from the first node to the last, each from where the one before
it ends. -/
inductive Path (graph : Graph) : List Edge → String → String → Prop
  | single {edge : Edge} (drawn : edge ∈ graph.edges) :
      Path graph [edge] edge.source edge.target
  | cons {edge : Edge} {rest : List Edge} {last : String} (drawn : edge ∈ graph.edges)
      (later : Path graph rest edge.target last) : Path graph (edge :: rest) edge.source last

/-- Both nodes are there, and the kind of the first climbs to the kind of the second. -/
def Climbs (graph : Graph) (id next : String) : Prop :=
  ∃ lower upper, graph.kind? id = some lower ∧ graph.kind? next = some upper ∧ lower.Climbs upper

theorem Climbs.trans {next : String} (there : graph.Climbs id next)
    (further : graph.Climbs next last) : graph.Climbs id last := by
  obtain ⟨lower, middle, start, between, climbs⟩ := there
  obtain ⟨middle', upper, between', finish, climbs'⟩ := further
  cases between.symm.trans between'
  exact ⟨lower, upper, start, finish, climbs.trans climbs'⟩

theorem climbs_of_edge (sound : graph.WellFormed) {edge : Edge} (drawn : edge ∈ graph.edges) :
    graph.Climbs edge.source edge.target := by
  obtain ⟨kind, into, _, sourced, targeted, _, accepts⟩ := accepts_of_edge sound drawn
  exact ⟨kind, into, sourced, targeted, NodeKind.climbs_of_accepts accepts⟩

namespace Path

theorem climbs (sound : graph.WellFormed) (leads : graph.Path path first last) :
    graph.Climbs first last := by
  induction leads with
  | single drawn => exact climbs_of_edge sound drawn
  | cons drawn _ ih => exact (climbs_of_edge sound drawn).trans ih

/-- Every edge of a path starts at its first node or above it, and below its last. -/
theorem between (sound : graph.WellFormed) (leads : graph.Path path first last) {edge : Edge}
    (member : edge ∈ path) :
    (edge.source = first ∨ graph.Climbs first edge.source) ∧ graph.Climbs edge.source last := by
  induction leads with
  | single drawn =>
    cases List.mem_singleton.mp member
    exact ⟨.inl rfl, climbs_of_edge sound drawn⟩
  | cons drawn later ih =>
    have step := climbs_of_edge sound drawn
    rcases List.mem_cons.mp member with rfl | inside
    · exact ⟨.inl rfl, step.trans (later.climbs sound)⟩
    · obtain ⟨above, below⟩ := ih inside
      refine ⟨.inr ?_, below⟩
      rcases above with same | above
      · rw [same]
        exact step
      · exact step.trans above

/-- All nodes of a cycle are of one kind, whose nodes can feed each other. -/
theorem kind_of_cycle (sound : graph.WellFormed) (cycle : graph.Path path id id) :
    ∃ kind, kind.feedsItself = true ∧ ∀ edge ∈ path, graph.kind? edge.source = some kind := by
  obtain ⟨kind, kind', here, here', loop⟩ := cycle.climbs sound
  cases here.symm.trans here'
  refine ⟨kind, loop.feedsItself, fun edge member => ?_⟩
  obtain ⟨above, other, end_, there, here', below⟩ := cycle.between sound member
  cases here.symm.trans here'
  rcases above with same | ⟨begin_, other', here', there', above⟩
  · rw [same]
    exact here
  · cases here.symm.trans here'
    cases there.symm.trans there'
    rw [there, below.eq_of_back above]

theorem exists_first (leads : graph.Path path first last) :
    ∃ edge ∈ path, edge.source = first := by
  cases leads with
  | single => exact ⟨_, List.mem_cons_self, rfl⟩
  | cons => exact ⟨_, List.mem_cons_self, rfl⟩

theorem transGen (leads : graph.Path path first last) : TransGen graph.Feeds first last := by
  induction leads with
  | single drawn => exact .single ⟨_, drawn, rfl, rfl⟩
  | cons drawn _ ih => exact .head ⟨_, drawn, rfl, rfl⟩ ih

/-- Where a node leads to another, it does so over some edges. -/
theorem exists_of_transGen (leads : TransGen graph.Feeds first last) :
    ∃ path, graph.Path path first last := by
  induction leads using Relation.TransGen.head_induction_on with
  | single feeds =>
    obtain ⟨edge, drawn, rfl, rfl⟩ := feeds
    exact ⟨[edge], .single drawn⟩
  | head feeds _ ih =>
    obtain ⟨edge, drawn, rfl, rfl⟩ := feeds
    obtain ⟨path, leads⟩ := ih
    exact ⟨edge :: path, .cons drawn leads⟩

end Path

/-- What is plugged into `in` is followed from node to node, from the first to the last. -/
def Chain (graph : Graph) : String → String → Prop :=
  ReflTransGen fun id source => graph.plugged id Handle.input = some source

/-- The chain behind a node ends in another, into whose `in` nothing is plugged. -/
def ChainEnds (graph : Graph) (id last : String) : Prop :=
  graph.Chain id last ∧ graph.plugged last Handle.input = none

/-- The chain behind a node comes to a cycle of dense layers. -/
def ChainCycles (graph : Graph) (id : String) : Prop :=
  ∃ looped path, graph.Path path looped looped ∧
    (∀ edge ∈ path, graph.kind? edge.source = some .denseLayer) ∧ graph.Chain id looped

def IsLayer (graph : Graph) (id : String) : Prop :=
  ∃ kind, graph.kind? id = some kind ∧ kind.producesLayer = true

/-- What is plugged into a layer or a model is a layer. -/
theorem isLayer_of_plugged (sound : graph.WellFormed)
    (plugged : graph.plugged id Handle.input = some source) : graph.IsLayer source := by
  obtain ⟨kind, into, sourceHandle, sourced, _, accepts⟩ := accepts_of_plugged sound plugged
  refine ⟨kind, sourced, ?_⟩
  cases into with
  | denseLayer | model => exact accepts
  | _ => cases accepts

/-- A layer is fed by what is plugged into `in`, and by nothing else. -/
theorem feeds_layer_iff (sound : graph.WellFormed) (layer : graph.IsLayer id) :
    graph.Feeds source id ↔ graph.plugged id Handle.input = some source := by
  refine ⟨?_, feeds_of_plugged⟩
  rintro ⟨edge, drawn, rfl, rfl⟩
  obtain ⟨kind, known, produces⟩ := layer
  obtain ⟨_, into, handle, _, targeted, named, accepts⟩ := accepts_of_edge sound drawn
  cases targeted.symm.trans known
  apply plugged_of_edge sound drawn
  cases kind with
  | denseLayer =>
    simp only [NodeKind.accepts, Bool.and_eq_true, decide_eq_true_eq] at accepts
    exact named.trans accepts.1
  | inputLayer => cases accepts
  | _ => cases produces

theorem isLayer_of_chain (sound : graph.WellFormed) (layer : graph.IsLayer id)
    (chain : graph.Chain id last) : graph.IsLayer last := by
  induction chain with
  | refl => exact layer
  | tail _ plugged _ => exact isLayer_of_plugged sound plugged

/-- Going back from a layer leads along the chain behind it. -/
theorem reaches_layer_iff (sound : graph.WellFormed) (layer : graph.IsLayer id) :
    ReflTransGen graph.Feeds source id ↔ graph.Chain id source := by
  constructor
  · intro reaches
    induction reaches using Relation.ReflTransGen.head_induction_on with
    | refl => exact .refl
    | head feeds _ chain =>
      exact chain.tail ((feeds_layer_iff sound (isLayer_of_chain sound layer chain)).mp feeds)
  · intro chain
    induction chain with
    | refl => exact .refl
    | tail _ plugged ih => exact .head (feeds_of_plugged plugged) ih

/-- A chain has one end at most. -/
theorem ChainEnds.unique {other : String} (ends : graph.ChainEnds id last)
    (ends' : graph.ChainEnds id other) : other = last := by
  have functional : Relator.RightUnique
      fun id source => graph.plugged id Handle.input = some source := by
    intro id left right plugged plugged'
    exact Option.some.inj (plugged.symm.trans plugged')
  -- A chain that goes on from where nothing is plugged in goes nowhere.
  have stays {stop further : String} (open_ : graph.plugged stop Handle.input = none)
      (chain : graph.Chain stop further) : further = stop := by
    rcases Relation.ReflTransGen.cases_head chain with same | ⟨next, plugged, _⟩
    · exact same.symm
    · cases open_.symm.trans plugged
  rcases Relation.ReflTransGen.total_of_right_unique functional ends.1 ends'.1 with
    forward | backward
  · exact stays ends.2 forward
  · exact (stays ends'.2 backward).symm

/-- A chain that comes back to a node comes to a cycle of dense layers. -/
theorem chainCycles_of_loop (sound : graph.WellFormed) (layer : graph.IsLayer id)
    (chain : graph.Chain id source) (loop : TransGen graph.Feeds source source) :
    graph.ChainCycles id := by
  obtain ⟨path, cycle⟩ := Path.exists_of_transGen loop
  obtain ⟨kind, feeds, kinds⟩ := cycle.kind_of_cycle sound
  obtain ⟨kind', known, produces⟩ := isLayer_of_chain sound layer chain
  refine ⟨source, path, cycle, ?_, chain⟩
  obtain ⟨edge, member, rfl⟩ := cycle.exists_first
  cases known.symm.trans (kinds edge member)
  have dense : kind = .denseLayer := by
    rcases NodeKind.feedsItself_iff.mp feeds with rfl | rfl
    · cases produces
    · rfl
  rwa [dense] at kinds

/-- Going back from a layer, there is a cycle, or there is an end to it. -/
theorem chain_cycles_or_ends (sound : graph.WellFormed) (layer : graph.IsLayer id) :
    graph.ChainCycles id ∨ ∃ last, graph.ChainEnds id last := by
  by_cases behind : BehindCycle graph.edges id
  · obtain ⟨looped, loop, reaches⟩ := behind
    exact .inl (chainCycles_of_loop sound layer ((reaches_layer_iff sound layer).mp reaches) loop)
  · right
    have grounded : Acc graph.Feeds id := acc_of_not_behindCycle behind
    clear behind
    induction grounded with
    | intro id _ ih =>
      cases plugged : graph.plugged id Handle.input with
      | none => exact ⟨id, .refl, plugged⟩
      | some source =>
        obtain ⟨last, chain, ends⟩ :=
          ih source (feeds_of_plugged plugged) (isLayer_of_plugged sound plugged)
        exact ⟨last, .head plugged chain, ends⟩

theorem acc_of_chainEnds (sound : graph.WellFormed) (layer : graph.IsLayer id)
    (ends : graph.ChainEnds id last) : Acc graph.Feeds id := by
  obtain ⟨chain, open_⟩ := ends
  induction chain using Relation.ReflTransGen.head_induction_on with
  | refl =>
    refine Acc.intro _ fun source feeds => ?_
    cases open_.symm.trans ((feeds_layer_iff sound layer).mp feeds)
  | head plugged _ ih =>
    have earlier := ih (isLayer_of_plugged sound plugged)
    refine Acc.intro _ fun source feeds => ?_
    cases plugged.symm.trans ((feeds_layer_iff sound layer).mp feeds)
    exact earlier

/-- A chain that comes to a cycle has no end. -/
theorem not_chainEnds_of_chainCycles (sound : graph.WellFormed) (layer : graph.IsLayer id)
    (cycles : graph.ChainCycles id) : ¬ graph.ChainEnds id last := by
  obtain ⟨looped, path, cycle, _, chain⟩ := cycles
  intro ends
  refine not_acc_of_behindCycle ⟨looped, cycle.transGen, ?_⟩ (acc_of_chainEnds sound layer ends)
  exact (reaches_layer_iff sound layer).mpr chain

theorem inbound_of_layer (sound : graph.WellFormed) (layer : graph.IsLayer id) :
    graph.inbound id = [] ↔ graph.plugged id Handle.input = none := by
  rw [inbound_eq_nil, Option.eq_none_iff_forall_ne_some]
  exact forall_congr' fun source => not_congr (feeds_layer_iff sound layer)

theorem mem_origins_iff (sound : graph.WellFormed) (layer : graph.IsLayer id) :
    last ∈ graph.origins [id] [id] ↔ graph.ChainEnds id last := by
  have same : graph.walk [id] [id] = graph.ancestry id := rfl
  rw [origins_eq_filter, same, List.mem_filter, mem_ancestry, reaches_layer_iff sound layer,
    List.isEmpty_iff]
  refine and_congr_right fun chain => ?_
  exact inbound_of_layer sound (isLayer_of_chain sound layer chain)

/-- The ends of the walk behind a layer: the end of the chain, if it has one. -/
theorem origins_of_layer (sound : graph.WellFormed) (layer : graph.IsLayer id) :
    (∃ last, graph.ChainEnds id last ∧ graph.origins [id] [id] = [last]) ∨
      graph.ChainCycles id ∧ graph.origins [id] [id] = [] := by
  rcases chain_cycles_or_ends sound layer with cycles | ⟨last, ends⟩
  · refine .inr ⟨cycles, List.eq_nil_iff_forall_not_mem.mpr fun last member => ?_⟩
    exact not_chainEnds_of_chainCycles sound layer cycles ((mem_origins_iff sound layer).mp member)
  · refine .inl ⟨last, ends, ?_⟩
    have once : (graph.origins [id] [id]).Nodup := by
      rw [origins_eq_filter]
      exact (nodup_ancestry graph id).filter _
    apply List.perm_singleton.mp
    apply (List.perm_ext_iff_of_nodup once (List.nodup_singleton last)).mpr
    intro other
    rw [mem_origins_iff sound layer, List.mem_singleton]
    exact ⟨ends.unique, fun same => same ▸ ends⟩

/-- What the boundary of a model consists of: the node plugged into it, and the end of
the chain behind that node as its only input, or no input. -/
structure Bounds (graph : Graph) (source : String) (boundary : Boundary) : Prop where
  output : graph.node? source = some boundary.output
  input_iff : ∀ last, boundary.inputs = [last] ↔
    graph.node? last.id = some last ∧ graph.ChainEnds source last.id
  inputless_iff : boundary.inputs = [] ↔ graph.ChainCycles source
  at_most_one : boundary.inputs.length ≤ 1

/-- The walk behind a layer collects the nodes of its ends. -/
theorem bounds_of_origins (sound : graph.WellFormed) (layer : graph.IsLayer source)
    {output : Node} (found : graph.node? source = some output) {inputs : List Node}
    (collected : graph.nodesOf (graph.origins [source] [source]) = .ok inputs) :
    graph.Bounds source ⟨inputs, output⟩ := by
  have nodes := nodesOf_eq_ok.mp collected
  rcases origins_of_layer sound layer with ⟨last, ends, listed⟩ | ⟨cycles, listed⟩
  · obtain ⟨input, rfl⟩ : ∃ input, inputs = [input] := by
      apply List.length_eq_one_iff.mp
      rw [← List.length_map some, ← nodes, listed]
      rfl
    have stored : graph.node? last = some input := by
      rw [listed] at nodes
      exact (List.cons.inj nodes).1
    have named := id_of_node? stored
    refine ⟨found, fun other => ?_, ?_, le_rfl⟩
    · rw [List.cons.injEq, and_iff_left rfl]
      constructor
      · rintro rfl
        rw [named]
        exact ⟨stored, ends⟩
      · rintro ⟨stored', ends'⟩
        rw [ends.unique ends', stored] at stored'
        exact Option.some.inj stored'
    · refine ⟨nofun, fun cycles => ?_⟩
      exact (not_chainEnds_of_chainCycles sound layer cycles ends).elim
  · obtain rfl : inputs = [] := by
      rw [listed] at nodes
      exact List.map_eq_nil_iff.mp nodes.symm
    refine ⟨found, fun other => ?_, ⟨fun _ => cycles, fun _ => rfl⟩, Nat.zero_le _⟩
    refine ⟨nofun, fun ⟨_, ends⟩ => ?_⟩
    exact (not_chainEnds_of_chainCycles sound layer cycles ends).elim

theorem exists_boundary (sound : graph.WellFormed) {kind : NodeKind}
    (known : graph.kind? id = some kind) (plugged : graph.plugged id Handle.input = some source) :
    ∃ boundary, graph.boundary id Handle.input = .ok (some boundary) ∧
      graph.Bounds source boundary := by
  obtain ⟨node, found, _⟩ := Option.map_eq_some_iff.mp known
  have stored := contains_of_reaches sound (contains_iff.mpr ⟨node, found⟩)
    (.single (feeds_of_plugged plugged))
  obtain ⟨output, there⟩ := contains_iff.mp stored
  have layer := isLayer_of_plugged sound plugged
  obtain ⟨inputs, collected⟩ :
      ∃ inputs, graph.nodesOf (graph.origins [source] [source]) = .ok inputs := by
    refine exists_nodesOf fun last listed => ?_
    have chain := ((mem_origins_iff sound layer).mp listed).1
    exact contains_of_reaches sound stored ((reaches_layer_iff sound layer).mpr chain)
  have into : graph.inputNode? id Handle.input = some output := by
    rw [inputNode?_eq_bind, plugged]
    exact there
  refine ⟨_, boundary_of_plugged found into ?_, bounds_of_origins sound layer there collected⟩
  rw [id_of_node? there]
  exact collected

end Graph

namespace Store

/-- In every store, a cycle consists of multiplications or of dense layers. What is
plugged into `in` of a model has the end of its chain as the only input, or it has
none, exactly if its chain runs into a cycle of dense layers. -/
theorem run_cycles_and_boundaries (operations : List Operation) :
    (∀ path id, (run operations).Path path id id →
      (∀ edge ∈ path, (run operations).kind? edge.source = some .multiply) ∨
        ∀ edge ∈ path, (run operations).kind? edge.source = some .denseLayer) ∧
    ∀ id source, (run operations).kind? id = some .model →
      (run operations).plugged id Handle.input = some source →
        ∃ boundary, (run operations).boundary id Handle.input = .ok (some boundary) ∧
          (run operations).Bounds source boundary := by
  have sound := foldl_apply_wellFormed empty_wellFormed operations
  refine ⟨fun path id cycle => ?_, fun id source model plugged => ?_⟩
  · obtain ⟨kind, feeds, kinds⟩ := cycle.kind_of_cycle sound
    rcases NodeKind.feedsItself_iff.mp feeds with rfl | rfl
    · exact .inl kinds
    · exact .inr kinds
  · exact Graph.exists_boundary sound model plugged

/-- Two dense layers that feed each other, a model behind them, and a model behind an
input layer. -/
def knotted : List Operation := [.load {
  nodes := [⟨"p", .denseLayer 2 .relu none, .null, {}⟩, ⟨"q", .denseLayer 2 .relu none, .null, {}⟩,
    ⟨"i", .inputLayer [4], .null, {}⟩, ⟨"m", .model .adam .mse 0.5, .null, {}⟩,
    ⟨"n", .model .adam .mse 0.5, .null, {}⟩]
  edges := [⟨"p-q", "p", "q", none, none⟩, ⟨"q-p", "q", "p", none, none⟩,
    ⟨"q-m", "q", "m", none, none⟩, ⟨"i-n", "i", "n", none, none⟩] }]

def knot : List Edge :=
  [⟨"p-q", "p", "q", none, some Handle.input⟩, ⟨"q-p", "q", "p", none, some Handle.input⟩]

/-- The chain of the one model runs into the cycle, the chain of the other ends. -/
theorem run_cycles_and_boundaries_knotted :
    (run knotted).Path knot "p" "p" ∧
    ((∀ edge ∈ knot, (run knotted).kind? edge.source = some .multiply) ∨
      ∀ edge ∈ knot, (run knotted).kind? edge.source = some .denseLayer) ∧
    ∀ ends ∈ [("m", "q"), ("n", "i")], (run knotted).kind? ends.1 = some .model ∧
      (run knotted).plugged ends.1 Handle.input = some ends.2 ∧
      ∃ boundary, (run knotted).boundary ends.1 Handle.input = .ok (some boundary) ∧
        (run knotted).Bounds ends.2 boundary := by
  have cycle : (run knotted).Path knot "p" "p" := by
    have there : ∀ edge ∈ knot, edge ∈ (run knotted).edges := by decide +kernel
    exact .cons (there _ List.mem_cons_self)
      (.single (there _ (List.mem_cons_of_mem _ List.mem_cons_self)))
  refine ⟨cycle, (run_cycles_and_boundaries knotted).1 knot "p" cycle, fun ends listed => ?_⟩
  have plugged : ∀ ends ∈ [("m", "q"), ("n", "i")], (run knotted).kind? ends.1 = some .model ∧
      (run knotted).plugged ends.1 Handle.input = some ends.2 := by decide +kernel
  obtain ⟨model, into⟩ := plugged ends listed
  exact ⟨model, into, (run_cycles_and_boundaries knotted).2 ends.1 ends.2 model into⟩

end Store

end RecipeGraph
