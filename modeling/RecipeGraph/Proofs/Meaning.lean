import RecipeGraph.Proofs.Agreement
import RecipeGraph.Proofs.Ordering

/-!
# What nodes mean

The meaning of a node is what it compiles to once everything that leads to it
holds its own meaning. It depends on fields and edges only, and graphs that look
the same from a node give it equal meanings.
-/

namespace RecipeGraph

open Relation (ReflTransGen TransGen)

namespace Graph

/-- What a node of the graph means. The stored results of the graph do not count:
the node compiles in a graph that holds, at all that leads to it, what that
means. -/
inductive Means (graph : Graph) : String → Artifact → Prop
  | compiled {id : String} {filled : Graph} {node : Node} {values : String → Artifact}
      {result : Artifact} (same : filled.blank = graph.blank)
      (found : filled.node? id = some node)
      (inputs : ∀ member, TransGen graph.Feeds member id → Means graph member (values member))
      (stored : ∀ member, TransGen graph.Feeds member id →
        ∃ source, filled.node? member = some source ∧ source.data.output = some (values member))
      (made : node.compileAs node.kind filled = .ok result) : Means graph id result

/-- The node holds what it means in the other graph. -/
def Holds (filled graph : Graph) (id : String) : Prop :=
  ∃ node value, filled.node? id = some node ∧ node.data.output = some value ∧
    graph.Means id value

theorem node?_of_blank {left right : Graph} (same : left.blank = right.blank) (id : String) :
    (left.node? id).map Node.fresh = (right.node? id).map Node.fresh := by
  rw [← node?_blank, ← node?_blank, same]

theorem params_of_blank {left right : Graph} (same : left.blank = right.blank) {id : String}
    {node : Node} (found : left.node? id = some node) :
    ∃ other, right.node? id = some other ∧ other.params = node.params := by
  have fresh := node?_of_blank same id
  rw [found] at fresh
  obtain ⟨other, there, equal⟩ := Option.map_eq_some_iff.mp fresh.symm
  have params := congrArg Node.params equal
  exact ⟨other, there, params⟩

theorem feeds_of_blank {left right : Graph} (same : left.blank = right.blank) :
    left.Feeds = right.Feeds := by
  unfold Feeds
  rw [edges_of_blank same]

/-- What is left on nodes does not show. -/
theorem SameAt.of_blank {left left' right right' : Graph} {id : String}
    (same : left.SameAt right id) (here : left.blank = left'.blank)
    (there : right.blank = right'.blank) : left'.SameAt right' id := by
  obtain ⟨a, b, found, found', equal⟩ := same.params
  obtain ⟨a', moved, params⟩ := params_of_blank here found
  obtain ⟨b', moved', params'⟩ := params_of_blank there found'
  have ends := ends_of_edges (edges_of_blank here) id
  have fed : left.fed id = left'.fed id := by
    funext handle
    rw [Graph.fed, Graph.fed, plugged_eq_find, plugged_eq_find, ends]
  refine ⟨?_, a', b', moved, moved', ?_⟩
  · rw [← ends, same.ends, ends_of_edges (edges_of_blank there)]
  · rw [params, params', ← fed]
    exact equal

theorem SameUpstream.of_blank {left left' right right' : Graph} {id : String}
    (same : left.SameUpstream right id) (here : left.blank = left'.blank)
    (there : right.blank = right'.blank) : left'.SameUpstream right' id := by
  intro member reaches
  rw [← feeds_of_blank here] at reaches
  exact (same member reaches).of_blank here there

theorem SameUpstream.leads {left right : Graph} {id member : String}
    (same : left.SameUpstream right id) (leads : TransGen left.Feeds member id) :
    TransGen right.Feeds member id := by
  obtain ⟨source, reaches, feeds⟩ := Relation.TransGen.tail'_iff.mp leads
  have inner := same.upstream (.single feeds)
  exact .tail' (inner.reaches.mp reaches) ((same id .refl).feeds.mp feeds)

theorem Means.of_blank {left right : Graph} (same : left.blank = right.blank) {id : String}
    {value : Artifact} (means : left.Means id value) : right.Means id value := by
  induction means with
  | compiled blank found _ stored made ih =>
    rw [feeds_of_blank same] at ih stored
    exact .compiled (blank.trans same) found ih stored made

theorem Means.of_holds {filled graph : Graph} (same : filled.blank = graph.blank) {id : String}
    {node : Node} (found : filled.node? id = some node)
    (holds : ∀ member, TransGen graph.Feeds member id → filled.Holds graph member)
    {result : Artifact} (made : node.compileAs node.kind filled = .ok result) :
    graph.Means id result := by
  have chosen : ∀ member, ∃ value, TransGen graph.Feeds member id →
      graph.Means member value ∧
        ∃ source, filled.node? member = some source ∧ source.data.output = some value := by
    intro member
    by_cases leads : TransGen graph.Feeds member id
    · obtain ⟨source, value, there, output, means⟩ := holds member leads
      exact ⟨value, fun _ => ⟨means, source, there, output⟩⟩
    · exact ⟨result, fun again => (leads again).elim⟩
  choose values chosen using chosen
  exact .compiled same found (fun member leads => (chosen member leads).1)
    (fun member leads => (chosen member leads).2) made

/-- All that leads to a node that means something means something. -/
theorem Means.upstream {graph : Graph} {id member : String} {value : Artifact}
    (means : graph.Means id value) (reaches : ReflTransGen graph.Feeds member id) :
    ∃ other, graph.Means member other := by
  rcases Relation.reflTransGen_iff_eq_or_transGen.mp reaches with rfl | leads
  · exact ⟨value, means⟩
  · cases means with
    | compiled _ _ inputs _ _ => exact ⟨_, inputs member leads⟩

/-- What produces numbers compiles to a number. -/
theorem scalar_of_compileAs {graph : Graph} {node : Node} {value : Artifact}
    (produces : node.kind.producesValue = true)
    (made : node.compileAs node.kind graph = .ok value) : ∃ x, value = .scalar x := by
  cases kind : node.kind with
  | value =>
    rw [kind] at made
    change node.compileValue = .ok value at made
    unfold Node.compileValue at made
    split at made
    · split at made <;> cases made
      exact ⟨_, rfl⟩
    · cases made
    · cases made
  | multiply =>
    rw [kind] at made
    change node.compileMultiply graph = .ok value at made
    unfold Node.compileMultiply at made
    split at made
    · obtain ⟨_, _, more⟩ := Outcome.bind_eq_ok.mp made
      obtain ⟨_, _, product⟩ := Outcome.bind_eq_ok.mp more
      simp only at product
      split at product <;> cases product
      exact ⟨_, rfl⟩
    · cases made
  | _ =>
    rw [kind] at produces
    cases produces

/-- What produces numbers means a number. -/
theorem Means.scalar {graph : Graph} {id : String} {value : Artifact} {kind : NodeKind}
    (means : graph.Means id value) (known : graph.kind? id = some kind)
    (produces : kind.producesValue = true) : ∃ x, value = .scalar x := by
  cases means with
  | @compiled _ filled node _ _ same found _ _ made =>
    have kept : node.kind = kind := by
      have filled_kind := (thins_of_blank same).kind? id
      rw [known, kind?, found] at filled_kind
      exact Option.some.inj filled_kind
    exact scalar_of_compileAs (kept ▸ produces) made

/-- Only what produces numbers is plugged into a product. -/
theorem producesValue_of_feeds {graph : Graph} (sound : graph.WellFormed) {source id : String}
    (product : graph.kind? id = some .multiply) (feeds : graph.Feeds source id) :
    ∃ kind, graph.kind? source = some kind ∧ kind.producesValue = true := by
  obtain ⟨edge, drawn, rfl, rfl⟩ := feeds
  obtain ⟨_, kind, target, sourced, targeted, accepts⟩ := carries_iff.mp (sound.carried edge drawn)
  rw [product] at targeted
  cases targeted
  exact ⟨kind, sourced, (Bool.and_eq_true_iff.mp accepts).2⟩

theorem sameInputs_of_holds {left right filled filled' : Graph} (sound : left.WellFormed)
    {id : String} (same : left.SameUpstream right id) (blank : filled.blank = left.blank)
    (blank' : filled'.blank = right.blank)
    (holds : ∀ member, TransGen left.Feeds member id → filled.Holds left member ∧
      filled.SameOutput filled' member) : filled.SameInputs filled' id where
  upstream := same.of_blank blank.symm blank'.symm
  outputs member leads := by
    rw [feeds_of_blank blank] at leads
    exact (holds member leads).2
  scalars product source feeds := by
    rw [feeds_of_blank blank] at feeds
    rw [(thins_of_blank blank).kind?] at product
    obtain ⟨kind, known, produces⟩ := producesValue_of_feeds sound product feeds
    obtain ⟨node, value, found, output, means⟩ := (holds source (.single feeds)).1
    obtain ⟨x, rfl⟩ := means.scalar known produces
    exact ⟨node, x, found, output⟩

/-- The graph with results for all of its nodes. -/
def fill (graph : Graph) (values : String → Artifact) : Graph :=
  { graph with nodes := graph.nodes.map fun node =>
      { node with data := { node.data with output := some (values node.id) } } }

@[simp] theorem blank_fill (graph : Graph) (values : String → Artifact) :
    (graph.fill values).blank = graph.blank := by
  simp [blank, fill, Function.comp_def, Node.fresh]

theorem node?_fill {graph : Graph} {values : String → Artifact} {id : String} {node : Node}
    (found : graph.node? id = some node) :
    (graph.fill values).node? id =
      some { node with data := { node.data with output := some (values id) } } := by
  have named := id_of_node? found
  unfold node? fill at *
  rw [List.find?_map]
  change Option.map _ (graph.nodes.find? fun node => node.id = id) = _
  rw [found, ← named]
  rfl

/-- Where graphs look the same, what means something in one of them means
something equal in the other. -/
theorem Means.transfer {left right : Graph} (sound : left.WellFormed) {id : String}
    {value : Artifact} (means : left.Means id value) (same : left.SameUpstream right id) :
    ∃ other, right.Means id other ∧ (value == other) = true := by
  induction means with
  | @compiled id filled node values result blank found inputs stored made ih =>
    have chosen : ∀ member, ∃ other, TransGen left.Feeds member id →
        right.Means member other ∧ (values member == other) = true := by
      intro member
      by_cases leads : TransGen left.Feeds member id
      · obtain ⟨other, meant, equal⟩ := ih member leads (same.upstream leads.to_reflTransGen)
        exact ⟨other, fun _ => ⟨meant, equal⟩⟩
      · exact ⟨result, fun again => (leads again).elim⟩
    choose others chosen using chosen
    have there : ∀ member, ReflTransGen left.Feeds member id →
        ∃ node, right.node? member = some node := by
      intro member reaches
      obtain ⟨_, other, _, moved, _⟩ := (same member reaches).params
      exact ⟨other, moved⟩
    have inputs' : filled.SameInputs (right.fill others) id := by
      refine sameInputs_of_holds sound same blank (blank_fill right others) fun member leads => ?_
      obtain ⟨source, known, output⟩ := stored member leads
      obtain ⟨source', known'⟩ := there member leads.to_reflTransGen
      refine ⟨⟨source, _, known, output, inputs member leads⟩, source, _, known,
        node?_fill known', ?_⟩
      rw [output]
      exact (chosen member leads).2
    obtain ⟨other, known⟩ := there id .refl
    have moved := @node?_fill right others id other known
    obtain ⟨result', made', equal⟩ := Node.compileAs_beq inputs' found moved made
    refine ⟨result', .of_holds (blank_fill right others) moved ?_ made', equal⟩
    intro member leads
    have leads' := same.symm.leads leads
    obtain ⟨source, known⟩ := there member leads'.to_reflTransGen
    exact ⟨_, others member, node?_fill known, rfl, (chosen member leads').1⟩

/-- Meanings are unique, up to the signs of zeros. -/
theorem Means.unique {left right : Graph} (sound : left.WellFormed) {id : String}
    {value other : Artifact} (means : left.Means id value) (same : left.SameUpstream right id)
    (means' : right.Means id other) : (value == other) = true := by
  induction means generalizing other with
  | @compiled id filled node values result blank found inputs stored made ih =>
    cases means' with
    | @compiled _ filled' node' values' _ blank' found' inputs' stored' made' =>
      have shown : filled.SameInputs filled' id := by
        refine sameInputs_of_holds sound same blank blank' fun member leads => ?_
        have leads' := same.leads leads
        obtain ⟨source, known, output⟩ := stored member leads
        obtain ⟨source', known', output'⟩ := stored' member leads'
        refine ⟨⟨source, _, known, output, inputs member leads⟩, source, source', known, known', ?_⟩
        rw [output, output']
        exact ih member leads (same.upstream leads.to_reflTransGen) (inputs' member leads')
      obtain ⟨result', again, equal⟩ := Node.compileAs_beq shown found found' made
      rw [made'] at again
      cases again
      exact equal

/-- A node that means something compiles wherever all that leads to it holds what
it means. -/
theorem Means.compiles {graph filled : Graph} (sound : graph.WellFormed) (finite : graph.Finite)
    (blank : filled.blank = graph.blank) {id : String} {value : Artifact}
    (means : graph.Means id value) {node : Node} (found : filled.node? id = some node)
    (holds : ∀ member, TransGen graph.Feeds member id → filled.Holds graph member) :
    ∃ result, node.compileAs node.kind filled = .ok result := by
  cases means with
  | @compiled _ first node' values _ blank' found' inputs stored made =>
    have known : graph.contains id = true := by
      obtain ⟨other, there, _⟩ := params_of_blank blank found
      exact contains_iff.mpr ⟨other, there⟩
    have same := SameUpstream.refl sound finite known
    have shown : first.SameInputs filled id := by
      refine sameInputs_of_holds sound same blank' blank fun member leads => ?_
      obtain ⟨source, known, output⟩ := stored member leads
      obtain ⟨source', value', known', output', means'⟩ := holds member leads
      refine ⟨⟨source, _, known, output, inputs member leads⟩, source, source', known, known', ?_⟩
      rw [output, output']
      exact (inputs member leads).unique sound (same.upstream leads.to_reflTransGen) means'
    obtain ⟨result, again, _⟩ := Node.compileAs_beq shown found' found made
    exact ⟨result, again⟩

end Graph

namespace Store

open RecipeGraph.Graph (Holds Ordered)

theorem holds_of_node? {store other : Store} {graph : Graph} {id : String}
    (same : other.node? id = store.node? id) (holds : store.Holds graph id) :
    other.Holds graph id := by
  obtain ⟨node, value, found, output, means⟩ := holds
  exact ⟨node, value, same.trans found, output, means⟩

theorem Stages.holds_after {store final : Store} {graph : Graph} {before later rest : List String}
    (stages : Stages Registry.standard store later final)
    (ordered : graph.Ordered (before ++ (later ++ rest))) (blank : store.blank = graph.blank)
    (already : ∀ id ∈ before, store.Holds graph id) :
    ∀ id ∈ before ++ later, final.Holds graph id := by
  induction stages generalizing before with
  | nil =>
    rw [List.append_nil]
    exact already
  | @cons store middle final first others stage _ ih =>
    have apart : first ∉ before := by
      intro again
      exact (List.nodup_append.mp ordered.once).2.2 first again first (by simp) rfl
    have here : middle.Holds graph first := by
      cases stage with
      | @settled node compiler artifact found served result =>
        cases served
        refine ⟨node.settled artifact, artifact, ?_, rfl, ?_⟩
        · rw [node?_settle, if_pos rfl, found]
          rfl
        · refine .of_holds blank found (fun member leads => ?_) result
          exact already member (ordered.ancestors_before rfl leads)
      | skipped _ unserved => cases unserved
    have step := @ih (before ++ [first]) (by simpa using ordered) (stage.blank.trans blank) ?_
    · simpa using step
    · intro id member
      rcases List.mem_append.mp member with old | new
      · have differs : id ≠ first := fun same => apart (same ▸ old)
        exact holds_of_node? (stage.others differs) (already id old)
      · rw [List.mem_singleton.mp new]
        exact here

/-- Nodes that a run passes in order hold what they mean. -/
theorem Stages.holds {store final : Store} {graph : Graph} {order rest : List String}
    (stages : Stages Registry.standard store order final)
    (ordered : graph.Ordered (order ++ rest)) (blank : store.blank = graph.blank) {id : String}
    (member : id ∈ order) : final.Holds graph id :=
  @holds_after store final graph [] order rest stages ordered blank (fun _ none => nomatch none) id
    member

/-- What a compile makes of a node: nothing, its meaning, or a failure, if it means
nothing. -/
inductive Recompiled (graph : Graph) (id : String) (old new : Node) : Prop
  | untouched (same : new = old) : Recompiled graph id old new
  | made (artifact : Artifact) (means : graph.Means id artifact)
      (data : new.data = { errors := [], output := some artifact, compiled := true }) :
      Recompiled graph id old new
  | refused (meaningless : ∀ artifact, ¬ graph.Means id artifact)
      (output : new.data.output = old.data.output) (compiled : new.data.compiled = false) :
      Recompiled graph id old new

theorem Stages.recompiled {store final : Store} {graph : Graph} {order rest : List String}
    (stages : Stages Registry.standard store order final)
    (ordered : graph.Ordered (order ++ rest)) (blank : store.blank = graph.blank)
    {id : String} {old new : Node} (there : store.node? id = some old)
    (found : final.node? id = some new) : Recompiled graph id old new := by
  by_cases member : id ∈ order
  · obtain ⟨node, artifact, here, data⟩ := stages.settled member
    obtain ⟨node', value, here', output, means⟩ := stages.holds ordered blank member
    cases here.symm.trans found
    cases here'.symm.trans found
    rw [data] at output
    cases output
    exact .made _ means data
  · have same := stages.others member
    rw [there, found] at same
    exact .untouched (Option.some.inj same)

/-- The compile of a node touches its ancestry only, where it fails nothing but
what means nothing. -/
theorem compile_recompiles {store : Store} (sound : store.WellFormed) (finite : store.Finite)
    (id : String) {member : String} {old new : Node} (there : store.node? member = some old)
    (found : (store.compile Registry.standard (store.ancestry id)).2.node? member = some new) :
    Recompiled store.toGraph member old new := by
  by_cases behind : BehindCycle (store.upstream id) id
  · obtain ⟨_, unsorted, _, _⟩ := Graph.topoSort_of_cyclic behind
    rw [(compile_of_unsorted Registry.standard unsorted).2, there] at found
    exact .untouched (Option.some.inj found).symm
  · obtain ⟨order, sorted, ordered, _, _⟩ := Graph.topoSort_of_acyclic behind
    rcases compile_of_sorted Registry.standard sound sorted with
      ⟨final, stages, _, same⟩ |
        ⟨before, next, rest, middle, error, final, split, stages, halt, _, same⟩
    · rw [same] at found
      rw [← List.append_nil order] at ordered
      exact stages.recompiled ordered rfl there found
    · rw [same] at found
      rw [split] at ordered
      cases halt with
      | missing => exact stages.recompiled ordered rfl there found
      | @failed node compiler fault here served result =>
        cases served
        rw [node?_reject] at found
        split at found
        · next this =>
          subst this
          have unpassed : member ∉ before := by
            intro again
            exact (List.nodup_append.mp ordered.once).2.2 member again member (by simp) rfl
          have standing : middle.node? member = some old := (stages.others unpassed).trans there
          rw [standing] at here
          cases here
          rw [standing] at found
          cases found
          refine .refused (fun artifact means => ?_) rfl rfl
          have holds : ∀ ancestor, TransGen store.Feeds ancestor member →
              middle.Holds store.toGraph ancestor := by
            intro ancestor leads
            exact stages.holds ordered rfl (ordered.ancestors_before rfl leads)
          obtain ⟨made, compiles⟩ := means.compiles sound finite stages.blank standing holds
          rw [result] at compiles
          cases compiles
        · exact stages.recompiled ordered rfl there found

end Store

end RecipeGraph
