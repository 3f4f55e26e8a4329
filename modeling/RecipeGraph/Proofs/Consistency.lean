import RecipeGraph.Proofs.Sessions

/-!
# What stands on a node goes together

A node that is marked as compiled holds a result, and no error stands twice on a node.
Errors stand on a compiled node only if it is one to train, since training is all that
leaves errors without taking the mark away. Which compilers there are makes no difference.
-/

namespace RecipeGraph

/-- A patch that leaves alone what compiling and training have left. -/
def NodePatch.Plain (patch : NodePatch) : Prop :=
  patch.errors = none ∧ patch.output = none ∧ patch.compiled = none

instance (patch : NodePatch) : Decidable patch.Plain :=
  inferInstanceAs (Decidable (_ ∧ _ ∧ _))

/-- The three things that are left on a node fit together. -/
structure Node.Consistent (node : Node) : Prop where
  held : node.data.compiled = true → node.data.output.isSome = true
  once : node.data.errors.Nodup
  clear : node.data.compiled = true → node.kind ≠ .trainModel → node.data.errors = []

namespace Node

@[simp] theorem consistent_fresh (node : Node) : node.fresh.Consistent :=
  ⟨nofun, List.nodup_nil, nofun⟩

namespace Consistent

variable {node : Node}

theorem uncompiled (consistent : node.Consistent) : node.uncompiled.Consistent :=
  ⟨nofun, consistent.once, nofun⟩

theorem bind (consistent : node.Consistent) (handle : String) (literal : Option Float) :
    (node.bind handle literal).Consistent where
  held := consistent.held
  once := consistent.once
  clear compiled other := by
    apply consistent.clear compiled
    rwa [Node.kind, Node.bind, Store.kind_bind] at other

theorem patched (consistent : node.Consistent) {patch : NodePatch} (plain : patch.Plain)
    {patched : Node} (fits : node.patched patch = .ok patched) : patched.Consistent := by
  have shape := Node.patched_ok fits
  obtain ⟨no_errors, no_output, no_mark⟩ := plain
  have errors : patched.data.errors = node.data.errors := by rw [shape.errors, no_errors]; rfl
  have output : patched.data.output = node.data.output := by rw [shape.output, no_output]; rfl
  have mark : patched.data.compiled = node.data.compiled := by rw [shape.compiled, no_mark]; rfl
  refine ⟨?_, ?_, ?_⟩
  · rw [mark, output]
    exact consistent.held
  · rw [errors]
    exact consistent.once
  · rw [mark, errors, Store.kind_patched fits]
    exact consistent.clear

/-- What training records goes onto a node to train. -/
theorem addError (consistent : node.Consistent) (trainable : node.kind = .trainModel)
    (message : String) : (node.addError message false).Consistent where
  held := consistent.held
  once := by
    change (if node.data.errors.contains message then _ else _ : List String).Nodup
    split
    · exact consistent.once
    · next new =>
      refine List.nodup_append.mpr ⟨consistent.once, List.nodup_singleton _, ?_⟩
      rintro old listed _ last rfl
      rw [List.mem_singleton.mp last] at listed
      exact new (List.contains_iff_mem.mpr listed)
  clear _ other := (other trainable).elim

end Consistent

theorem consistent_lasting : Node.Lasting Node.Consistent where
  uncompiled _ consistent := consistent.uncompiled
  unbound _ handle consistent := consistent.bind handle none
  bound _ handle source consistent _ := consistent.bind handle source.params.literal

theorem consistent_uphold (compilers : Compilers) : compilers.Uphold Node.Consistent where
  settled _ _ _ _ := ⟨fun _ => rfl, List.nodup_nil, fun _ _ => rfl⟩
  failed _ _ _ := ⟨nofun, List.nodup_singleton _, nofun⟩

end Node

namespace Session

/-- Patches leave alone what compiling and training have left. -/
def Operation.Plain : Operation → Prop
  | .updateNode _ patch => patch.Plain
  | _ => True

instance : (operation : Operation) → Decidable operation.Plain
  | .updateNode _ patch => inferInstanceAs (Decidable patch.Plain)
  | .load _ | .addNode _ | .removeNode _ | .addEdge _ | .removeEdge _ | .compile _ | .train _ _ =>
    isTrue trivial

theorem Operation.Plain.brings {operation : Operation} (plain : operation.Plain) :
    operation.Brings Node.Consistent := by
  cases operation with
  | load graph => exact fun node _ => node.consistent_fresh
  | addNode node => exact node.consistent_fresh
  | updateNode id patch => exact fun node patched had fits => had.patched plain fits
  | _ => trivial

/-- Every node of the session is consistent. -/
def Consistent (session : Session) : Prop :=
  session.store.Every Node.Consistent

theorem Reached.consistent {registry : Registry} {session : Session}
    (reached : Reached registry Operation.Plain session) : session.Consistent := by
  refine reached.keeps (fun _ member => nomatch member) trivial fun earlier plain consistent => ?_
  exact every_apply Node.consistent_lasting (Node.consistent_uphold registry)
    (fun _ message trainable had => had.addError trainable message) earlier.wellFormed consistent
    plain.brings

/-- Whatever compilers there are, and whatever has been asked of the session, its nodes are
consistent. -/
theorem consistent_of_reached {registry : Registry} {session : Session}
    (reached : Reached registry Operation.Plain session) : session.Consistent :=
  reached.consistent

/-- A training node is compiled with nothing to train, and trained in vain twice. -/
def untrained : List Operation :=
  [.load { nodes := [{ id := "t", params := .trainModel 1 2 }], edges := [] },
    .compile "t", .train "t" true, .train "t" false]

/-- The node is compiled all the same, and the error stands on it once. -/
theorem consistent_untrained :
    (∀ operation ∈ untrained, operation.Plain) ∧
      (Session.empty.run Registry.standard untrained).Consistent ∧
      ((Session.empty.run Registry.standard untrained).store.node? "t").map
          (fun node => (node.data.compiled, node.data.errors)) =
        some (true, [TrainingFault.missingInputs.message]) := by
  have plain : ∀ operation ∈ untrained, operation.Plain := by decide +kernel
  exact ⟨plain, consistent_of_reached (Reached.empty.run plain), by decide +kernel⟩

end Session

end RecipeGraph
