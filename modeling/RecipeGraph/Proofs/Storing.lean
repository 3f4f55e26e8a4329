import RecipeGraph.Proofs.Counting
import RecipeGraph.Proofs.Numerals
import RecipeGraph.Proofs.Roundtrip

/-!
# What services store

All that a service stores has come to it in texts, and it writes no other fields than
these again. What texts bring, and what edits make of it, are nodes with fields and positions
that documents can hold.
-/

namespace RecipeGraph

open Form.Yields (required withDefault)
open Number (Numeral)

namespace Number

theorem takeWhole_fst_lt (ds : List Nat) {n : Nat} (small : n < limit) :
    (takeWhole ds n).1 < limit := by
  induction ds generalizing n with
  | nil => exact small
  | cons d rest ih =>
    unfold takeWhole
    split
    · next fits => exact ih fits
    · exact small

/-- A literal is read as no integer beyond 64 bits and as no infinite number. -/
theorem readsOnly_isProper : ReadsOnly Numeral.isProper := by
  intro literal n number
  cases n with
  | float x => exact Literal.isFinite_of_numeral? number
  | int i =>
    have small := @takeWhole_fst_lt literal.whole 0 (by decide)
    have size : limit = 2 ^ 64 := rfl
    have half : Nat.pow 2 63 = 2 ^ 63 := rfl
    unfold Literal.numeral? at number
    dsimp only at number
    simp only [Numeral.isProper, Bool.and_eq_true, decide_eq_true_eq]
    split at number
    · split at number
      · cases number
        omega
      · split at number
        · cases number
        · next nonzero =>
          simp only [Bool.or_eq_true, decide_eq_true_eq, not_or, Nat.not_lt] at nonzero
          cases number
          omega
    · obtain ⟨x, -, same⟩ := Option.map_eq_some_iff.mp number
      cases same

end Number

/-- Documents can hold the fields and the position. -/
structure Node.Documented (node : Node) : Prop where
  params : node.params.isWritable = true
  position : node.position.isCanonical = true
  numbers : node.position.all Numeral.isProper = true

/-- Positions hold the numbers of the text that they are read from. -/
theorem Node.yields_numbers :
    decode.Yields Numeral.isProper fun node => node.position.all Numeral.isProper = true :=
  (((required (.trivial _)).both ((required (.trivial _)).both
    ((withDefault Decoder.Yields.json rfl).both (withDefault (.trivial _) trivial)))).map
    fun _ known => known.2.2.1).read

theorem Graph.yields_numbers :
    decode.Yields Numeral.isProper fun graph =>
      ∀ node ∈ graph.nodes, node.position.all Numeral.isProper = true :=
  (((required Node.yields_numbers.list).both (required (.trivial _))).map
    fun _ known => known.1).read

theorem Node.documented_of_isWritable {node : Node} (fits : node.isWritable = true)
    (numbers : node.position.all Numeral.isProper = true) : node.Documented := by
  have parts := Bool.and_eq_true_iff.mp fits
  exact ⟨parts.1, (Bool.and_eq_true_iff.mp parts.2).1, numbers⟩

@[simp] theorem Node.documented_fresh {node : Node} : node.fresh.Documented ↔ node.Documented :=
  ⟨fun had => ⟨had.params, had.position, had.numbers⟩,
    fun had => ⟨had.params, had.position, had.numbers⟩⟩

/-- A patch gives values that documents can hold. -/
structure NodePatch.Documented (patch : NodePatch) : Prop where
  config : ∀ config ∈ patch.config, Json.finiteEntries config = true
  position : ∀ position ∈ patch.position, position.isCanonical = true
  numbers : ∀ position ∈ patch.position, position.all Numeral.isProper = true

theorem NodePatch.documented_of_ofText {text : String} {patch : NodePatch}
    (read : decode.ofText text = .ok patch) : patch.Documented := by
  have absent : ∀ holds : Json → Prop, ∀ position ∈ (none : Option Json), holds position :=
    fun _ _ member => nomatch member
  have position : decode.Yields Numeral.isFinite fun patch =>
      ∀ position ∈ patch.position, position.isCanonical = true :=
    (((withDefault (.trivial _) trivial).both
      (withDefault Decoder.yields_canonical.optional (absent _))).map fun _ known => known.2).read
  have numbers : decode.Yields Numeral.isProper fun patch =>
      ∀ position ∈ patch.position, position.all Numeral.isProper = true :=
    (((withDefault (.trivial _) trivial).both
      (withDefault Decoder.Yields.json.optional (absent _))).map fun _ known => known.2).read
  exact ⟨(NodePatch.yields_decode.ofText Number.readsOnly_isFinite read).1,
    position.ofText Number.readsOnly_isFinite read, numbers.ofText Number.readsOnly_isProper read⟩

theorem Node.documented_of_patched {node patched : Node} {patch : NodePatch}
    (had : node.Documented) (given : patch.Documented) (fits : node.patched patch = .ok patched) :
    patched.Documented := by
  have position := (Node.patched_ok fits).position
  refine ⟨?_, ?_, ?_⟩
  · rcases Node.params_patched fits with ⟨_, same⟩ | ⟨fields, config, merged⟩
    · rw [same]
      exact had.params
    · exact NodeParams.isWritable_of_merge (given.config fields config) merged
  · rw [position]
    cases placed : patch.position with
    | none => exact had.position
    | some moved => exact given.position moved placed
  · rw [position]
    cases placed : patch.position with
    | none => exact had.numbers
    | some moved => exact given.numbers moved placed

theorem NodeParams.isWritable_bind {params : NodeParams} (fits : params.isWritable = true)
    {handle : String} {literal : Option Float} (number : literal.all (·.isFinite) = true) :
    (params.bind handle literal).isWritable = true := by
  cases params with
  | multiply a b =>
    have finite := @isFinite_bind (.multiply a b) fits handle literal number
    revert finite
    simp only [bind]
    split
    · exact id
    · split <;> exact id
  | _ => exact fits

theorem Node.documented_lasting : Node.Lasting Node.Documented where
  uncompiled _ had := ⟨had.params, had.position, had.numbers⟩
  unbound _ _ had := ⟨NodeParams.isWritable_bind had.params rfl, had.position, had.numbers⟩
  bound _ _ _ had given :=
    ⟨NodeParams.isWritable_bind had.params
      (NodeParams.isFinite_literal (NodeParams.isFinite_of_isWritable given.params)),
      had.position, had.numbers⟩

namespace Session

theorem Operation.ReadFrom.brings_documented {text : String} {operation : Operation}
    (read : operation.ReadFrom text) : operation.Brings Node.Documented := by
  have finite := Number.readsOnly_isFinite
  have proper := Number.readsOnly_isProper
  cases operation with
  | load graph =>
    intro node member
    have writable := Graph.yields_decode.ofText finite read
    have numbers := Graph.yields_numbers.ofText proper read
    exact Node.documented_fresh.mpr (Node.documented_of_isWritable
      (List.all_eq_true.mp writable node member) (numbers node member))
  | addNode node =>
    exact Node.documented_fresh.mpr (Node.documented_of_isWritable
      (Node.yields_decode.ofText finite read) (Node.yields_numbers.ofText proper read))
  | updateNode id patch =>
    have given := NodePatch.documented_of_ofText read
    exact fun node patched had fits => Node.documented_of_patched had given fits
  | _ => trivial

theorem documented_starterGraph : ∀ node ∈ starterGraph.nodes, node.Documented := by
  have writable : starterGraph.isWritable = true := by decide +kernel
  have numbers : starterGraph.nodes.all (fun node => node.position.all Numeral.isProper) = true := by
    decide +kernel
  exact fun node member => Node.documented_of_isWritable (List.all_eq_true.mp writable node member)
    (List.all_eq_true.mp numbers node member)

end Session

end RecipeGraph
