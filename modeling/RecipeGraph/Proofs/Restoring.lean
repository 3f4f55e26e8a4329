import RecipeGraph.Graph.Wire
import RecipeGraph.Proofs.Reordering

/-!
# Reading back what was written

A reader takes the entries of an object as they come, so what it makes of a written
value has to be the same for every order of them. This is shown once for each way of
reading. A record is restored field by field: entries that a field does not know are
passed over, so fields that share no name do not meet.
-/

namespace RecipeGraph

namespace Decoder

@[simp] theorem lookup_plainCases (cases : List (String × α)) (name : String) :
    (plainCases cases).lookup name = (cases.lookup name).map .plain := by
  induction cases with
  | nil => rfl
  | cons entry rest ih =>
    rw [plainCases] at ih ⊢
    rw [List.map_cons, List.lookup_cons, List.lookup_cons, ih]
    split <;> rfl

section Named

variable {cases : List (String × α)} {name : String}

@[simp] theorem named_plainCases {case : Case α} :
    named (plainCases cases) name = .ok case ↔
      ∃ found, cases.lookup name = some found ∧ Case.plain found = case := by
  rw [named, lookup_plainCases]
  cases cases.lookup name <;> simp

/-- A choice between names takes the text for the case of that name. -/
@[simp] theorem oneOf_plainCases {reading : Reading} {content : α} :
    oneOf (plainCases cases) reading (.str name) = .ok content ↔
      cases.lookup name = some content := by
  simp only [oneOf, Outcome.bind_eq_ok, named_plainCases]
  constructor
  · rintro ⟨_, ⟨found, known, rfl⟩, read⟩
    cases read
    exact known
  · exact fun known => ⟨_, ⟨content, known, rfl⟩, rfl⟩

end Named

/-- What is read from the written value is the content, in whatever order the entries of
objects stand. -/
def Restores (decode : Decoder α) (written : Json) (content : α) : Prop :=
  ∀ reading sent, written.Reorders sent → decode reading sent.draft = .ok content

namespace Restores

variable {decode : Decoder α} {written : Json} {content : α}

theorem json (value : Json) (canonical : value.isCanonical = true) :
    Decoder.json.Restores value value := by
  intro reading sent reorders
  rw [Decoder.json, Json.value?_of_reorders value canonical sent reorders]

theorem text (s : String) : Decoder.text.Restores (.str s) s := by
  intro reading sent reorders
  cases reorders
  rfl

theorem bool (b : Bool) : Decoder.bool.Restores (.bool b) b := by
  intro reading sent reorders
  cases reorders
  rfl

theorem float {x : Float} (finite : x.isFinite = true) :
    Decoder.float.Restores (Json.float x) x := by
  intro reading sent reorders
  rw [Json.float, if_pos finite] at reorders
  cases reorders
  rfl

theorem size {n : Nat} (small : n < Number.limit) : Decoder.size.Restores (Json.size n) n := by
  intro reading sent reorders
  cases reorders
  simp [Json.draft, Decoder.size, small]

theorem optional {encode : α → Json} {a : Option α}
    (inner : ∀ b ∈ a, decode.Restores (encode b) b ∧ encode b ≠ .null) :
    (Decoder.optional decode).Restores (Json.optional encode a) a := by
  intro reading sent reorders
  cases a with
  | none =>
    cases reorders
    rfl
  | some b =>
    obtain ⟨restores, given⟩ := inner b rfl
    have read := restores reading sent reorders
    change (encode b).Reorders sent at reorders
    cases sent with
    | null =>
      revert reorders
      generalize encode b = written at given
      intro reorders
      cases reorders
      exact (given rfl).elim
    | _ => exact Outcome.map_eq_ok.mpr ⟨b, read, rfl⟩

theorem list {encode : α → Json} {as : List α} (inner : ∀ a ∈ as, decode.Restores (encode a) a) :
    (Decoder.list decode).Restores (Json.list encode as) as := by
  intro reading sent reorders
  cases reorders with
  | @arr _ others each =>
    change items decode reading (Json.draftItems others) = .ok as
    induction as generalizing others with
    | nil =>
      cases each
      rfl
    | cons a rest ih =>
      cases each with
      | cons first later =>
        have here := inner a List.mem_cons_self reading _ first
        have behind := ih (fun b member => inner b (List.mem_cons_of_mem _ member)) later
        rw [Json.draftItems, items, here, behind]
        rfl

/-- A bare case of a choice is written as its name. -/
theorem plainCases {cases : List (String × α)} {name : String}
    (named : cases.lookup name = some content) :
    (oneOf (Decoder.plainCases cases)).Restores (.str name) content := by
  intro reading sent reorders
  cases reorders
  exact oneOf_plainCases.mpr named

/-- A case with a value of its own is written as an object with its name as the only key. -/
theorem carrying {cases : List (String × Case α)} {name : String} {value : Json}
    (named : cases.lookup name = some (.carrying decode)) (inner : decode.Restores value content) :
    (oneOf cases).Restores (.obj [(name, value)]) content := by
  intro reading sent reorders
  cases reorders with
  | obj shuffled each =>
    rw [List.singleton_perm] at shuffled
    subst shuffled
    cases each with
    | cons first later =>
      cases later
      have read := inner reading _ first
      cases reading <;>
        simp [Json.draft, Json.draftEntries, oneOf, Decoder.named, named, payload, read, bind,
          Except.bind, pure, Except.pure]

end Restores

end Decoder

namespace Form

/-- Entries under keys of their own are read as the content, in whatever order they stand.
Those under other keys than the known ones are passed over. -/
structure Restores (f : Form α) (known : List String) (written : List (String × Json))
    (content : α) : Prop where
  passes : ∀ reading key draft state, key ∉ known → f.take reading key draft state = none
  reads : (written.map (·.1)).Nodup → ∀ reading middle sent, written.Perm middle →
    Json.ReordersEntries middle sent →
      f.readEntries reading (Json.draftEntries sent) = .ok content

theorem step_of_unknown {f : Form α} {known : List String}
    (passes : ∀ reading key draft state, key ∉ known → f.take reading key draft state = none)
    {reading : Reading} {key : String} (apart : key ∉ known) (value : Json) (state : f.State) :
    f.step reading state (some key, value.draft) = .ok state := by
  rw [step, passes _ _ _ _ apart]
  simp only [Json.skip_draft]
  rfl

theorem foldlM_of_unknown {f : Form α} {known : List String}
    (passes : ∀ reading key draft state, key ∉ known → f.take reading key draft state = none)
    {reading : Reading} {sent : List (String × Json)} (apart : ∀ entry ∈ sent, entry.1 ∉ known)
    (state : f.State) :
    (Json.draftEntries sent).foldlM (f.step reading) state = .ok state := by
  induction sent with
  | nil => rfl
  | cons entry rest ih =>
    rw [Json.draftEntries, List.foldlM_cons,
      step_of_unknown passes (apart entry List.mem_cons_self)]
    exact ih fun other member => apart other (List.mem_cons_of_mem _ member)

/-- One known entry among unknown ones is all that counts. -/
theorem foldlM_of_split {f : Form α} {known : List String}
    (passes : ∀ reading key draft state, key ∉ known → f.take reading key draft state = none)
    {reading : Reading} {before behind : List (String × Json)} {key : String} {value : Json}
    (apart : ∀ entry ∈ before ++ behind, entry.1 ∉ known) (state : f.State) :
    (Json.draftEntries (before ++ (key, value) :: behind)).foldlM (f.step reading) state =
      f.step reading state (some key, value.draft) := by
  rw [Json.draftEntries_append, List.foldlM_append,
    foldlM_of_unknown passes fun entry member => apart entry (List.mem_append_left _ member)]
  change List.foldlM (f.step reading) state ((some key, value.draft) :: _) = _
  rw [List.foldlM_cons]
  cases f.step reading state (some key, value.draft) with
  | error fault => rfl
  | ok next =>
    exact foldlM_of_unknown passes
      (fun entry member => apart entry (List.mem_append_right _ member)) next

@[simp] theorem step_map (f : Form α) (h : α → β) (reading : Reading) :
    (f.map h).step reading = f.step reading := by
  funext (state : f.State) entry
  obtain ⟨key, draft⟩ := entry
  cases key with
  | none => rfl
  | some key =>
    cases taken : f.take reading key draft state with
    | none | some _ =>
      have taken' : (f.map h).take reading key draft state = _ := taken
      simp only [step, taken, taken']
      rfl

@[simp] theorem readEntries_map (f : Form α) (h : α → β) (reading : Reading)
    (entries : List (Option String × Draft)) :
    (f.map h).readEntries reading entries = (f.readEntries reading entries).map h := by
  unfold readEntries
  rw [step_map]
  change (entries.foldlM (f.step reading) f.start >>= fun state => (f.finish state).map h) = _
  cases entries.foldlM (f.step reading) f.start <;> rfl

section Both

variable {f : Form α} {g : Form β} {known known' : List String} {reading : Reading}

theorem both_passes
    (passes : ∀ reading key draft state, key ∉ known → f.take reading key draft state = none)
    (passes' : ∀ reading key draft state, key ∉ known' → g.take reading key draft state = none) :
    ∀ reading key draft state, key ∉ known ++ known' →
      (f.both g).take reading key draft state = none := by
  intro reading key draft state away
  rw [List.mem_append, not_or] at away
  simp only [both, passes reading key draft state.1 away.1,
    passes' reading key draft state.2 away.2, Option.map_none]

/-- An entry counts for one of two forms that know no key in common. -/
theorem step_both (apart : ∀ key ∈ known, key ∉ known')
    (passes : ∀ reading key draft state, key ∉ known → f.take reading key draft state = none)
    (passes' : ∀ reading key draft state, key ∉ known' → g.take reading key draft state = none)
    (reading : Reading) (key : String) (value : Json) (state : f.State) (state' : g.State) :
    (f.both g).step reading (state, state') (some key, value.draft) =
      (f.step reading state (some key, value.draft) >>= fun next =>
        (g.step reading state' (some key, value.draft)).map (next, ·)) := by
  by_cases mine : key ∈ known
  · rw [step_of_unknown passes' (apart key mine)]
    have unknown := passes' reading key value.draft state' (apart key mine)
    simp only [step, both, unknown, Json.skip_draft]
    cases f.take reading key value.draft state with
    | none => rfl
    | some taken => cases taken <;> rfl
  · rw [step_of_unknown passes mine]
    have unknown := passes reading key value.draft state mine
    simp only [step, both, unknown, Json.skip_draft]
    cases g.take reading key value.draft state' with
    | none => rfl
    | some taken => cases taken <;> rfl

/-- Forms that know no key in common read the same entries side by side. -/
theorem foldlM_both_iff (apart : ∀ key ∈ known, key ∉ known')
    (passes : ∀ reading key draft state, key ∉ known → f.take reading key draft state = none)
    (passes' : ∀ reading key draft state, key ∉ known' → g.take reading key draft state = none)
    {entries : List (String × Json)} {state last : f.State} {state' last' : g.State} :
    (Json.draftEntries entries).foldlM ((f.both g).step reading) (state, state') =
        .ok (last, last') ↔
      (Json.draftEntries entries).foldlM (f.step reading) state = .ok last ∧
        (Json.draftEntries entries).foldlM (g.step reading) state' = .ok last' := by
  induction entries generalizing state state' with
  | nil =>
    constructor
    · intro same
      cases same
      exact ⟨rfl, rfl⟩
    · rintro ⟨same, same'⟩
      cases same
      cases same'
      rfl
  | cons entry rest ih =>
    have step := step_both apart passes passes' reading entry.1 entry.2 state state'
    constructor
    · intro gone
      obtain ⟨next, stepped, later⟩ := Outcome.bind_eq_ok.mp gone
      rw [step] at stepped
      obtain ⟨first, here, mapped⟩ := Outcome.bind_eq_ok.mp stepped
      obtain ⟨second, here', rfl⟩ := Outcome.map_eq_ok.mp mapped
      obtain ⟨left, right⟩ := ih.mp later
      exact ⟨Outcome.bind_eq_ok.mpr ⟨first, here, left⟩,
        Outcome.bind_eq_ok.mpr ⟨second, here', right⟩⟩
    · rintro ⟨gone, gone'⟩
      obtain ⟨first, here, left⟩ := Outcome.bind_eq_ok.mp gone
      obtain ⟨second, here', right⟩ := Outcome.bind_eq_ok.mp gone'
      refine Outcome.bind_eq_ok.mpr ⟨(first, second), step.trans ?_, ih.mpr ⟨left, right⟩⟩
      exact Outcome.bind_eq_ok.mpr ⟨first, here, Outcome.map_eq_ok.mpr ⟨second, here', rfl⟩⟩

theorem readEntries_both_iff (apart : ∀ key ∈ known, key ∉ known')
    (passes : ∀ reading key draft state, key ∉ known → f.take reading key draft state = none)
    (passes' : ∀ reading key draft state, key ∉ known' → g.take reading key draft state = none)
    {entries : List (String × Json)} {content : α} {content' : β} :
    (f.both g).readEntries reading (Json.draftEntries entries) = .ok (content, content') ↔
      f.readEntries reading (Json.draftEntries entries) = .ok content ∧
        g.readEntries reading (Json.draftEntries entries) = .ok content' := by
  simp only [readEntries, Outcome.bind_eq_ok]
  constructor
  · rintro ⟨⟨last, last'⟩, gone, finished⟩
    obtain ⟨first, second⟩ := (foldlM_both_iff apart passes passes').mp gone
    obtain ⟨_, here, further⟩ := Outcome.bind_eq_ok.mp finished
    obtain ⟨_, here', same⟩ := Outcome.bind_eq_ok.mp further
    cases same
    exact ⟨⟨last, first, here⟩, last', second, here'⟩
  · rintro ⟨⟨last, first, here⟩, last', second, here'⟩
    refine ⟨(last, last'), (foldlM_both_iff apart passes passes').mpr ⟨first, second⟩, ?_⟩
    simp only [both, here, here']
    rfl

end Both

namespace Restores

variable {decode : Decoder α} {written : List (String × Json)} {content : α} {key : String}
  {value : Json}

theorem field {others : List String} {absent : Absent α} (listed : (key, value) ∈ written)
    (alone : ∀ other ∈ others, other ∉ written.map (·.1))
    (inner : decode.Restores value content) :
    (field key others absent decode).Restores (key :: others) written content := by
  have passes : ∀ reading name draft state, name ∉ key :: others →
      (Form.field key others absent decode).take reading name draft state = none := by
    intro reading name draft state apart
    rw [List.mem_cons, not_or] at apart
    simp [Form.field, apart.1, apart.2]
  refine ⟨passes, fun once reading middle sent shuffled each => ?_⟩
  obtain ⟨front, back, rfl⟩ := List.append_of_mem listed
  obtain ⟨before, found, behind, middle', rfl, reorders, shuffled', each'⟩ :=
    Json.ReordersEntries.exists_split (List.perm_middle.symm.trans shuffled) each
  have apart : ∀ entry ∈ before ++ behind, entry.1 ∉ key :: others := by
    intro entry member same
    have known : entry.1 ∈ (front ++ back).map (·.1) := by
      rw [(shuffled'.map _).mem_iff, ← each'.keys]
      exact List.mem_map_of_mem member
    rw [List.map_append, List.map_cons] at once alone
    rcases List.mem_cons.mp same with same | other
    · have unique := (List.nodup_cons.mp (List.perm_middle.nodup_iff.mp once)).1
      rw [same, List.map_append] at known
      exact unique known
    · refine alone _ other (List.mem_append.mpr ?_)
      rw [List.map_append] at known
      exact (List.mem_append.mp known).imp_right (List.mem_cons_of_mem _)
  have taken : (Form.field key others absent decode).step reading
      (Form.field key others absent decode).start (some key, found.draft) = .ok (some content) := by
    simp only [Form.step, Form.field, decide_true, Bool.true_or, if_true,
      inner reading found reorders]
    rfl
  exact Outcome.bind_eq_ok.mpr ⟨_, (foldlM_of_split passes apart _).trans taken, rfl⟩

theorem required (listed : (key, value) ∈ written) (inner : decode.Restores value content) :
    (required key decode).Restores [key] written content :=
  field listed (fun _ member => nomatch member) inner

theorem withDefault {standard : α} (listed : (key, value) ∈ written)
    (inner : decode.Restores value content) :
    (withDefault key standard decode).Restores [key] written content :=
  field listed (fun _ member => nomatch member) inner

variable {f : Form α} {known : List String}

theorem map (restores : f.Restores known written content) (h : α → β) :
    (f.map h).Restores known written (h content) := by
  refine ⟨restores.passes, fun once reading middle sent shuffled each => ?_⟩
  rw [readEntries_map, restores.reads once reading middle sent shuffled each]
  rfl

theorem both {g : Form β} {known' : List String} {content' : β}
    (first : f.Restores known written content) (second : g.Restores known' written content')
    (apart : ∀ key ∈ known, key ∉ known') :
    (f.both g).Restores (known ++ known') written (content, content') := by
  refine ⟨both_passes first.passes second.passes, fun once reading middle sent shuffled each => ?_⟩
  exact (readEntries_both_iff apart first.passes second.passes).mpr
    ⟨first.reads once reading middle sent shuffled each,
      second.reads once reading middle sent shuffled each⟩

theorem readObject (restores : f.Restores known written content)
    (once : (written.map (·.1)).Nodup) :
    f.readObject.Restores (.obj written) content := by
  intro reading sent reorders
  cases reorders with
  | obj shuffled each => exact restores.reads once reading _ _ shuffled each

theorem read (restores : f.Restores known written content)
    (once : (written.map (·.1)).Nodup) :
    f.read.Restores (.obj written) content := by
  intro reading sent reorders
  cases reorders with
  | obj shuffled each => exact restores.reads once reading _ _ shuffled each

end Restores

end Form

namespace Decoder

variable {decode : Decoder α} {content : α}

section Beside

variable {tagKey contentKey name : String} {cases : List (String × Decoder α)}

theorem foldlM_tag_first (apart : contentKey ≠ tagKey) (named : cases.lookup name = some decode)
    (reading : Reading) {draft : Draft} (read : decode reading draft = .ok content) :
    [(some tagKey, Draft.str name), (some contentKey, draft)].foldlM
      (besideStep tagKey contentKey cases reading) .nothing = .ok (.whole content) := by
  have tagged : besideStep tagKey contentKey cases reading .nothing (some tagKey, .str name) =
      .ok (.tagged decode) := by
    simp only [besideStep, if_true, oneOf_plainCases.mpr named]
    rfl
  have filled : besideStep tagKey contentKey cases reading (.tagged decode)
      (some contentKey, draft) = .ok (.whole content) := by
    simp only [besideStep, if_neg apart, if_true, read]
    rfl
  exact Outcome.bind_eq_ok.mpr ⟨_, tagged, Outcome.bind_eq_ok.mpr ⟨_, filled, rfl⟩⟩

theorem foldlM_content_first (apart : contentKey ≠ tagKey)
    (named : cases.lookup name = some decode) (reading : Reading) {value : Json}
    (read : decode .kept value.draft = .ok content) :
    [(some contentKey, value.draft), (some tagKey, Draft.str name)].foldlM
      (besideStep tagKey contentKey cases reading) .nothing = .ok (.whole content) := by
  have kept : besideStep tagKey contentKey cases reading .nothing
      (some contentKey, value.draft) = .ok (.content value.draft) := by
    simp only [besideStep, if_neg apart, if_true, Json.keep_draft]
    rfl
  have filled : besideStep tagKey contentKey cases reading (.content value.draft)
      (some tagKey, .str name) = .ok (.whole content) := by
    simp only [besideStep, if_true, oneOf_plainCases.mpr named]
    change (decode .kept value.draft).map Progress.whole = _
    rw [read]
    rfl
  exact Outcome.bind_eq_ok.mpr ⟨_, kept, Outcome.bind_eq_ok.mpr ⟨_, filled, rfl⟩⟩

/-- A choice with the tag beside its content is read in both orders of the two. -/
theorem Restores.tagBeside {value : Json} (apart : contentKey ≠ tagKey)
    (named : cases.lookup name = some decode) (inner : decode.Restores value content)
    {written : List (String × Json)}
    (same : written.Perm [(tagKey, .str name), (contentKey, value)]) :
    (tagBeside tagKey contentKey cases).Restores (.obj written) content := by
  intro reading sent reorders
  cases reorders with
  | obj shuffled each =>
    obtain ⟨before, tag, behind, rest, rfl, reorders, others, each⟩ :=
      Json.ReordersEntries.exists_split (same.symm.trans shuffled) each
    cases reorders
    rw [List.singleton_perm] at others
    subst others
    generalize parts : before ++ behind = beside at each
    cases each with
    | cons first later =>
      cases later
      rcases List.append_eq_singleton_iff.mp parts with ⟨rfl, rfl⟩ | ⟨rfl, rfl⟩
      · have read := inner reading _ first
        exact Outcome.bind_eq_ok.mpr ⟨_, foldlM_tag_first apart named reading read, rfl⟩
      · have read := inner .kept _ first
        exact Outcome.bind_eq_ok.mpr ⟨_, foldlM_content_first apart named reading read, rfl⟩

end Beside

section Inside

variable {tagKey name : String} {cases : List (String × Decoder α)}

theorem foldlM_insideStep_others (reading : Reading) {entries : List (String × Json)}
    (apart : ∀ entry ∈ entries, entry.1 ≠ tagKey) (found : Option (Decoder α))
    (held : List (Option String × Draft)) :
    (Json.draftEntries entries).foldlM (insideStep tagKey cases reading) (found, held) =
      .ok (found, held ++ Json.draftEntries entries) := by
  induction entries generalizing held with
  | nil => simp [Json.draftEntries, pure, Except.pure]
  | cons entry rest ih =>
    have kept : insideStep tagKey cases reading (found, held) (some entry.1, entry.2.draft) =
        .ok (found, held ++ [(some entry.1, entry.2.draft)]) := by
      simp only [insideStep, if_neg (apart entry List.mem_cons_self), Json.keep_draft]
      rfl
    refine Outcome.bind_eq_ok.mpr ⟨_, kept, ?_⟩
    rw [ih (fun other member => apart other (List.mem_cons_of_mem _ member)), List.append_assoc]
    rfl

/-- A choice whose tag stands among the fields is read with the tag anywhere among them. -/
theorem Restores.tagInside {fields : List (String × Json)}
    (apart : ∀ entry ∈ fields, entry.1 ≠ tagKey) (named : cases.lookup name = some decode)
    (inner : decode.Restores (.obj fields) content) {written : List (String × Json)}
    (same : written.Perm ((tagKey, .str name) :: fields)) :
    (tagInside tagKey cases).Restores (.obj written) content := by
  intro reading sent reorders
  cases reorders with
  | obj shuffled each =>
    obtain ⟨before, tagged, behind, rest, rfl, reorders, others, each'⟩ :=
      Json.ReordersEntries.exists_split (same.symm.trans shuffled) each
    cases reorders
    have away : ∀ entry ∈ before ++ behind, entry.1 ≠ tagKey := by
      intro entry member here
      have known : entry.1 ∈ fields.map (·.1) := by
        rw [(others.map _).mem_iff, ← each'.keys]
        exact List.mem_map_of_mem member
      obtain ⟨other, listed, key⟩ := List.mem_map.mp known
      exact apart other listed (key.trans here)
    have split : (Json.draftEntries (before ++ (tagKey, .str name) :: behind)).foldlM
        (insideStep tagKey cases reading) (none, []) =
        .ok (some decode, Json.draftEntries (before ++ behind)) := by
      have chosen : insideStep tagKey cases reading (none, Json.draftEntries before)
          (some tagKey, .str name) = .ok (some decode, Json.draftEntries before) := by
        simp only [insideStep, if_true, tag, Decoder.named, named]
        rfl
      rw [Json.draftEntries_append, List.foldlM_append]
      refine Outcome.bind_eq_ok.mpr ⟨_, foldlM_insideStep_others reading
        (fun entry member => away entry (List.mem_append_left _ member)) none [], ?_⟩
      refine Outcome.bind_eq_ok.mpr ⟨_, chosen, ?_⟩
      rw [foldlM_insideStep_others reading
        fun entry member => away entry (List.mem_append_right _ member), Json.draftEntries_append]
    have read := inner .kept _ (.obj others each')
    exact Outcome.bind_eq_ok.mpr ⟨_, split, read⟩

end Inside

theorem Restores.noFields (content : α) (written : List (String × Json)) :
    (noFields content).Restores (.obj written) content := by
  intro reading sent reorders
  cases reorders
  rfl

end Decoder

end RecipeGraph
