import RecipeGraph.Proofs.Merging

/-!
# What is read from drafts

A draft holds numbers of some sort only, such as finite ones. Then something holds of
whatever is read from it. This is shown once for each way of reading.
-/

namespace RecipeGraph

namespace Json

mutual

/-- Whether the value holds no other numbers than these. -/
def all (allows : Number.Numeral → Bool) : Json → Bool
  | .num n => allows n
  | .arr items => allItems allows items
  | .obj entries => allEntries allows entries
  | _ => true

def allItems (allows : Number.Numeral → Bool) : List Json → Bool
  | [] => true
  | item :: rest => item.all allows && allItems allows rest

def allEntries (allows : Number.Numeral → Bool) : List (String × Json) → Bool
  | [] => true
  | (_, value) :: rest => value.all allows && allEntries allows rest

end

variable {allows : Number.Numeral → Bool}

theorem allEntries_insert {key : String} {value : Json} {entries : List (String × Json)}
    (allowed : value.all allows = true) (others : allEntries allows entries = true) :
    allEntries allows (insert key value entries) = true := by
  induction entries with
  | nil => exact Bool.and_eq_true_iff.mpr ⟨allowed, rfl⟩
  | cons entry rest ih =>
    have parts := Bool.and_eq_true_iff.mp others
    unfold insert
    split
    · exact Bool.and_eq_true_iff.mpr ⟨allowed, parts.2⟩
    · split
      · exact Bool.and_eq_true_iff.mpr ⟨allowed, others⟩
      · exact Bool.and_eq_true_iff.mpr ⟨parts.1, ih parts.2⟩

end Json

namespace Draft

mutual

/-- Whether the draft holds no other numbers than these. -/
def all (allows : Number.Numeral → Bool) : Draft → Bool
  | .num n => allows n
  | .arr items => allItems allows items
  | .obj entries => allEntries allows entries
  | _ => true

def allItems (allows : Number.Numeral → Bool) : List Draft → Bool
  | [] => true
  | item :: rest => item.all allows && allItems allows rest

def allEntries (allows : Number.Numeral → Bool) : List (Option String × Draft) → Bool
  | [] => true
  | (_, value) :: rest => value.all allows && allEntries allows rest

end

variable {allows : Number.Numeral → Bool}

theorem allEntries_append {entries : List (Option String × Draft)} {key : Option String}
    {draft : Draft} (before : allEntries allows entries = true)
    (allowed : draft.all allows = true) :
    allEntries allows (entries ++ [(key, draft)]) = true := by
  induction entries with
  | nil => exact Bool.and_eq_true_iff.mpr ⟨allowed, rfl⟩
  | cons entry rest ih =>
    have parts := Bool.and_eq_true_iff.mp before
    exact Bool.and_eq_true_iff.mpr ⟨parts.1, ih parts.2⟩

/-- What the step of each allowed entry keeps, a pass over all of them keeps. -/
theorem foldlM_keeps {σ : Type} {step : σ → Option String × Draft → Except Fault σ}
    {keeps : σ → Prop} (each : ∀ entry state next, entry.2.all allows = true → keeps state →
      step state entry = .ok next → keeps next)
    {entries : List (Option String × Draft)} {first last : σ}
    (allowed : allEntries allows entries = true) (begins : keeps first)
    (gone : entries.foldlM step first = .ok last) : keeps last := by
  induction entries generalizing first with
  | nil =>
    cases gone
    exact begins
  | cons entry rest ih =>
    have parts := Bool.and_eq_true_iff.mp allowed
    obtain ⟨next, stepped, later⟩ := Outcome.bind_eq_ok.mp gone
    exact ih parts.2 (each entry first next parts.1 begins stepped) later

mutual

theorem all_of_value? {draft : Draft} {value : Json} (allowed : draft.all allows = true)
    (read : draft.value? = some value) : value.all allows = true := by
  cases draft with
  | num n =>
    cases read
    exact allowed
  | arr items =>
    obtain ⟨values, found, rfl⟩ := Option.map_eq_some_iff.mp read
    exact allItems_of_valueItems? allowed found
  | obj entries =>
    obtain ⟨values, found, rfl⟩ := Option.map_eq_some_iff.mp read
    exact allEntries_of_valueEntries? allowed rfl found
  | unreadable => cases read
  | broken => cases read
  | _ =>
    cases read
    rfl

theorem allItems_of_valueItems? {items : List Draft} {values : List Json}
    (allowed : allItems allows items = true) (read : valueItems? items = some values) :
    Json.allItems allows values = true := by
  cases items with
  | nil =>
    cases read
    rfl
  | cons item rest =>
    obtain ⟨value, first, further⟩ := Option.bind_eq_some_iff.mp read
    obtain ⟨others, later, made⟩ := Option.bind_eq_some_iff.mp further
    cases made
    have parts := Bool.and_eq_true_iff.mp allowed
    apply Bool.and_eq_true_iff.mpr
    exact ⟨all_of_value? parts.1 first, allItems_of_valueItems? parts.2 later⟩

theorem allEntries_of_valueEntries? {entries : List (Option String × Draft)}
    {done values : List (String × Json)} (allowed : allEntries allows entries = true)
    (before : Json.allEntries allows done = true)
    (read : valueEntries? entries done = some values) : Json.allEntries allows values = true := by
  cases entries with
  | nil =>
    cases read
    exact before
  | cons entry rest =>
    obtain ⟨key, draft⟩ := entry
    have parts := Bool.and_eq_true_iff.mp allowed
    cases key with
    | none => cases read
    | some key =>
      obtain ⟨value, first, later⟩ := Option.bind_eq_some_iff.mp read
      have here := all_of_value? parts.1 first
      exact allEntries_of_valueEntries? parts.2 (Json.allEntries_insert here before) later

end

end Draft

namespace Json

variable {allows : Number.Numeral → Bool}

mutual

@[simp] theorem all_draft (value : Json) : value.draft.all allows = value.all allows := by
  cases value with
  | arr items => exact allItems_draftItems items
  | obj entries => exact allEntries_draftEntries entries
  | _ => rfl

@[simp] theorem allItems_draftItems (items : List Json) :
    Draft.allItems allows (draftItems items) = allItems allows items := by
  cases items with
  | nil => rfl
  | cons item rest =>
    simp only [draftItems, Draft.allItems, allItems, all_draft item, allItems_draftItems rest]

@[simp] theorem allEntries_draftEntries (entries : List (String × Json)) :
    Draft.allEntries allows (draftEntries entries) = allEntries allows entries := by
  cases entries with
  | nil => rfl
  | cons entry rest =>
    simp only [draftEntries, Draft.allEntries, allEntries, all_draft entry.2,
      allEntries_draftEntries rest]

end

end Json

namespace Decoder

/-- Read from a draft with no other numbers than these, everything has the property. -/
def Yields (decode : Decoder α) (allows : Number.Numeral → Bool) (holds : α → Prop) : Prop :=
  ∀ reading (draft : Draft) a, draft.all allows = true → decode reading draft = .ok a → holds a

variable {allows : Number.Numeral → Bool}

theorem Yields.trivial (decode : Decoder α) : decode.Yields allows fun _ => True :=
  fun _ _ _ _ _ => True.intro

theorem Yields.mono {decode : Decoder α} {holds holds' : α → Prop}
    (yields : decode.Yields allows holds) (implies : ∀ a, holds a → holds' a) :
    decode.Yields allows holds' :=
  fun reading draft a allowed read => implies a (yields reading draft a allowed read)

theorem Yields.case {decode : Decoder α} {wrap : α → β} {holds : α → Prop} {holds' : β → Prop}
    (yields : decode.Yields allows holds) (implies : ∀ a, holds a → holds' (wrap a)) :
    Decoder.Yields (fun reading draft => (decode reading draft).map wrap) allows holds' := by
  intro reading draft b allowed read
  obtain ⟨a, found, rfl⟩ := Outcome.map_eq_ok.mp read
  exact implies a (yields reading draft a allowed found)

theorem Yields.size : Decoder.size.Yields allows fun n => n < Number.limit := by
  intro reading draft n _ read
  unfold Decoder.size at read
  split at read
  · split at read
    · next fits =>
      cases read
      exact of_decide_eq_true (Bool.and_eq_true_iff.mp fits).2
    · cases read
  · cases read

theorem Yields.json : Decoder.json.Yields allows fun value => value.all allows = true := by
  intro reading draft value allowed read
  unfold Decoder.json at read
  split at read
  · next whole =>
    cases read
    exact Draft.all_of_value? allowed whole
  · cases read

theorem Yields.optional {decode : Decoder α} {holds : α → Prop} (yields : decode.Yields allows holds) :
    (Decoder.optional decode).Yields allows fun a => ∀ b ∈ a, holds b := by
  intro reading draft a allowed read b member
  cases draft with
  | null =>
    cases read
    cases member
  | _ =>
    obtain ⟨c, found, rfl⟩ := Outcome.map_eq_ok.mp read
    cases member
    exact yields reading _ _ allowed found

theorem Yields.items {decode : Decoder α} {holds : α → Prop} (yields : decode.Yields allows holds)
    {reading : Reading} {drafts : List Draft} {found : List α}
    (allowed : Draft.allItems allows drafts = true)
    (read : Decoder.items decode reading drafts = .ok found) : ∀ a ∈ found, holds a := by
  induction drafts generalizing found with
  | nil =>
    cases read
    exact fun _ member => nomatch member
  | cons draft rest ih =>
    have parts := Bool.and_eq_true_iff.mp allowed
    obtain ⟨first, here, further⟩ := Outcome.bind_eq_ok.mp read
    obtain ⟨others, later, made⟩ := Outcome.bind_eq_ok.mp further
    cases made
    intro a member
    rcases List.mem_cons.mp member with rfl | behind
    · exact yields reading draft a parts.1 here
    · exact ih parts.2 later a behind

theorem Yields.list {decode : Decoder α} {holds : α → Prop} (yields : decode.Yields allows holds) :
    (Decoder.list decode).Yields allows fun found => ∀ a ∈ found, holds a := by
  intro reading draft found allowed read
  cases draft with
  | arr drafts => exact yields.items allowed read
  | _ => cases read

theorem mem_of_named {cases : List (String × β)} {name : String} {found : β}
    (chosen : named cases name = .ok found) : (name, found) ∈ cases := by
  unfold named at chosen
  split at chosen
  · next same =>
    cases chosen
    obtain ⟨before, behind, parts, _⟩ := List.lookup_eq_some_iff.mp same
    rw [parts]
    simp
  · cases chosen

/-- What a case of a choice gives. -/
def Case.Yields (allows : Number.Numeral → Bool) (holds : α → Prop) : Case α → Prop
  | .plain value => holds value
  | .carrying decode => decode.Yields allows holds

theorem Case.yields_payload {holds : α → Prop} {choice : Case α}
    (yields : choice.Yields allows holds) {reading : Reading} {draft : Draft} {value : α}
    (allowed : draft.all allows = true) (paid : payload reading choice draft = .ok value) :
    holds value := by
  cases choice with
  | plain a =>
    obtain ⟨_, _, rfl⟩ := Outcome.map_eq_ok.mp paid
    exact yields
  | carrying decode => exact yields reading draft value allowed paid

theorem Yields.oneOf {cases : List (String × Case α)} {holds : α → Prop}
    (each : ∀ name choice, (name, choice) ∈ cases → choice.Yields allows holds) :
    (Decoder.oneOf cases).Yields allows holds := by
  intro reading draft found allowed read
  unfold Decoder.oneOf at read
  split at read
  · obtain ⟨choice, chosen, given⟩ := Outcome.bind_eq_ok.mp read
    have yields := each _ _ (mem_of_named chosen)
    split at given
    · cases given
      exact yields
    · cases given
  · obtain ⟨choice, chosen, further⟩ := Outcome.bind_eq_ok.mp read
    obtain ⟨value, paid, given⟩ := Outcome.bind_eq_ok.mp further
    have inner := (Bool.and_eq_true_iff.mp allowed).1
    split at given
    · cases given
      exact Case.yields_payload (each _ _ (mem_of_named chosen)) inner paid
    · cases given
  · obtain ⟨choice, chosen, paid⟩ := Outcome.bind_eq_ok.mp read
    have inner := (Bool.and_eq_true_iff.mp allowed).1
    exact Case.yields_payload (each _ _ (mem_of_named chosen)) inner paid
  all_goals cases read

/-- A choice between names gives what stands behind one of them. -/
theorem yields_plainCases (cases : List (String × β)) :
    (oneOf (plainCases cases)).Yields allows fun found => ∃ name, (name, found) ∈ cases := by
  refine Yields.oneOf fun name choice member => ?_
  obtain ⟨⟨name', value⟩, listed, same⟩ := List.mem_map.mp member
  cases same
  exact ⟨_, listed⟩

theorem yields_tag (cases : List (String × β)) :
    (tag cases).Yields allows fun found => ∃ name, (name, found) ∈ cases := by
  intro reading draft found _ read
  unfold tag at read
  split at read
  · exact ⟨_, mem_of_named read⟩
  · split at read
    · next named =>
      split at read
      · cases read
        exact ⟨_, List.mem_of_getElem? named⟩
      · cases read
    · cases read
  · cases read

/-- What has been read so far of an object with a tag beside its content. -/
def Progress.Holds (allows : Number.Numeral → Bool) (cases : List (String × Decoder α))
    (holds : α → Prop) : Progress α → Prop
  | .nothing => True
  | .tagged decode => ∃ name, (name, decode) ∈ cases
  | .content draft => draft.all allows = true
  | .whole value => holds value

theorem Progress.holds_besideStep {tagKey contentKey : String} {cases : List (String × Decoder α)}
    {holds : α → Prop} (yields : ∀ name decode, (name, decode) ∈ cases → decode.Yields allows holds)
    {reading : Reading} {entry : Option String × Draft} {progress next : Progress α}
    (allowed : entry.2.all allows = true) (known : progress.Holds allows cases holds)
    (step : besideStep tagKey contentKey cases reading progress entry = .ok next) :
    next.Holds allows cases holds := by
  obtain ⟨key, draft⟩ := entry
  unfold besideStep at step
  split at step
  · cases step
  · next key draft same =>
    cases same
    split at step
    · split at step
      · obtain ⟨decode, chosen, rfl⟩ := Outcome.map_eq_ok.mp step
        exact yields_plainCases cases reading draft decode allowed chosen
      · obtain ⟨decode, chosen, further⟩ := Outcome.bind_eq_ok.mp step
        obtain ⟨value, read, rfl⟩ := Outcome.map_eq_ok.mp further
        obtain ⟨name, member⟩ := yields_plainCases cases reading draft decode allowed chosen
        exact yields name decode member .kept _ value known read
      · cases step
    · split at step
      · split at step
        · obtain ⟨_, _, rfl⟩ := Outcome.map_eq_ok.mp step
          exact allowed
        · obtain ⟨value, read, rfl⟩ := Outcome.map_eq_ok.mp step
          obtain ⟨name, member⟩ := known
          exact yields name _ member reading draft value allowed read
        · cases step
      · obtain ⟨_, _, rfl⟩ := Outcome.map_eq_ok.mp step
        exact known

theorem Yields.tagBeside {tagKey contentKey : String} {cases : List (String × Decoder α)}
    {holds : α → Prop} (yields : ∀ name decode, (name, decode) ∈ cases → decode.Yields allows holds) :
    (Decoder.tagBeside tagKey contentKey cases).Yields allows holds := by
  intro reading draft a allowed read
  unfold Decoder.tagBeside at read
  split at read
  · next entries =>
    obtain ⟨last, gone, given⟩ := Outcome.bind_eq_ok.mp read
    have nothing : Progress.nothing.Holds allows cases holds := True.intro
    have known := Draft.foldlM_keeps (fun _ _ _ => Progress.holds_besideStep yields) allowed
      nothing gone
    split at given
    · cases given
      exact known
    · cases given
    · cases given
  · cases read
  · next first rest =>
    have parts := Bool.and_eq_true_iff.mp allowed
    obtain ⟨decode, chosen, further⟩ := Outcome.bind_eq_ok.mp read
    obtain ⟨name, member⟩ := yields_tag cases reading first decode parts.1 chosen
    split at further
    · cases further
    · next second others =>
      obtain ⟨value, there, given⟩ := Outcome.bind_eq_ok.mp further
      split at given
      · cases given
        have part := (Bool.and_eq_true_iff.mp parts.2).1
        exact yields name decode member reading second _ part there
      · cases given
  · cases read

theorem Yields.noFields {value : α} {holds : α → Prop} (stands : holds value) :
    (Decoder.noFields value).Yields allows holds := by
  intro reading draft a _ read
  unfold Decoder.noFields at read
  split at read
  · cases read
    exact stands
  · cases read
    exact stands
  all_goals cases read

/-- What has been read so far of an object with its tag inside: the tag that was found is one
of the cases, and the entries that are kept are some of those given. -/
def InsideHolds (allows : Number.Numeral → Bool) (cases : List (String × β))
    (state : Option β × List (Option String × Draft)) : Prop :=
  (∀ b ∈ state.1, ∃ name, (name, b) ∈ cases) ∧ Draft.allEntries allows state.2 = true

theorem insideHolds_insideStep {tagKey : String} {cases : List (String × β)} {reading : Reading}
    {entry : Option String × Draft} {state next : Option β × List (Option String × Draft)}
    (allowed : entry.2.all allows = true) (known : InsideHolds allows cases state)
    (stepped : insideStep tagKey cases reading state entry = .ok next) :
    InsideHolds allows cases next := by
  obtain ⟨key, draft⟩ := entry
  obtain ⟨found, held⟩ := state
  cases key with
  | none => cases stepped
  | some key =>
    simp only [insideStep] at stepped
    split at stepped
    · split at stepped
      · obtain ⟨b, chosen, same⟩ := Outcome.map_eq_ok.mp stepped
        cases same
        refine ⟨fun b' member => ?_, known.2⟩
        cases member
        exact yields_tag cases reading draft b allowed chosen
      · cases stepped
    · obtain ⟨_, _, same⟩ := Outcome.map_eq_ok.mp stepped
      cases same
      exact ⟨known.1, Draft.allEntries_append known.2 allowed⟩

theorem Yields.tagInside {tagKey : String} {cases : List (String × Decoder α)}
    {holds : α → Prop}
    (yields : ∀ name decode, (name, decode) ∈ cases → decode.Yields allows holds) :
    (Decoder.tagInside tagKey cases).Yields allows holds := by
  intro reading draft a allowed read
  unfold Decoder.tagInside at read
  split at read
  · next entries =>
    obtain ⟨⟨last, others⟩, gone, given⟩ := Outcome.bind_eq_ok.mp read
    have nothing : InsideHolds allows cases (none, []) := ⟨fun _ member => (nomatch member), rfl⟩
    have known := Draft.foldlM_keeps (fun _ _ _ => insideHolds_insideStep) allowed nothing gone
    cases last with
    | none => cases given
    | some decode =>
      obtain ⟨name, member⟩ := known.1 decode rfl
      exact yields name decode member .kept (.obj others) a known.2 given
  · cases read
  · next first rest =>
    have parts := Bool.and_eq_true_iff.mp allowed
    obtain ⟨decode, chosen, further⟩ := Outcome.bind_eq_ok.mp read
    obtain ⟨_, _, given⟩ := Outcome.bind_eq_ok.mp further
    obtain ⟨name, member⟩ := yields_tag cases reading first decode parts.1 chosen
    exact yields name decode member .kept (.arr rest) a parts.2 given
  · cases read

end Decoder

namespace Form

variable {allows : Number.Numeral → Bool}

/-- Read from drafts with no other numbers, the record has the property. `partly` is
what holds of the fields that have been read so far. -/
structure Reads (f : Form α) (allows : Number.Numeral → Bool) (partly : f.State → Prop)
    (holds : α → Prop) : Prop where
  start : partly f.start
  take : ∀ reading key (draft : Draft) state next, draft.all allows = true → partly state →
    f.take reading key draft state = some (.ok next) → partly next
  finish : ∀ state a, partly state → f.finish state = .ok a → holds a
  listed : ∀ reading drafts a rest, Draft.allItems allows drafts = true →
    f.listed reading drafts = .ok (a, rest) → holds a ∧ Draft.allItems allows rest = true

def Yields (f : Form α) (allows : Number.Numeral → Bool) (holds : α → Prop) : Prop :=
  ∃ partly, f.Reads allows partly holds

theorem Reads.step {f : Form α} {partly : f.State → Prop} {holds : α → Prop}
    (reads : f.Reads allows partly holds) {reading : Reading} {entry : Option String × Draft}
    {state next : f.State} (allowed : entry.2.all allows = true) (known : partly state)
    (stepped : f.step reading state entry = .ok next) : partly next := by
  obtain ⟨key, draft⟩ := entry
  cases key with
  | none => cases stepped
  | some key =>
    simp only [Form.step] at stepped
    split at stepped
    · next taken found =>
      rw [stepped] at found
      exact reads.take reading key draft state next allowed known found
    · obtain ⟨_, _, rfl⟩ := Outcome.map_eq_ok.mp stepped
      exact known

theorem Yields.readEntries {f : Form α} {holds : α → Prop} (yields : f.Yields allows holds)
    {reading : Reading} {entries : List (Option String × Draft)} {a : α}
    (allowed : Draft.allEntries allows entries = true)
    (read : f.readEntries reading entries = .ok a) : holds a := by
  obtain ⟨partly, reads⟩ := yields
  obtain ⟨last, gone, finished⟩ := Outcome.bind_eq_ok.mp read
  have known := Draft.foldlM_keeps (fun _ _ _ => reads.step) allowed reads.start gone
  exact reads.finish last a known finished

theorem Yields.readObject {f : Form α} {holds : α → Prop} (yields : f.Yields allows holds) :
    f.readObject.Yields allows holds := by
  intro reading draft a allowed read
  cases draft with
  | obj entries => exact yields.readEntries allowed read
  | _ => cases read

theorem Yields.read {f : Form α} {holds : α → Prop} (yields : f.Yields allows holds) :
    f.read.Yields allows holds := by
  intro reading draft a allowed read
  cases draft with
  | obj entries => exact yields.readEntries allowed read
  | arr drafts =>
    obtain ⟨⟨value, rest⟩, found, given⟩ := Outcome.bind_eq_ok.mp read
    obtain ⟨partly, reads⟩ := yields
    have known := (reads.listed reading drafts value rest allowed found).1
    simp only at given
    split at given
    · cases given
      exact known
    · cases given
  | _ => cases read

theorem Yields.field {key : String} {others : List String} {absent : Absent α}
    {decode : Decoder α} {holds : α → Prop} (yields : decode.Yields allows holds)
    (missing : ∀ a, absent = .inObject a ∨ absent = .anywhere a → holds a) :
    (field key others absent decode).Yields allows holds := by
  refine ⟨fun (state : Option α) => ∀ a ∈ state, holds a, ?_, ?_, ?_, ?_⟩
  · intro a member
    cases member
  · intro reading name draft state next allowed _ taken
    simp only [Form.field] at taken
    split at taken
    · have read := Option.some.inj taken
      split at read
      · cases read
      · obtain ⟨b, found, rfl⟩ := Outcome.map_eq_ok.mp read
        intro a member
        cases member
        exact yields reading draft b allowed found
    · cases taken
  · intro state a known finished
    cases state with
    | some b =>
      cases finished
      exact known _ rfl
    | none =>
      cases absent with
      | fault => cases finished
      | inObject b =>
        cases finished
        exact missing _ (.inl rfl)
      | anywhere b =>
        cases finished
        exact missing _ (.inr rfl)
  · intro reading drafts a rest allowed found
    cases drafts with
    | nil =>
      cases absent with
      | anywhere b =>
        cases found
        exact ⟨missing _ (.inr rfl), rfl⟩
      | _ => cases found
    | cons draft behind =>
      have parts := Bool.and_eq_true_iff.mp allowed
      obtain ⟨b, read, same⟩ := Outcome.map_eq_ok.mp found
      cases same
      exact ⟨yields reading draft a parts.1 read, parts.2⟩

theorem Yields.required {key : String} {decode : Decoder α} {holds : α → Prop}
    (yields : decode.Yields allows holds) : (required key decode).Yields allows holds :=
  Yields.field yields fun _ stands => by
    rcases stands with stands | stands <;> cases stands

theorem Yields.withDefault {key : String} {value : α} {decode : Decoder α} {holds : α → Prop}
    (yields : decode.Yields allows holds) (stands : holds value) :
    (withDefault key value decode).Yields allows holds :=
  Yields.field yields fun _ same => by
    rcases same with same | same
    · cases same
    · cases same
      exact stands

theorem Yields.both {f : Form α} {g : Form β} {left : α → Prop} {right : β → Prop}
    (first : f.Yields allows left) (second : g.Yields allows right) :
    (f.both g).Yields allows fun pair => left pair.1 ∧ right pair.2 := by
  obtain ⟨partly, reads⟩ := first
  obtain ⟨partly', reads'⟩ := second
  refine ⟨fun state => partly state.1 ∧ partly' state.2, ⟨reads.start, reads'.start⟩, ?_, ?_, ?_⟩
  · intro reading key draft state next allowed known taken
    simp only [Form.both] at taken
    split at taken
    · next step here =>
      obtain ⟨state', stepped, rfl⟩ := Outcome.map_eq_ok.mp (Option.some.inj taken)
      rw [stepped] at here
      exact ⟨reads.take reading key draft _ _ allowed known.1 here, known.2⟩
    · obtain ⟨step, there, made⟩ := Option.map_eq_some_iff.mp taken
      obtain ⟨state', stepped, rfl⟩ := Outcome.map_eq_ok.mp made
      rw [stepped] at there
      exact ⟨known.1, reads'.take reading key draft _ _ allowed known.2 there⟩
  · intro state pair known finished
    obtain ⟨a, here, further⟩ := Outcome.bind_eq_ok.mp finished
    obtain ⟨b, there, made⟩ := Outcome.bind_eq_ok.mp further
    cases made
    exact ⟨reads.finish _ a known.1 here, reads'.finish _ b known.2 there⟩
  · intro reading drafts pair rest allowed found
    obtain ⟨⟨a, behind⟩, here, further⟩ := Outcome.bind_eq_ok.mp found
    obtain ⟨⟨b, last⟩, there, made⟩ := Outcome.bind_eq_ok.mp further
    cases made
    have parts := reads.listed reading drafts a behind allowed here
    have parts' := reads'.listed reading behind b rest parts.2 there
    exact ⟨⟨parts.1, parts'.1⟩, parts'.2⟩

theorem Yields.map {f : Form α} {h : α → β} {holds : α → Prop} {holds' : β → Prop}
    (yields : f.Yields allows holds) (implies : ∀ a, holds a → holds' (h a)) :
    (f.map h).Yields allows holds' := by
  obtain ⟨partly, reads⟩ := yields
  refine ⟨partly, reads.start, reads.take, ?_, ?_⟩
  · intro state b known finished
    obtain ⟨a, here, rfl⟩ := Outcome.map_eq_ok.mp finished
    exact implies a (reads.finish state a known here)
  · intro reading drafts b rest allowed found
    obtain ⟨⟨a, behind⟩, here, same⟩ := Outcome.map_eq_ok.mp found
    cases same
    have parts := reads.listed reading drafts a rest allowed here
    exact ⟨implies a parts.1, parts.2⟩

end Form

end RecipeGraph
