import RecipeGraph.Kind

/-!
# Outcomes of steps that can fail
-/

namespace RecipeGraph.Outcome

variable {Fault : Type u} {α β : Type v}

theorem bind_eq_ok {first : Except Fault α} {next : α → Except Fault β} {result : β} :
    (first >>= next) = .ok result ↔ ∃ a, first = .ok a ∧ next a = .ok result := by
  cases first with
  | error fault =>
    constructor
    · intro broken
      cases broken
    · rintro ⟨_, broken, _⟩
      cases broken
  | ok a =>
    refine ⟨fun reached => ⟨a, rfl, reached⟩, ?_⟩
    rintro ⟨_, same, reached⟩
    cases same
    exact reached

theorem map_eq_ok {first : Except Fault α} {change : α → β} {result : β} :
    first.map change = .ok result ↔ ∃ a, first = .ok a ∧ change a = result := by
  cases first with
  | error fault =>
    constructor
    · intro broken
      cases broken
    · rintro ⟨_, broken, _⟩
      cases broken
  | ok a =>
    refine ⟨fun reached => ⟨a, rfl, Except.ok.inj reached⟩, ?_⟩
    rintro ⟨_, same, rfl⟩
    cases same
    rfl

/-- Two steps end alike: with results that fit, or with the same fault. -/
inductive Agrees (fits : α → β → Prop) : Except Fault α → Except Fault β → Prop
  | ok {a : α} {b : β} (same : fits a b) : Agrees fits (.ok a) (.ok b)
  | error (fault : Fault) : Agrees fits (.error fault) (.error fault)

namespace Agrees

variable {γ δ : Type v} {fits : α → β → Prop} {fits' : γ → δ → Prop}
  {left : Except Fault α} {right : Except Fault β}

theorem bind {next : α → Except Fault γ} {next' : β → Except Fault δ}
    (agrees : Agrees fits left right) (later : ∀ a b, fits a b → Agrees fits' (next a) (next' b)) :
    Agrees fits' (left >>= next) (right >>= next') := by
  cases agrees with
  | ok same => exact later _ _ same
  | error fault => exact .error fault

theorem refl {fits : α → α → Prop} {outcome : Except Fault α}
    (each : ∀ a, outcome = .ok a → fits a a) : Agrees fits outcome outcome := by
  cases outcome with
  | ok a => exact .ok (each a rfl)
  | error fault => exact .error fault

theorem of_ok {a : α} (agrees : Agrees fits left right) (result : left = .ok a) :
    ∃ b, right = .ok b ∧ fits a b := by
  cases agrees with
  | ok same =>
    cases result
    exact ⟨_, rfl, same⟩
  | error fault => cases result

theorem of_error {fault : Fault} (agrees : Agrees fits left right)
    (result : left = .error fault) : right = .error fault := by
  cases agrees with
  | ok same => cases result
  | error _ =>
    cases result
    rfl

end Agrees

end RecipeGraph.Outcome
