import CandleAuction.Rejection

/-!
# How a ruling fails

A ruling made in steps fails in the first step that does. What a step can be
rejected for is read off its text, so whether a rule ever gives a rejection of
some kind is settled step by step.
-/

namespace CandleAuction

namespace Ruling

variable {α β : Type} {halt : Halt} {rejection : Rejection}

theorem bind_eq_error {first : Ruling α} {next : α → Ruling β} :
    (first >>= next) = .error halt ↔
      first = .error halt ∨ ∃ value, first = .ok value ∧ next value = .error halt := by
  cases first <;> simp [bind, Except.bind]

theorem bind_eq_error_of_ok {first : Ruling α} {next : α → Ruling β} {value : α}
    (permitted : first = .ok value) (refused : next value = .error halt) :
    (first >>= next) = .error halt := bind_eq_error.mpr (.inr ⟨value, permitted, refused⟩)

@[simp]
theorem ensure_eq_error {condition : Prop} [Decidable condition] :
    ensure condition rejection = .error halt ↔ ¬ condition ∧ .rejected rejection = halt := by
  unfold ensure reject
  split <;> simp [*]

theorem ensure_bind_eq_error {condition : Prop} [Decidable condition] {next : Unit → Ruling β}
    (met : condition) (refused : next () = .error halt) :
    (ensure condition rejection >>= next) = .error halt :=
  bind_eq_error_of_ok (ensure_eq_ok.mpr met) refused

@[simp]
theorem demand_eq_error {value : Option α} :
    demand value rejection = .error halt ↔ value = none ∧ .rejected rejection = halt := by
  cases value <;> simp [demand, reject]

@[simp]
theorem lift_eq_error {value : Except Fault α} :
    (liftM value : Ruling α) = .error halt ↔
      ∃ fault, value = .error fault ∧ .fault fault = halt := by
  change exactly value = .error halt ↔ _
  cases value <;> simp [exactly]

@[simp]
theorem decoded_eq_error {value : Except PackingError α} :
    decoded value = .error halt ↔
      ∃ error, value = .error error ∧ .rejected (.invalidEncoding error) = halt := by
  cases value <;> simp [decoded, reject]

/-- The ruling is a rejection of some kind. -/
def Rejects (kind : Rejection → Prop) (ruling : Ruling α) : Prop :=
  ∃ rejection, ruling = .error (.rejected rejection) ∧ kind rejection

variable {kind : Rejection → Prop}

@[simp]
theorem not_rejects_ok {value : α} : ¬ Rejects kind (.ok value) := by simp [Rejects]

@[simp]
theorem not_rejects_pure {value : α} : ¬ Rejects kind (pure value) := not_rejects_ok

@[simp]
theorem rejects_map {f : α → β} {ruling : Ruling α} :
    Rejects kind (f <$> ruling) ↔ Rejects kind ruling := by
  cases ruling <;> simp [Rejects, Functor.map, Except.map]

@[simp]
theorem rejects_reject : Rejects kind (reject rejection : Ruling α) ↔ kind rejection := by
  simp [Rejects, reject]

@[simp]
theorem rejects_ensure {condition : Prop} [Decidable condition] :
    Rejects kind (ensure condition rejection) ↔ ¬ condition ∧ kind rejection := by
  by_cases met : condition <;> simp [Rejects, ensure, reject, met]

@[simp]
theorem rejects_demand {value : Option α} :
    Rejects kind (demand value rejection) ↔ value = none ∧ kind rejection := by
  cases value <;> simp [Rejects, demand, reject]

@[simp]
theorem not_rejects_lift {value : Except Fault α} : ¬ Rejects kind (liftM value : Ruling α) := by
  simp [Rejects]

@[simp]
theorem rejects_decoded {value : Except PackingError α} :
    Rejects kind (decoded value) ↔
      ∃ error, value = .error error ∧ kind (.invalidEncoding error) := by
  cases value <;> simp [Rejects, decoded, reject]

@[simp]
theorem rejects_ite {condition : Prop} [Decidable condition] {first other : Ruling α} :
    Rejects kind (if condition then first else other) ↔
      if condition then Rejects kind first else Rejects kind other := by
  split <;> rfl

theorem rejects_bind {first : Ruling α} {next : α → Ruling β} :
    Rejects kind (first >>= next) ↔
      Rejects kind first ∨ ∃ value, first = .ok value ∧ Rejects kind (next value) := by
  cases first <;> simp [Rejects, bind, Except.bind]

/-- A rule is rejected in its first step, if no other step can be. -/
theorem rejects_bind_iff {first : Ruling α} {next : α → Ruling β}
    (rest : ∀ value, first = .ok value → ¬ Rejects kind (next value)) :
    Rejects kind (first >>= next) ↔ Rejects kind first := by
  rw [rejects_bind, or_iff_left_iff_imp]
  rintro ⟨value, permitted, rejects⟩
  exact absurd rejects (rest value permitted)

theorem rejects_of_bind {first : Ruling α} {next : α → Ruling β}
    (spared : ¬ Rejects kind first) (rejects : Rejects kind (first >>= next)) :
    ∃ value, first = .ok value ∧ Rejects kind (next value) :=
  (rejects_bind.mp rejects).resolve_left spared

end Ruling

end CandleAuction
