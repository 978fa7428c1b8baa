/-!
# Fallible computations

A check that may raise returns an `Except`; the source's `raise` and early `return`
are its error.  One rule takes a successful sequence of checks apart, one a failed sequence, and
what every error of the parts satisfies, every error of the sequence does.
-/

namespace BettingPlatform

theorem ok_bind {ε α β : Type} {a : α} {f : α → Except ε β} : (Except.ok a >>= f) = f a :=
  rfl

theorem error_bind {ε α β : Type} {e : ε} {f : α → Except ε β} :
    (Except.error e >>= f) = .error e :=
  rfl

/-- A sequence succeeds exactly when its first part does and the rest succeeds on the
first part's result. -/
theorem bind_eq_ok_iff {ε α β : Type} {x : Except ε α} {f : α → Except ε β} {b : β} :
    (x >>= f) = .ok b ↔ ∃ a, x = .ok a ∧ f a = .ok b := by
  cases x <;> simp [bind, Except.bind]

/-- A sequence fails exactly when its first part does, or the rest fails on the first
part's result. -/
theorem bind_eq_error_iff {ε α β : Type} {x : Except ε α} {f : α → Except ε β} {e : ε} :
    (x >>= f) = .error e ↔ x = .error e ∨ ∃ a, x = .ok a ∧ f a = .error e := by
  cases x <;> simp [bind, Except.bind]

/-- Every error of the computation satisfies a condition. -/
def Throws {ε α : Type} (P : ε → Prop) (x : Except ε α) : Prop :=
  ∀ e, x = .error e → P e

section Throws

variable {ε α β : Type} {P : ε → Prop}

theorem Throws.ok (a : α) : Throws P (.ok a : Except ε α) := by
  intro e h
  contradiction

theorem Throws.error {e : ε} (h : P e) : Throws P (.error e : Except ε α) := by
  intro e' he'
  exact Except.error.inj he' ▸ h

/-- The errors of a sequence are those of its steps. -/
theorem Throws.bind {x : Except ε α} {f : α → Except ε β} (hx : Throws P x)
    (hf : ∀ a, x = .ok a → Throws P (f a)) : Throws P (x >>= f) := by
  intro e h
  rcases bind_eq_error_iff.mp h with herror | ⟨a, ha, herror⟩
  · exact hx e herror
  · exact hf a ha e herror

end Throws

/-- A value is there when there is no error. -/
theorem toOption_eq_some_iff {ε : Type u} {α : Type v} {x : Except ε α} {a : α} :
    x.toOption = some a ↔ x = .ok a := by
  cases x <;> simp [Except.toOption]

end BettingPlatform
