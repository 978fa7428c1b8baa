import Mathlib.Logic.Function.Basic
import Mathlib.Data.Fintype.Basic
import BettingPlatform.Foundations.Table

/-!
# Row locks of concurrent transactions

Under read committed isolation a transaction sees the committed rows and its own
uncommitted versions.  A statement that would write a row on whose key another
transaction holds an uncommitted version waits until that transaction ends.  The
transactions' versions of one table are given by a function from transactions to rows.

Main results:

- Theorem `Apart.update`: a write that does not wait keeps the versions apart.
- Theorem `ApartRows.update`: so does a lock on a row that nobody else has locked, where a
  transaction locks several rows.
-/

namespace BettingPlatform

universe u v w

open Schema

variable {ι : Type u} {ρ : Type v} [Schema ρ]

/-- Another transaction holds a version of a row that clashes with `r`. -/
def Blocked (held : ι → Option ρ) (i : ι) (r : ρ) : Prop :=
  ∃ j, j ≠ i ∧ ∃ s ∈ held j, Clash s r

instance [Fintype ι] [DecidableEq ι] (held : ι → Option ρ) (i : ι) (r : ρ) :
    Decidable (Blocked held i r) :=
  inferInstanceAs (Decidable (∃ j, j ≠ i ∧ ∃ s ∈ held j, Clash s r))

/-- No two transactions hold versions of clashing rows. -/
def Apart (held : ι → Option ρ) : Prop :=
  ∀ i j, i ≠ j → ∀ r ∈ held i, ∀ s ∈ held j, ¬ Clash r s

/-- The versions of one table, where `version` is the one that a transaction holds. -/
def held {κ : Type w} (version : κ → Option ρ) (calls : ι → κ) : ι → Option ρ :=
  fun i => version (calls i)

omit [Schema ρ] in
/-- A call that moves on holds what it holds then. -/
theorem held_update [DecidableEq ι] {κ : Type w} (version : κ → Option ρ) (calls : ι → κ) (i : ι)
    (call : κ) :
    held version (Function.update calls i call) =
      Function.update (held version calls) i (version call) :=
  Function.comp_update version calls i call

theorem apart_none : Apart (fun _ : ι => (none : Option ρ)) := by
  intro i j _ r hr
  contradiction

/-- A write that does not wait keeps the versions apart. -/
theorem Apart.update [DecidableEq ι] {held : ι → Option ρ} (happart : Apart held) {i : ι}
    {version : Option ρ} (hfree : ∀ r ∈ version, ¬ Blocked held i r) :
    Apart (Function.update held i version) := by
  intro j k hjk r hr s hs hclash
  by_cases hj : j = i
  · subst hj
    rw [Function.update_self] at hr
    rw [Function.update_of_ne (Ne.symm hjk)] at hs
    exact hfree r hr ⟨k, Ne.symm hjk, s, hs, clash_symm hclash⟩
  · rw [Function.update_of_ne hj] at hr
    by_cases hk : k = i
    · subst hk
      rw [Function.update_self] at hs
      exact hfree s hs ⟨j, hjk, r, hr, hclash⟩
    · rw [Function.update_of_ne hk] at hs
      exact happart j k hjk r hr s hs hclash

/-- A version that a transaction already holds does not wait. -/
theorem Apart.not_blocked {held : ι → Option ρ} (happart : Apart held) {i : ι} {r s : ρ}
    (hr : r ∈ held i) (hkey : ∀ t, Clash t s → Clash t r) : ¬ Blocked held i s := by
  rintro ⟨j, hj, t, ht, hclash⟩
  exact happart j i hj t ht r hr (hkey t hclash)

/-! ## Several rows -/

/-- Another transaction has locked the row. -/
def BlockedRow (locked : ι → List ρ) (i : ι) (r : ρ) : Prop :=
  ∃ j, j ≠ i ∧ ∃ s ∈ locked j, Clash s r

instance [Fintype ι] [DecidableEq ι] (locked : ι → List ρ) (i : ι) (r : ρ) :
    Decidable (BlockedRow locked i r) :=
  inferInstanceAs (Decidable (∃ j, j ≠ i ∧ ∃ s ∈ locked j, Clash s r))

/-- No two transactions have locked clashing rows. -/
def ApartRows (locked : ι → List ρ) : Prop :=
  ∀ i j, i ≠ j → ∀ r ∈ locked i, ∀ s ∈ locked j, ¬ Clash r s

/-- Locks on rows that are a transaction's own or that nobody has locked keep the rows apart. -/
theorem ApartRows.update [DecidableEq ι] {locked : ι → List ρ} (happart : ApartRows locked) {i : ι}
    {rows : List ρ} (hfree : ∀ r ∈ rows, r ∈ locked i ∨ ¬ BlockedRow locked i r) :
    ApartRows (Function.update locked i rows) := by
  have hother : ∀ j, j ≠ i → ∀ r ∈ rows, ∀ s ∈ locked j, ¬ Clash s r := by
    intro j hj r hr s hs hclash
    rcases hfree r hr with hown | hunlocked
    · exact happart j i hj s hs r hown hclash
    · exact hunlocked ⟨j, hj, s, hs, hclash⟩
  intro j k hjk r hr s hs hclash
  by_cases hj : j = i
  · subst hj
    rw [Function.update_self] at hr
    rw [Function.update_of_ne (Ne.symm hjk)] at hs
    exact hother k (Ne.symm hjk) r hr s hs (clash_symm hclash)
  · rw [Function.update_of_ne hj] at hr
    by_cases hk : k = i
    · subst hk
      rw [Function.update_self] at hs
      exact hother j hj s hs r hr hclash
    · rw [Function.update_of_ne hk] at hs
      exact happart j k hjk r hr s hs hclash

end BettingPlatform
