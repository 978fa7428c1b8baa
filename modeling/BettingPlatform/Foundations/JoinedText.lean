import Mathlib.Data.List.Basic

/-!
# Texts joined by a separator

Two parts joined by a separator can be told apart again when one of them is known to be free
of the separator: the cut is the first occurrence when it is the front part, and the last
occurrence when it is the back part.  The other part may hold anything.

Main results:

- Theorem `append_sep_inj_of_front`: the joined text determines both parts when no front part
  holds the separator.
- Theorem `append_sep_inj_of_back`: the same for the back part.
- Theorem `splitMax_append`: splitting undoes the join of a front part.
-/

namespace BettingPlatform

universe u

variable {α : Type u} {sep : α} {front front' back back' : List α}

/-- The first separator ends a front part that holds none. -/
theorem append_sep_inj_of_front (hfront : sep ∉ front) (hfront' : sep ∉ front') :
    front ++ sep :: back = front' ++ sep :: back' ↔ front = front' ∧ back = back' := by
  induction front generalizing front' with
  | nil =>
      cases front' with
      | nil => simp
      | cons c cs =>
          have hne : sep ≠ c := fun h => hfront' (h ▸ List.mem_cons_self)
          simp [hne]
  | cons c cs ih =>
      rw [List.mem_cons, not_or] at hfront
      obtain ⟨hc, hcs⟩ := hfront
      cases front' with
      | nil => simp [Ne.symm hc]
      | cons d ds =>
          rw [List.mem_cons, not_or] at hfront'
          simp [ih hcs hfront'.2, and_assoc]

/-- The last separator starts a back part that holds none. -/
theorem append_sep_inj_of_back (hback : sep ∉ back) (hback' : sep ∉ back') :
    front ++ sep :: back = front' ++ sep :: back' ↔ front = front' ∧ back = back' := by
  have hmirror := @append_sep_inj_of_front α sep back.reverse back'.reverse front.reverse
    front'.reverse (by simpa using hback) (by simpa using hback')
  rw [← List.reverse_inj]
  simpa [and_comm] using hmirror

section Split

variable [DecidableEq α]

/-- Splitting at the first separators, as many as are given: `str.split(sep, count)`. -/
def splitMax (sep : α) : Nat → List α → List (List α)
  | 0, l => [l]
  | count + 1, l =>
      match l.dropWhile (· ≠ sep) with
      | [] => [l]
      | _ :: back => l.takeWhile (· ≠ sep) :: splitMax sep count back

/-- The first separator ends a front part that holds none. -/
theorem splitMax_append {count : Nat} (hfront : sep ∉ front) :
    splitMax sep (count + 1) (front ++ sep :: back) = front :: splitMax sep count back := by
  have hall : ∀ a ∈ front, decide (a ≠ sep) = true :=
    fun a ha => decide_eq_true fun h => hfront (h ▸ ha)
  rw [splitMax, List.dropWhile_append_of_pos hall, List.takeWhile_append_of_pos hall]
  simp

end Split

end BettingPlatform
