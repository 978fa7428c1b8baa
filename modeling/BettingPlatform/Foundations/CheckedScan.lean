import BettingPlatform.Foundations.Fallible
import Mathlib.Data.List.Basic

/-!
# Scanning a view by index

A scanner holds an index into a view of fixed length.  Here every access and every step of the
index is checked: reading at or behind the end of the view is a fault, and so is a step that
leaves the view.  A scan that is shown to return without a fault stays inside its view.

Main results:

- Theorem `charIs_eq`: a guarded test of the current item has no fault.
- Theorem `skipWhile_spec`: a guarded skip has no fault and drops the items it skips.
-/

namespace BettingPlatform

/-- What an unchecked scan could do outside its view. -/
inductive Fault
  | outOfBounds
  | pastEnd
deriving DecidableEq, Repr

namespace CheckedScan

variable {α : Type} (s : List α)

/-- `s[i]`. -/
def charAt (i : Nat) : Except Fault α :=
  match s[i]? with
  | some c => .ok c
  | none => .error .outOfBounds

/-- `++i`. -/
def increment (i : Nat) : Except Fault {j : Nat // j = i + 1 ∧ j ≤ s.length} :=
  if h : i < s.length then .ok ⟨i + 1, rfl, h⟩ else .error .pastEnd

/-- `i < s.size() && p(s[i])`. -/
def charIs (i : Nat) (p : α → Bool) : Except Fault Bool :=
  if i < s.length then do
    let c ← charAt s i
    .ok (p c)
  else .ok false

/-- `i < s.size() && p(s[i++])`: the new index when the test holds. -/
def takeIf (i : Nat) (p : α → Bool) : Except Fault (Option Nat) :=
  if i < s.length then do
    let c ← charAt s i
    let ⟨j, _⟩ ← increment s i
    .ok (if p c then some j else none)
  else .ok none

/-- `while (i < s.size() && p(s[i])) ++i;` -/
def skipWhile (p : α → Bool) (i : Nat) : Except Fault Nat := do
  if ← charIs s i p then
    let ⟨j, _hj⟩ ← increment s i
    skipWhile p j
  else .ok i
termination_by s.length - i
decreasing_by omega

/-- `s.substr(start, stop - start)`. -/
def substr (start stop : Nat) : List α :=
  (s.drop start).take (stop - start)

variable {s} {i : Nat}

/-- An access within the payload succeeds. -/
theorem charAt_of_lt (h : i < s.length) : charAt s i = .ok s[i] := by
  simp [charAt, h]

/-- So does a step. -/
theorem increment_of_lt (h : i < s.length) : increment s i = .ok ⟨i + 1, rfl, h⟩ := by
  simp [increment, h]

/-- A guarded test of the current item has no fault. -/
theorem charIs_eq (p : α → Bool) : charIs s i p = .ok ((s.drop i).head?.any p) := by
  unfold charIs
  split
  · rename_i h
    rw [charAt_of_lt h, List.drop_eq_getElem_cons h]
    rfl
  · rename_i h
    rw [List.drop_eq_nil_of_le (Nat.le_of_not_lt h)]
    rfl

/-- The rest of a view is empty at its end, and has the current item in front before it. -/
theorem drop_cases (hi : i ≤ s.length) :
    (i = s.length ∧ s.drop i = []) ∨
      ∃ h : i < s.length, s.drop i = s[i] :: s.drop (i + 1) := by
  rcases Nat.eq_or_lt_of_le hi with rfl | hlt
  · exact .inl ⟨rfl, List.drop_length⟩
  · exact .inr ⟨hlt, List.drop_eq_getElem_cons hlt⟩

/-- A guarded test that takes the current item has no fault. -/
theorem takeIf_eq (p : α → Bool) :
    takeIf s i p = .ok (if (s.drop i).head?.any p then some (i + 1) else none) := by
  unfold takeIf
  split
  · rename_i h
    rw [charAt_of_lt h, increment_of_lt h, List.drop_eq_getElem_cons h]
    rfl
  · rename_i h
    rw [List.drop_eq_nil_of_le (Nat.le_of_not_lt h)]
    rfl

/-- A guarded skip has no fault and drops the items it skips. -/
theorem skipWhile_spec (p : α → Bool) (hi : i ≤ s.length) :
    ∃ j, skipWhile s p i = .ok j ∧ i ≤ j ∧ j ≤ s.length ∧
      (s.drop i).dropWhile p = s.drop j := by
  induction hleft : s.length - i generalizing i with
  | zero =>
      have hend : s.drop i = [] := List.drop_eq_nil_of_le (by omega)
      refine ⟨i, ?_, Nat.le_refl i, hi, by simp [hend]⟩
      rw [skipWhile, charIs_eq, hend]
      rfl
  | succ n ih =>
      have hlt : i < s.length := by omega
      have hcons := List.drop_eq_getElem_cons hlt
      cases hp : p s[i] with
      | true =>
          obtain ⟨j, hj, hle, hend, hdrop⟩ := ih (i := i + 1) hlt (by omega)
          refine ⟨j, ?_, by omega, hend, ?_⟩
          · rw [skipWhile, charIs_eq, hcons, List.head?_cons, Option.any_some, hp, ok_bind,
              if_pos rfl, increment_of_lt hlt, ok_bind]
            exact hj
          · rw [hcons, List.dropWhile_cons_of_pos hp]
            exact hdrop
      | false =>
          refine ⟨i, ?_, Nat.le_refl i, hi, ?_⟩
          · rw [skipWhile, charIs_eq, hcons, List.head?_cons, Option.any_some, hp, ok_bind,
              if_neg (by simp)]
          · rw [hcons, List.dropWhile_cons_of_neg (by simp [hp])]

end CheckedScan
end BettingPlatform
