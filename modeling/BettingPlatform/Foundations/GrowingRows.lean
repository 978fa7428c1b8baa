import Mathlib.Data.List.Basic

/-!
# Rows that change in place and grow at the end

A table that is never deleted from keeps its rows in their places: each statement rewrites
some of them and appends others.  What may become of one row is a relation `R`; the lists
before and after a statement are then related place by place, with new rows behind.

Main results:

- Theorem `Grows.trans`: histories compose when the relation on rows does.
- Theorem `Grows.exists_of_mem`: a row that was there is still there, as what it became.
-/

namespace BettingPlatform
namespace GrowingRows

universe u

variable {α : Type u} {R : α → α → Prop} {xs ys zs : List α}

/-- Every row of the first list has become, by `R`, the row in its place of the second. -/
inductive Grows (R : α → α → Prop) : List α → List α → Prop
  | appended (ys : List α) : Grows R [] ys
  | kept {x y : α} {xs ys : List α} : R x y → Grows R xs ys → Grows R (x :: xs) (y :: ys)

theorem Grows.refl (hrefl : ∀ x, R x x) (xs : List α) : Grows R xs xs := by
  induction xs with
  | nil => exact .appended []
  | cons x xs ih => exact .kept (hrefl x) ih

/-- Histories compose. -/
theorem Grows.trans (htrans : ∀ {x y z}, R x y → R y z → R x z) (hxy : Grows R xs ys)
    (hyz : Grows R ys zs) : Grows R xs zs := by
  induction hxy generalizing zs with
  | appended => exact .appended zs
  | kept hrow _ ih =>
      cases hyz with
      | kept hrow' hrest => exact .kept (htrans hrow hrow') (ih hrest)

/-- An insert appends. -/
theorem Grows.append (hrefl : ∀ x, R x x) (xs new : List α) : Grows R xs (xs ++ new) := by
  induction xs with
  | nil => exact .appended new
  | cons x xs ih => exact .kept (hrefl x) ih

/-- An update rewrites each row where it is. -/
theorem Grows.map {f : α → α} (hf : ∀ x ∈ xs, R x (f x)) : Grows R xs (xs.map f) := by
  induction xs with
  | nil => exact .appended []
  | cons x xs ih =>
      refine .kept (hf x List.mem_cons_self) ?_
      exact ih fun y hy => hf y (List.mem_cons_of_mem x hy)

/-- A row that was there is still there, as what it became. -/
theorem Grows.exists_of_mem (h : Grows R xs ys) {x : α} (hx : x ∈ xs) : ∃ y ∈ ys, R x y := by
  induction h with
  | appended => contradiction
  | @kept x' y' xs' ys' hrow _ ih =>
      rcases List.mem_cons.mp hx with rfl | hx
      · exact ⟨y', List.mem_cons_self, hrow⟩
      · obtain ⟨y, hy, hxy⟩ := ih hx
        exact ⟨y, List.mem_cons_of_mem y' hy, hxy⟩

/-- Without new rows, every row comes from one that was there. -/
theorem Grows.exists_of_length_eq (h : Grows R xs ys) (hlength : ys.length = xs.length) {y : α}
    (hy : y ∈ ys) : ∃ x ∈ xs, R x y := by
  induction h with
  | appended ys =>
      rw [List.length_nil, List.length_eq_zero_iff] at hlength
      subst hlength
      contradiction
  | @kept x' y' xs' ys' hrow _ ih =>
      rcases List.mem_cons.mp hy with rfl | hy
      · exact ⟨x', List.mem_cons_self, hrow⟩
      · obtain ⟨x, hx, hxy⟩ := ih (Nat.succ.inj hlength) hy
        exact ⟨x, List.mem_cons_of_mem x' hx, hxy⟩

/-- The rows keep their places. -/
theorem Grows.getElem? (h : Grows R xs ys) {n : Nat} {x : α} (hx : xs[n]? = some x) :
    ∃ y, ys[n]? = some y ∧ R x y := by
  induction h generalizing n with
  | appended => simp at hx
  | @kept x' y' xs' ys' hrow _ ih =>
      cases n with
      | zero =>
          obtain rfl : x' = x := by simpa using hx
          exact ⟨y', rfl, hrow⟩
      | succ n =>
          rw [List.getElem?_cons_succ] at hx
          exact ih hx

/-- Rows only become more. -/
theorem Grows.length_le (h : Grows R xs ys) : xs.length ≤ ys.length := by
  induction h with
  | appended => exact Nat.zero_le _
  | kept _ _ ih => exact Nat.succ_le_succ ih

end GrowingRows
end BettingPlatform
