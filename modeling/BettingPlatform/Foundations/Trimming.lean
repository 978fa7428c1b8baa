import Mathlib.Data.List.DropRight

/-!
# Trimming a list on both sides

`trim p l` drops the items that satisfy `p` from both ends of `l`, as `str.strip` does with
whitespace.

Main results:

- Theorem `trim_append_cons`: what is left ends with the last item that does not satisfy `p`.
- Theorem `mem_trim_iff`: no item that does not satisfy `p` is lost.
-/

namespace BettingPlatform

universe u

variable {α : Type u} {p : α → Bool}

/-- The list without the items at its ends that satisfy `p`. -/
def trim (p : α → Bool) (l : List α) : List α :=
  (l.dropWhile p).rdropWhile p

/-- Every list satisfies `p` throughout or has a last item that does not. -/
theorem forall_or_last (l : List α) :
    (∀ c ∈ l, p c = true) ∨
      ∃ front d trail, l = front ++ d :: trail ∧ p d = false ∧ ∀ c ∈ trail, p c = true := by
  induction l with
  | nil => exact .inl (by simp)
  | cons a l ih =>
      rcases ih with hall | ⟨front, d, trail, rfl, hd, htrail⟩
      · cases ha : p a with
        | true => exact .inl (by simpa [ha] using hall)
        | false => exact .inr ⟨[], a, l, rfl, ha, hall⟩
      · exact .inr ⟨a :: front, d, trail, rfl, hd, htrail⟩

/-- A list of trimmed characters is trimmed to nothing. -/
theorem trim_of_forall {l : List α} (h : ∀ c ∈ l, p c = true) : trim p l = [] := by
  simp [trim, List.dropWhile_eq_nil_iff.mpr h]

/-- What is left ends with the last item that does not satisfy `p`. -/
theorem trim_append_cons {front trail : List α} {d : α} (hd : p d = false)
    (htrail : ∀ c ∈ trail, p c = true) :
    trim p (front ++ d :: trail) = front.dropWhile p ++ [d] := by
  have hfront : (front ++ d :: trail).dropWhile p = front.dropWhile p ++ d :: trail := by
    rw [List.dropWhile_append]
    split
    · rename_i hempty
      rw [List.isEmpty_iff.mp hempty, List.dropWhile_cons_of_neg (by simp [hd])]
      rfl
    · rfl
  have htail : ∀ c ∈ trail.reverse, p c = true := fun c hc => htrail c (List.mem_reverse.mp hc)
  rw [trim, hfront, List.rdropWhile, List.reverse_append, List.reverse_cons, List.append_assoc,
    List.dropWhile_append_of_pos htail, List.singleton_append,
    List.dropWhile_cons_of_neg (by simp [hd])]
  simp

/-- Nothing else is dropped. -/
theorem mem_dropWhile_iff {l : List α} {c : α} (hc : p c = false) :
    c ∈ l.dropWhile p ↔ c ∈ l := by
  refine ⟨fun h => (List.dropWhile_suffix p).subset h, fun h => ?_⟩
  rw [← List.takeWhile_append_dropWhile (p := p) (l := l), List.mem_append] at h
  rcases h with htaken | hleft
  · simp [List.mem_takeWhile_imp htaken] at hc
  · exact hleft

/-- No item that does not satisfy `p` is lost. -/
theorem mem_trim_iff {l : List α} {c : α} (hc : p c = false) : c ∈ trim p l ↔ c ∈ l := by
  rw [trim, List.rdropWhile, List.mem_reverse, mem_dropWhile_iff hc, List.mem_reverse,
    mem_dropWhile_iff hc]

end BettingPlatform
