import Mathlib.Data.List.Induction

/-!
# Consumers of redelivered messages

A consumer folds its messages into a state, and a message may come again.  A consumer that
does not look for repeats is as good as one that skips them exactly as long as every repeat
leaves the state it meets unchanged.

Main results:

- Theorem `firsts_concat`: the first deliveries of a longer sequence.
- Theorem `agrees_iff_repeats_inert`: when folding all deliveries agrees, after each of
  them, with folding the first ones only.
-/

namespace BettingPlatform
namespace Redelivery

universe u v w

variable {σ : Type u} {α : Type v} {κ : Type w} [DecidableEq κ]

/-- The message's key has been delivered before. -/
def repeats (key : α → Option κ) (past : List α) (x : α) : Bool :=
  (key x).isSome && past.any fun y => key y = key x

/-- The deliveries that are no repeats, of those that follow `past`. -/
def firstsAfter (key : α → Option κ) (past : List α) : List α → List α
  | [] => []
  | x :: xs =>
      if repeats key past x then firstsAfter key (past ++ [x]) xs
      else x :: firstsAfter key (past ++ [x]) xs

/-- The deliveries that are no repeats. -/
def firsts (key : α → Option κ) (xs : List α) : List α :=
  firstsAfter key [] xs

/-- A further item counts unless its key was seen. -/
theorem firstsAfter_concat (key : α → Option κ) (past xs : List α) (x : α) :
    firstsAfter key past (xs ++ [x]) =
      firstsAfter key past xs ++ if repeats key (past ++ xs) x then [] else [x] := by
  induction xs generalizing past with
  | nil => simp only [List.nil_append, firstsAfter, List.append_nil]
  | cons y xs ih =>
      simp only [List.cons_append, firstsAfter, ih, List.append_assoc, List.nil_append]
      split <;> rfl

/-- The first deliveries of a longer sequence. -/
theorem firsts_concat (key : α → Option κ) (xs : List α) (x : α) :
    firsts key (xs ++ [x]) = firsts key xs ++ if repeats key xs x then [] else [x] :=
  firstsAfter_concat key [] xs x

/-- Folding all deliveries agrees, after each of them, with folding the first ones only,
exactly when every repeat leaves the state before it unchanged. -/
theorem agrees_iff_repeats_inert (step : σ → α → σ) (key : α → Option κ) (s : σ) (xs : List α) :
    (∀ past, past <+: xs → past.foldl step s = (firsts key past).foldl step s) ↔
      ∀ past x, past ++ [x] <+: xs → repeats key past x →
        step (past.foldl step s) x = past.foldl step s := by
  constructor
  · intro hagree past x hprefix hrepeat
    have hbefore := hagree past ((List.prefix_append past [x]).trans hprefix)
    have hafter := hagree (past ++ [x]) hprefix
    rw [firsts_concat, if_pos hrepeat, List.append_nil, ← hbefore, List.foldl_append] at hafter
    exact hafter
  · intro hinert past
    induction past using List.reverseRecOn with
    | nil => exact fun _ => rfl
    | append_singleton past x ih =>
        intro hprefix
        have hbefore := ih ((List.prefix_append past [x]).trans hprefix)
        rw [firsts_concat, List.foldl_append]
        by_cases hrepeat : repeats key past x
        · rw [if_pos hrepeat, List.append_nil, ← hbefore]
          exact hinert past x hprefix hrepeat
        · rw [if_neg hrepeat, List.foldl_append, hbefore]

end Redelivery
end BettingPlatform
