import Mathlib.Algebra.BigOperators.Group.List.Basic
import Mathlib.Data.List.Perm.Basic

/-!
# Accounts opened on first use

An account does not exist until an entry is posted to it.  The entry that finds it missing
opens it with an opening amount of its own; every entry then adds its amount.  So what the
account holds in the end depends on the order of the entries through the first one only.

Main results:

- Theorem `foldl_post_none`: the account holds the first entry's opening amount and the sum
  of all amounts.
- Theorem `foldl_post_eq_iff`: two orders of the same entries agree exactly when their first
  entries open the account with the same amount.
-/

namespace BettingPlatform
namespace FirstUse

universe u

variable {G : Type u} [AddCommMonoid G]

/-- What an entry brings: the amount it opens a missing account with, and what it adds. -/
structure Entry (G : Type u) where
  opening : G
  amount : G

/-- An entry is posted. -/
def post (account : Option G) (entry : Entry G) : Option G :=
  some (account.getD entry.opening + entry.amount)

/-- Behind the opening entry the amounts add up. -/
theorem foldl_post_some (entries : List (Entry G)) (balance : G) :
    entries.foldl post (some balance) = some (balance + (entries.map Entry.amount).sum) := by
  induction entries generalizing balance with
  | nil => simp
  | cons entry entries ih =>
      rw [List.foldl_cons, post, Option.getD_some, ih, List.map_cons, List.sum_cons, add_assoc]

/-- The first entry opens the account, and every entry adds its amount. -/
theorem foldl_post_none (entries : List (Entry G)) :
    entries.foldl post none =
      (entries.head?.map Entry.opening).map fun opening =>
        opening + (entries.map Entry.amount).sum := by
  cases entries with
  | nil => rfl
  | cons entry entries =>
      rw [List.foldl_cons, post, Option.getD_none, foldl_post_some, List.head?_cons,
        Option.map_some, Option.map_some, List.map_cons, List.sum_cons, add_assoc]

/-- Two orders of the same entries agree exactly when their first entries open the account
with the same amount. -/
theorem foldl_post_eq_iff [IsCancelAdd G] {entries entries' : List (Entry G)}
    (hperm : entries.Perm entries') :
    entries.foldl post none = entries'.foldl post none ↔
      entries.head?.map Entry.opening = entries'.head?.map Entry.opening := by
  have hsum : (entries.map Entry.amount).sum = (entries'.map Entry.amount).sum :=
    (hperm.map Entry.amount).sum_eq
  rw [foldl_post_none, foldl_post_none, hsum]
  exact (Option.map_injective fun _ _ heq => add_right_cancel heq).eq_iff

end FirstUse
end BettingPlatform
