import Mathlib.Data.Option.Basic
import Mathlib.Logic.Function.Basic

/-!
# Stores whose keys expire

A key-value store in which a key may carry a deadline.  The operations are those of Redis:
`SET` with `EX`, `SET` with `NX` and `EX`, `GET`, `DEL`, `INCR` and `EXPIRE`.  A key whose
deadline is over is removed by the store itself, in a step of its own.

Main results:

- Theorems `get_setEx`, `get_delete` and `get_expire`: a lookup after a write.
- Theorems `count_delete`, `count_expire` and `count_incr`: a counter after a write.
- Theorem `setNxEx_eq_some_iff`: a conditional write succeeds exactly on an absent key.
-/

namespace BettingPlatform

universe u v

/-- A value with the time at which its key is over, if it has one. -/
structure Expiring (β : Type v) where
  value : β
  deadline : Option Nat
deriving DecidableEq

/-- The keys of the store with their entries. -/
structure ExpiringStore (κ : Type u) (β : Type v) where
  entry : κ → Option (Expiring β)

namespace ExpiringStore

variable {κ : Type u} {β : Type v}

/-- A store without keys. -/
def empty : ExpiringStore κ β := ⟨fun _ => none⟩

/-- `GET`. -/
def get (s : ExpiringStore κ β) (k : κ) : Option β :=
  (s.entry k).map Expiring.value

@[simp]
theorem get_empty (k : κ) : (empty : ExpiringStore κ β).get k = none :=
  rfl

variable [DecidableEq κ]

/-- `SET key value EX ttl`. -/
def setEx (s : ExpiringStore κ β) (now ttl : Nat) (k : κ) (value : β) : ExpiringStore κ β :=
  ⟨Function.update s.entry k (some { value := value, deadline := some (now + ttl) })⟩

/-- `SET key value NX EX ttl`; `none` when the key is there. -/
def setNxEx (s : ExpiringStore κ β) (now ttl : Nat) (k : κ) (value : β) :
    Option (ExpiringStore κ β) :=
  if (s.entry k).isSome then none else some (s.setEx now ttl k value)

/-- `DEL key`, and what the store does to a key whose deadline is over. -/
def delete (s : ExpiringStore κ β) (k : κ) : ExpiringStore κ β :=
  ⟨Function.update s.entry k none⟩

/-- `EXPIRE key ttl`; nothing happens when the key is not there. -/
def expire (s : ExpiringStore κ β) (now ttl : Nat) (k : κ) : ExpiringStore κ β :=
  ⟨Function.update s.entry k
    ((s.entry k).map fun entry => { entry with deadline := some (now + ttl) })⟩

/-- The value of a counter; an absent key counts as 0. -/
def count (s : ExpiringStore κ Nat) (k : κ) : Nat :=
  (s.get k).getD 0

/-- `INCR key`; a new counter has no deadline, an old one keeps its own. -/
def incr (s : ExpiringStore κ Nat) (k : κ) : ExpiringStore κ Nat :=
  ⟨Function.update s.entry k
    (some { value := s.count k + 1, deadline := (s.entry k).bind Expiring.deadline })⟩

/-- The key is there, and its deadline is over. -/
def Elapsed (s : ExpiringStore κ β) (now : Nat) (k : κ) : Prop :=
  ∃ deadline ∈ (s.entry k).bind Expiring.deadline, deadline ≤ now

section Lookup

variable (s : ExpiringStore κ β) (now ttl : Nat) (k l : κ) (value : β)

/-- A value that is set is read under its key. -/
@[simp]
theorem get_setEx : (s.setEx now ttl k value).get l = if l = k then some value else s.get l := by
  by_cases h : l = k
  · subst h
    simp [get, setEx]
  · simp [get, setEx, h]

/-- A deleted key has no value. -/
@[simp]
theorem get_delete : (s.delete k).get l = if l = k then none else s.get l := by
  by_cases h : l = k
  · subst h
    simp [get, delete]
  · simp [get, delete, h]

/-- A new deadline changes no value. -/
@[simp]
theorem get_expire : (s.expire now ttl k).get l = s.get l := by
  by_cases h : l = k
  · subst h
    simp [get, expire, Function.comp_def]
  · simp [get, expire, h]

/-- A conditional write succeeds exactly on an absent key. -/
theorem setNxEx_eq_some_iff {s' : ExpiringStore κ β} :
    s.setNxEx now ttl k value = some s' ↔ s.get k = none ∧ s' = s.setEx now ttl k value := by
  unfold setNxEx get
  cases s.entry k with
  | none => simp [eq_comm]
  | some entry => simp

end Lookup

section Counter

variable (s : ExpiringStore κ Nat) (now ttl : Nat) (k l : κ)

/-- A deleted counter starts again. -/
@[simp]
theorem count_delete : (s.delete k).count l = if l = k then 0 else s.count l := by
  unfold count
  rw [get_delete]
  split <;> rfl

/-- A deadline changes no counter. -/
@[simp]
theorem count_expire : (s.expire now ttl k).count l = s.count l := by
  simp [count]

/-- An increment counts once. -/
@[simp]
theorem count_incr : (s.incr k).count l = if l = k then s.count k + 1 else s.count l := by
  by_cases h : l = k
  · subst h
    simp [count, get, incr]
  · simp [count, get, incr, h]

end Counter

end ExpiringStore
end BettingPlatform
