import Mathlib.Data.List.AList

/-!
# Keyed folds

Items arrive one after another, each with a key, and a table keeps one value for each key:
an item replaces the value at its key by one made from the old value and the item.  What the
table holds at a key depends on the items with that key only, in their order.

Main results:

- Theorem `lookup_foldl_upsert`: the value at a key is a fold over the items with that key.
- Theorem `lookup_foldl_upsert_eq_some_iff`: it is made from the last of them and from what
  the earlier ones left.
-/

namespace BettingPlatform
namespace KeyedFold

universe u v w x

variable {α : Type u} {κ : Type v} {β : Type w} [DecidableEq κ]
  (key : α → κ) (make : Option β → α → β)

/-- An item replaces the value at its key. -/
def upsert (table : AList fun _ : κ => β) (item : α) : AList fun _ : κ => β :=
  table.insert (key item) (make (table.lookup (key item)) item)

variable {key make}

/-- An upsert writes its own key. -/
theorem lookup_upsert (table : AList fun _ : κ => β) (item : α) (k : κ) :
    (upsert key make table item).lookup k =
      if key item = k then some (make (table.lookup k) item) else table.lookup k := by
  unfold upsert
  split
  · rename_i hkey
    rw [hkey, AList.lookup_insert]
  · rename_i hkey
    exact AList.lookup_insert_ne (Ne.symm hkey)

/-- The value at a key is a fold over the items with that key. -/
theorem lookup_foldl_upsert (items : List α) (table : AList fun _ : κ => β) (k : κ) :
    (items.foldl (upsert key make) table).lookup k =
      (items.filter fun item => key item = k).foldl (fun old item => some (make old item))
        (table.lookup k) := by
  induction items generalizing table with
  | nil => rfl
  | cons item items ih =>
      rw [List.foldl_cons, ih, lookup_upsert, List.filter_cons]
      by_cases hkey : key item = k
      · simp [hkey]
      · simp [hkey]

/-- The value at a key is made from the last item with that key, and from what the earlier
ones left. -/
theorem lookup_foldl_upsert_eq_some_iff (items : List α) {k : κ} {value : β} :
    (items.foldl (upsert key make) ∅).lookup k = some value ↔
      ∃ earlier last, (items.filter fun item => key item = k) = earlier ++ [last] ∧
        value = make (earlier.foldl (fun old item => some (make old item)) none) last := by
  rw [lookup_foldl_upsert, AList.lookup_empty]
  rcases List.eq_nil_or_concat (items.filter fun item => key item = k) with hnil | ⟨xs, x, hxs⟩
  · simp [hnil]
  · rw [List.concat_eq_append] at hxs
    rw [hxs, List.foldl_append, List.foldl_cons, List.foldl_nil, Option.some.injEq]
    constructor
    · rintro rfl
      exact ⟨xs, x, rfl, rfl⟩
    · rintro ⟨earlier, last, hlast, rfl⟩
      obtain ⟨rfl, hx⟩ := List.append_inj' hlast rfl
      rw [List.singleton_inj.mp hx]

/-- The keys of the table are those of the items. -/
theorem mem_foldl_upsert (items : List α) {k : κ} :
    k ∈ items.foldl (upsert key make) ∅ ↔ k ∈ items.map key := by
  rw [← AList.lookup_isSome, Option.isSome_iff_exists]
  simp only [lookup_foldl_upsert_eq_some_iff, List.mem_map]
  constructor
  · rintro ⟨value, earlier, last, hlast, -⟩
    have hmem : last ∈ items.filter fun item => key item = k := by simp [hlast]
    exact ⟨last, List.mem_of_mem_filter hmem, by simpa using (List.mem_filter.mp hmem).2⟩
  · rintro ⟨item, hitem, rfl⟩
    have hmem : item ∈ items.filter fun other => key other = key item := by simp [hitem]
    rcases List.eq_nil_or_concat (items.filter fun other => key other = key item) with
      hnil | ⟨xs, x, hxs⟩
    · simp [hnil] at hmem
    · exact ⟨_, xs, x, by rw [hxs, List.concat_eq_append], rfl⟩

/-- A part of the value that only its last item decides. -/
theorem map_foldl_some {γ : Type x} {part : β → γ} {partOf : α → γ}
    (hpart : ∀ old item, part (make old item) = partOf item) (items : List α) :
    (items.foldl (fun old item => some (make old item)) none).map part =
      items.getLast?.map partOf := by
  rcases List.eq_nil_or_concat items with rfl | ⟨xs, x, rfl⟩
  · rfl
  · simp [hpart]

end KeyedFold
end BettingPlatform
