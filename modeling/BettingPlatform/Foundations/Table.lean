import Mathlib.Data.List.Basic
import Mathlib.Data.List.Pairwise
import Mathlib.Data.List.Perm.Basic

/-!
# Tables with declared constraints

A table holds rows in the order of their insertion.  What a schema declares about a
row type is enforced by every write: the column types, the check constraints, and the
primary-key and unique columns, on which no two rows may agree.

Main results:

- Theorem `Table.insert_eq_ok_iff`: an insert succeeds exactly when the row is
  storable, passes the checks and clashes with no row of the table.
- Theorem `Table.update_eq_ok_iff`: an update succeeds exactly when every row it writes
  is storable and passes the checks.
- Theorems `Table.find_insert` and `Table.find_update`: a lookup by key after a write.
-/

namespace BettingPlatform

universe u v

/-- What a table declares about its rows. -/
class Schema (ρ : Type u) where
  /-- The column types can hold the row's values. -/
  Storable : ρ → Prop
  /-- The check constraints. -/
  Check : ρ → Prop
  /-- The rows agree on the primary key or on a unique column. -/
  Clash : ρ → ρ → Prop
  clash_symm : ∀ {r s}, Clash r s → Clash s r
  decStorable : DecidablePred Storable
  decCheck : DecidablePred Check
  decClash : DecidableRel Clash

attribute [reducible, instance] Schema.decStorable Schema.decCheck Schema.decClash

open Schema

/-- Why the server refuses a statement. -/
inductive SqlError
  /-- A value does not fit its column or parameter type. -/
  | dataError
  /-- A declared constraint would be violated. -/
  | integrityError
deriving DecidableEq, Repr

/-- A table whose rows meet their schema's constraints. -/
@[ext]
structure Table (ρ : Type u) [Schema ρ] where
  rows : List ρ
  checked : ∀ r ∈ rows, Storable r ∧ Check r
  distinct : rows.Pairwise fun r s => ¬ Clash r s

namespace Table

variable {ρ : Type u} [Schema ρ] {t t' : Table ρ} {r s : ρ}

/-- A table without rows. -/
def empty : Table ρ where
  rows := []
  checked := by simp
  distinct := .nil

/-- No row of the table clashes with `r`. -/
def Free (t : Table ρ) (r : ρ) : Prop :=
  ∀ s ∈ t.rows, ¬ Clash s r

instance : Decidable (t.Free r) :=
  inferInstanceAs (Decidable (∀ s ∈ t.rows, ¬ Clash s r))

/-- `INSERT` of one row. -/
def insert (t : Table ρ) (r : ρ) : Except SqlError (Table ρ) :=
  if hstorable : Storable r then
    if h : Check r ∧ t.Free r then
      .ok
        { rows := t.rows ++ [r]
          checked := by
            intro s hs
            rcases List.mem_append.mp hs with hs | hs
            · exact t.checked s hs
            · obtain rfl := List.mem_singleton.mp hs
              exact ⟨hstorable, h.1⟩
          distinct := by
            refine List.pairwise_append.mpr ⟨t.distinct, List.pairwise_singleton _ _, ?_⟩
            intro s hs s' hs'
            obtain rfl := List.mem_singleton.mp hs'
            exact h.2 s hs }
    else .error .integrityError
  else .error .dataError

/-- An insert succeeds exactly when the row is storable, passes the checks and clashes
with no row of the table; it appends the row. -/
theorem insert_eq_ok_iff :
    t.insert r = .ok t' ↔
      Storable r ∧ Check r ∧ t.Free r ∧ t'.rows = t.rows ++ [r] := by
  unfold insert
  split
  · rename_i hstorable
    split
    · rename_i h
      rw [Except.ok.injEq, Table.ext_iff]
      constructor
      · intro hrows
        exact ⟨hstorable, h.1, h.2, hrows.symm⟩
      · rintro ⟨-, -, -, hrows⟩
        exact hrows.symm
    · rename_i h
      constructor
      · intro hok
        contradiction
      · rintro ⟨-, hcheck, hfree, -⟩
        exact absurd ⟨hcheck, hfree⟩ h
  · rename_i hstorable
    constructor
    · intro hok
      contradiction
    · rintro ⟨h, -⟩
      exact absurd h hstorable

/-- An insert of a row that meets the constraints succeeds. -/
theorem exists_insert (hstorable : Storable r) (hcheck : Check r) (hfree : t.Free r) :
    ∃ t', t.insert r = .ok t' := by
  simp [insert, hstorable, hcheck, hfree]

/-- An insert of a storable row that clashes with another one is refused. -/
theorem insert_of_not_free (hstorable : Storable r) (hclash : ¬ t.Free r) :
    t.insert r = .error .integrityError := by
  simp [insert, hstorable, hclash]

theorem insert_rows (h : t.insert r = .ok t') : t'.rows = t.rows ++ [r] :=
  (insert_eq_ok_iff.mp h).2.2.2

/-- The rows that satisfy `p`, each replaced by what `f` makes of it. -/
def updatedRows (t : Table ρ) (p : ρ → Bool) (f : ρ → ρ) : List ρ :=
  t.rows.map fun r => if p r then f r else r

/-- `UPDATE ... WHERE` that leaves the keys alone. -/
def update (t : Table ρ) (p : ρ → Bool) (f : ρ → ρ)
    (hkeys : ∀ r s, Clash (f r) s ↔ Clash r s) : Except SqlError (Table ρ) :=
  if hstorable : ∀ r ∈ t.rows, p r → Storable (f r) then
    if hcheck : ∀ r ∈ t.rows, p r → Check (f r) then
      .ok
        { rows := t.updatedRows p f
          checked := by
            intro s hs
            obtain ⟨r, hr, rfl⟩ := List.mem_map.mp hs
            split
            · rename_i hp
              exact ⟨hstorable r hr hp, hcheck r hr hp⟩
            · exact t.checked r hr
          distinct := by
            have hkeys' : ∀ r s, Clash r (f s) ↔ Clash r s := fun r s =>
              ⟨fun h => clash_symm ((hkeys s r).mp (clash_symm h)),
                fun h => clash_symm ((hkeys s r).mpr (clash_symm h))⟩
            refine List.pairwise_map.mpr (t.distinct.imp ?_)
            intro r s hclash
            split <;> split <;> simpa [hkeys, hkeys'] using hclash }
    else .error .integrityError
  else .error .dataError

/-- An update succeeds exactly when every row it writes is storable and passes the
checks. -/
theorem update_eq_ok_iff {p : ρ → Bool} {f : ρ → ρ}
    {hkeys : ∀ r s, Clash (f r) s ↔ Clash r s} :
    t.update p f hkeys = .ok t' ↔
      (∀ r ∈ t.rows, p r → Storable (f r) ∧ Check (f r)) ∧ t'.rows = t.updatedRows p f := by
  unfold update
  split
  · rename_i hstorable
    split
    · rename_i hcheck
      rw [Except.ok.injEq, Table.ext_iff]
      constructor
      · intro hrows
        exact ⟨fun r hr hp => ⟨hstorable r hr hp, hcheck r hr hp⟩, hrows.symm⟩
      · rintro ⟨-, hrows⟩
        exact hrows.symm
    · rename_i hcheck
      constructor
      · intro hok
        contradiction
      · rintro ⟨h, -⟩
        exact absurd (fun r hr hp => (h r hr hp).2) hcheck
  · rename_i hstorable
    constructor
    · intro hok
      contradiction
    · rintro ⟨h, -⟩
      exact absurd (fun r hr hp => (h r hr hp).1) hstorable

/-- An update whose rows meet the constraints succeeds. -/
theorem exists_update {p : ρ → Bool} {f : ρ → ρ} {hkeys : ∀ r s, Clash (f r) s ↔ Clash r s}
    (h : ∀ r ∈ t.rows, p r → Storable (f r) ∧ Check (f r)) : ∃ t', t.update p f hkeys = .ok t' := by
  have hstorable : ∀ r ∈ t.rows, p r → Storable (f r) := fun r hr hp => (h r hr hp).1
  have hcheck : ∀ r ∈ t.rows, p r → Check (f r) := fun r hr hp => (h r hr hp).2
  unfold update
  rw [dif_pos hstorable, dif_pos hcheck]
  exact ⟨_, rfl⟩

theorem update_rows {p : ρ → Bool} {f : ρ → ρ} {hkeys : ∀ r s, Clash (f r) s ↔ Clash r s}
    (h : t.update p f hkeys = .ok t') : t'.rows = t.updatedRows p f :=
  (update_eq_ok_iff.mp h).2

/-- Updates that write the same rows are the same. -/
theorem update_congr {p p' : ρ → Bool} {f f' : ρ → ρ} {hkeys : ∀ r s, Clash (f r) s ↔ Clash r s}
    {hkeys' : ∀ r s, Clash (f' r) s ↔ Clash r s}
    (hsame : ∀ r ∈ t.rows, p r = p' r ∧ (p r → f r = f' r))
    (h : t.update p f hkeys = .ok t') : t.update p' f' hkeys' = .ok t' := by
  obtain ⟨hchecked, hrows⟩ := update_eq_ok_iff.mp h
  refine update_eq_ok_iff.mpr ⟨fun r hr hp => ?_, ?_⟩
  · obtain ⟨hp', hf⟩ := hsame r hr
    rw [← hp'] at hp
    exact hf hp ▸ hchecked r hr hp
  · rw [hrows]
    refine List.map_congr_left fun r hr => ?_
    obtain ⟨hp', hf⟩ := hsame r hr
    rw [← hp']
    split
    · rename_i hp
      exact hf hp
    · rfl

/-- Rows that agree on the key or on a unique column are one row. -/
theorem eq_of_clash (hr : r ∈ t.rows) (hs : s ∈ t.rows) (hclash : Clash r s) : r = s := by
  by_contra hne
  rcases List.pairwise_iff_getElem.mp t.distinct with hpair
  obtain ⟨i, hi, rfl⟩ := List.mem_iff_getElem.mp hr
  obtain ⟨j, hj, rfl⟩ := List.mem_iff_getElem.mp hs
  rcases Nat.lt_trichotomy i j with hlt | rfl | hgt
  · exact hpair i j hi hj hlt hclash
  · exact hne rfl
  · exact hpair j i hj hi hgt (clash_symm hclash)

/-- The other rows before and behind a row do not clash with it. -/
theorem exists_split (hr : r ∈ t.rows) :
    ∃ before after, t.rows = before ++ r :: after ∧ (∀ s ∈ before, ¬ Clash s r) ∧
      ∀ s ∈ after, ¬ Clash s r := by
  obtain ⟨before, after, hsplit⟩ := List.append_of_mem hr
  have hdistinct := t.distinct
  rw [hsplit, List.pairwise_append, List.pairwise_cons] at hdistinct
  obtain ⟨-, ⟨hafter, -⟩, hbefore⟩ := hdistinct
  exact ⟨before, after, hsplit, fun s hs => hbefore s hs r List.mem_cons_self,
    fun s hs hclash => hafter s hs (clash_symm hclash)⟩

/-- A condition that changes for one row alone adds that row or nothing. -/
theorem filter_perm {p p' : ρ → Bool} (hr : r ∈ t.rows) (hp : p r = false)
    (hsame : ∀ s ∈ t.rows, ¬ Clash s r → p' s = p s) :
    (t.rows.filter p').Perm (t.rows.filter p ++ if p' r then [r] else []) := by
  obtain ⟨before, after, hsplit, hbefore, hafter⟩ := exists_split hr
  rw [hsplit] at hsame ⊢
  have hleft : before.filter p' = before.filter p :=
    List.filter_congr fun s hs => hsame s (by simp [hs]) (hbefore s hs)
  have hright : after.filter p' = after.filter p :=
    List.filter_congr fun s hs => hsame s (by simp [hs]) (hafter s hs)
  simp only [List.filter_append, List.filter_cons, hleft, hright, hp, Bool.false_eq_true, if_false]
  split
  · rw [List.append_assoc]
    exact List.Perm.append_left _ (List.perm_append_singleton r _).symm
  · rw [List.append_nil]

/-- No two rows have one key when rows with equal keys clash. -/
theorem nodup_key {κ : Type v} {key : ρ → κ} (hkey : ∀ r s, key r = key s → Clash r s) :
    (t.rows.map key).Nodup :=
  List.pairwise_map.mpr (t.distinct.imp fun hclash heq => hclash (hkey _ _ heq))

/-! ## Lookup by key -/

section Lookup

variable {κ : Type v} [DecidableEq κ] (key : ρ → κ)

/-- The first row with this key, and the only one when rows with equal keys clash. -/
def find (t : Table ρ) (k : κ) : Option ρ :=
  t.rows.find? fun r => key r = k

variable {key}

theorem find_eq_some {k : κ} (h : t.find key k = some r) : r ∈ t.rows ∧ key r = k :=
  ⟨List.mem_of_find?_eq_some h, by simpa using List.find?_some h⟩

/-- With a key on which no two rows agree, the lookup finds exactly the row with it. -/
theorem find_eq_some_iff (hkey : ∀ r s, key r = key s → Clash r s) {k : κ} :
    t.find key k = some r ↔ r ∈ t.rows ∧ key r = k := by
  constructor
  · exact find_eq_some
  · rintro ⟨hr, rfl⟩
    cases hfind : t.find key (key r) with
    | none =>
        have hno := List.find?_eq_none.mp hfind r hr
        simp at hno
    | some s =>
        obtain ⟨hs, hks⟩ := find_eq_some hfind
        rw [eq_of_clash hs hr (hkey s r hks)]

theorem find_eq_none_iff {k : κ} : t.find key k = none ↔ ∀ r ∈ t.rows, key r ≠ k := by
  simp [find, List.find?_eq_none]

/-- A lookup after an insert. -/
theorem find_insert (hkey : ∀ r s, key r = key s → Clash r s) (h : t.insert r = .ok t')
    (k : κ) : t'.find key k = if key r = k then some r else t.find key k := by
  obtain ⟨-, -, hfree, hrows⟩ := insert_eq_ok_iff.mp h
  unfold find
  rw [hrows, List.find?_append]
  split
  · rename_i hk
    have hnone : t.rows.find? (fun s => key s = k) = none := by
      rw [List.find?_eq_none]
      intro s hs hsk
      exact hfree s hs (hkey s r ((of_decide_eq_true hsk).trans hk.symm))
    simp [hnone, hk]
  · rename_i hk
    simp [hk]

/-- A lookup after an update that keeps the key. -/
theorem find_update {f : ρ → ρ} {hkeys : ∀ r s, Clash (f r) s ↔ Clash r s} {p : ρ → Bool}
    (h : t.update p f hkeys = .ok t') (hfix : ∀ r, key (f r) = key r) (k : κ) :
    t'.find key k = (t.find key k).map fun r => if p r then f r else r := by
  unfold find
  rw [update_rows h, updatedRows, List.find?_map]
  congr 2
  funext r
  simp only [Function.comp_apply]
  split <;> simp [hfix]

/-- The rows with a given key are the row the lookup finds. -/
theorem filter_key (hkey : ∀ r s, key r = key s → Clash r s) (k : κ) :
    (t.rows.filter fun r => key r = k) = (t.find key k).toList := by
  obtain ⟨rows, hchecked, hdistinct⟩ := t
  simp only [find]
  clear hchecked
  induction rows with
  | nil => rfl
  | cons r rows ih =>
      obtain ⟨hr, hrows⟩ := List.pairwise_cons.mp hdistinct
      by_cases hk : key r = k
      · have hnone : (rows.filter fun s => key s = k) = [] := by
          rw [List.filter_eq_nil_iff]
          intro s hs hsk
          exact hr s hs (hkey r s (hk.trans (of_decide_eq_true hsk).symm))
        simp [hk, hnone]
      · simpa [hk] using ih hrows

/-- Updating the one row with a given key changes the list of rows in one place. -/
theorem exists_split_update (key : ρ → κ) (hkey : ∀ r s, key r = key s → Clash r s)
    (hr : r ∈ t.rows)
    (f : ρ → ρ) :
    ∃ before after, t.rows = before ++ r :: after ∧
      (t.rows.map fun s => if key s = key r then f s else s) = before ++ f r :: after := by
  obtain ⟨before, after, hsplit, hbefore, hafter⟩ := exists_split hr
  refine ⟨before, after, hsplit, ?_⟩
  have hkeep : ∀ rows : List ρ, (∀ s ∈ rows, ¬ Clash s r) →
      (rows.map fun s => if key s = key r then f s else s) = rows := by
    intro rows hne
    conv_rhs => rw [← List.map_id rows]
    exact List.map_congr_left fun s hs => if_neg fun heq => hne s hs (hkey s r heq)
  rw [hsplit, List.map_append, List.map_cons, if_pos rfl, hkeep before hbefore, hkeep after hafter]

end Lookup

end Table
end BettingPlatform
