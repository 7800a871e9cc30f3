import Mathlib.Tactic

/-!
# Tables with a primary key

The rows stand in the order in which they were inserted, with one row per
key.  `update` writes over the row of a key and does nothing when there is
none; `insert` adds a row and does nothing when the key has one already.
-/

namespace StellarCore.Lib

structure Table (κ ν : Type) where
  rows : List (κ × ν)
  distinct : (rows.map Prod.fst).Nodup

namespace Table

variable {κ ν : Type} [DecidableEq κ]

def empty : Table κ ν :=
  { rows := [], distinct := List.nodup_nil }

def find? (table : Table κ ν) (key : κ) : Option ν :=
  table.rows.lookup key

def contains (table : Table κ ν) (key : κ) : Bool :=
  (table.find? key).isSome

def overwrite (key : κ) (value : ν) (row : κ × ν) : κ × ν :=
  if row.1 = key then (row.1, value) else row

theorem fst_overwrite (key : κ) (value : ν) (row : κ × ν) :
    (overwrite key value row).1 = row.1 := by
  unfold overwrite
  split
  · rfl
  · rfl

theorem map_fst_overwrite (key : κ) (value : ν) (rows : List (κ × ν)) :
    (rows.map (overwrite key value)).map Prod.fst = rows.map Prod.fst := by
  rw [List.map_map]
  apply List.map_congr_left
  intro row _
  exact fst_overwrite key value row

def update (table : Table κ ν) (key : κ) (value : ν) : Table κ ν :=
  { rows := table.rows.map (overwrite key value)
    distinct := by
      rw [map_fst_overwrite]
      exact table.distinct }

theorem lookup_hit (row : κ × ν) (rows : List (κ × ν)) :
    (row :: rows).lookup row.1 = some row.2 :=
  List.lookup_cons_self

theorem lookup_miss {row : κ × ν} {rows : List (κ × ν)} {key : κ}
    (other : key ≠ row.1) :
    (row :: rows).lookup key = rows.lookup key := by
  have missed : (key == row.1) = false := by
    simpa using other
  rw [List.lookup_cons, missed]

theorem lookup_eq_none {rows : List (κ × ν)} {key : κ} :
    rows.lookup key = none ↔ key ∉ rows.map Prod.fst := by
  induction rows with
  | nil => simp
  | cons row rows ih =>
      by_cases same : key = row.1
      · subst same
        simp [lookup_hit]
      · rw [lookup_miss same, ih, List.map_cons, List.mem_cons]
        simp [same]

theorem find?_eq_none {table : Table κ ν} {key : κ} :
    table.find? key = none ↔ key ∉ table.rows.map Prod.fst :=
  lookup_eq_none

theorem lookup_eq_some {rows : List (κ × ν)} {key : κ} {value : ν}
    (distinct : (rows.map Prod.fst).Nodup) :
    rows.lookup key = some value ↔ (key, value) ∈ rows := by
  induction rows with
  | nil => simp
  | cons row rows ih =>
      rw [List.map_cons, List.nodup_cons] at distinct
      by_cases same : key = row.1
      · subst same
        have unlisted : (row.1, value) ∉ rows := by
          intro member
          exact distinct.1 (List.mem_map.mpr ⟨_, member, rfl⟩)
        rw [lookup_hit, List.mem_cons, or_iff_left unlisted,
          Option.some_inj, Prod.ext_iff]
        simp [eq_comm]
      · rw [lookup_miss same, ih distinct.2, List.mem_cons]
        constructor
        · exact .inr
        · rintro (found | member)
          · exact absurd (congrArg Prod.fst found) same
          · exact member

theorem find?_eq_some {table : Table κ ν} {key : κ} {value : ν} :
    table.find? key = some value ↔ (key, value) ∈ table.rows :=
  lookup_eq_some table.distinct

def insert (table : Table κ ν) (key : κ) (value : ν) : Table κ ν :=
  if absent : table.find? key = none then
    { rows := table.rows ++ [(key, value)]
      distinct := by
        rw [List.map_append]
        apply List.Nodup.append table.distinct (by simp)
        simpa using find?_eq_none.mp absent }
  else
    table

def erase (table : Table κ ν) (key : κ) : Table κ ν :=
  { rows := table.rows.filter (fun row => row.1 ≠ key)
    distinct := table.distinct.sublist (List.filter_sublist.map _) }

/-- Deletes the rows that do not pass. -/
def keep (table : Table κ ν) (passes : κ × ν → Bool) : Table κ ν :=
  { rows := table.rows.filter passes
    distinct := table.distinct.sublist (List.filter_sublist.map _) }

/-! ## Reading after writing -/

theorem lookup_overwrite {rows : List (κ × ν)} {key asked : κ} {value : ν} :
    (rows.map (overwrite key value)).lookup asked =
      if asked = key then (rows.lookup asked).map (fun _ => value)
      else rows.lookup asked := by
  induction rows with
  | nil => simp
  | cons row rows ih =>
      have kept := fst_overwrite key value row
      rw [List.map_cons]
      by_cases hit : asked = row.1
      · subst hit
        rw [← kept, lookup_hit, kept, lookup_hit]
        unfold overwrite
        split
        · rfl
        · rfl
      · rw [lookup_miss (kept ▸ hit), lookup_miss hit]
        exact ih

@[simp] theorem find?_update (table : Table κ ν) (key asked : κ) (value : ν) :
    (table.update key value).find? asked =
      if asked = key then (table.find? asked).map (fun _ => value)
      else table.find? asked :=
  lookup_overwrite

theorem find?_insert (table : Table κ ν) (key asked : κ) (value : ν) :
    (table.insert key value).find? asked =
      if asked = key ∧ table.find? key = none then some value
      else table.find? asked := by
  unfold insert
  by_cases absent : table.find? key = none
  · simp only [absent, ↓reduceDIte, and_true]
    unfold find? at absent ⊢
    by_cases same : asked = key
    · subst same
      simp [List.lookup_append, absent]
    · have missed : (asked == key) = false := by
        simpa using same
      simp [List.lookup_append, List.lookup_cons, missed, same]
  · simp [absent]

theorem lookup_filter {rows : List (κ × ν)} {key asked : κ} :
    (rows.filter (fun row => row.1 ≠ key)).lookup asked =
      if asked = key then none else rows.lookup asked := by
  induction rows with
  | nil => simp
  | cons row rows ih =>
      by_cases dropped : row.1 = key
      · rw [List.filter_cons_of_neg (by simpa using dropped), ih]
        by_cases same : asked = key
        · simp [same]
        · rw [lookup_miss (dropped ▸ same)]
      · rw [List.filter_cons_of_pos (by simpa using dropped)]
        by_cases hit : asked = row.1
        · subst hit
          rw [lookup_hit, lookup_hit, if_neg dropped]
        · rw [lookup_miss hit, lookup_miss hit]
          exact ih

@[simp] theorem find?_erase (table : Table κ ν) (key asked : κ) :
    (table.erase key).find? asked =
      if asked = key then none else table.find? asked :=
  lookup_filter

theorem rows_insert {table : Table κ ν} {key : κ} (value : ν)
    (absent : table.find? key = none) :
    (table.insert key value).rows = table.rows ++ [(key, value)] := by
  simp [insert, absent]

theorem mem_rows_erase {table : Table κ ν} {key : κ} {row : κ × ν} :
    row ∈ (table.erase key).rows ↔ row ∈ table.rows ∧ row.1 ≠ key := by
  simp [erase]

theorem contains_eq_true {table : Table κ ν} {key : κ} :
    table.contains key = true ↔ ∃ value, table.find? key = some value :=
  Option.isSome_iff_exists

theorem contains_update {table : Table κ ν} {key asked : κ} {value : ν} :
    (table.update key value).contains asked = table.contains asked := by
  unfold contains
  rw [find?_update]
  split
  · rw [Option.isSome_map]
  · rfl

/-! ## Counting rows -/

/-- The number of rows with a key. -/
def matching (table : Table κ ν) (key : κ) : ℕ :=
  (table.rows.map Prod.fst).count key

theorem matching_eq_one {table : Table κ ν} {key : κ}
    (found : table.find? key ≠ none) : table.matching key = 1 := by
  apply List.count_eq_one_of_mem table.distinct
  by_contra absent
  exact found (find?_eq_none.mpr absent)

theorem matching_eq_zero {table : Table κ ν} {key : κ}
    (absent : table.find? key = none) : table.matching key = 0 :=
  List.count_eq_zero_of_not_mem (find?_eq_none.mp absent)

/-! ## What holds of every row -/

def All (holds : κ → ν → Prop) (table : Table κ ν) : Prop :=
  ∀ row ∈ table.rows, holds row.1 row.2

section All

variable {holds : κ → ν → Prop} {table : Table κ ν} {key : κ} {value : ν}

theorem All.found (all : table.All holds)
    (found : table.find? key = some value) : holds key value :=
  all (key, value) (find?_eq_some.mp found)

theorem all_update
    (others : ∀ row ∈ table.rows, row.1 ≠ key → holds row.1 row.2)
    (new : table.contains key = true → holds key value) :
    (table.update key value).All holds := by
  intro row member
  obtain ⟨old, listed, rfl⟩ := List.mem_map.mp member
  unfold overwrite
  split
  case isTrue hit =>
      rw [hit]
      apply new
      rw [contains_eq_true]
      exact ⟨old.2, find?_eq_some.mpr (hit ▸ listed)⟩
  case isFalse other => exact others old listed other

theorem All.update (all : table.All holds)
    (new : table.contains key = true → holds key value) :
    (table.update key value).All holds :=
  all_update (fun row member _ => all row member) new

theorem All.insert (all : table.All holds) (new : holds key value) :
    (table.insert key value).All holds := by
  intro row member
  unfold Table.insert at member
  split at member
  case isTrue =>
      rcases List.mem_append.mp member with old | added
      · exact all row old
      · rw [List.mem_singleton] at added
        rw [added]
        exact new
  case isFalse => exact all row member

theorem All.erase (all : table.All holds) : (table.erase key).All holds :=
  fun row member => all row (mem_rows_erase.mp member).1

end All

/-! ## Sums over the rows -/

def sum (weight : κ → ν → ℤ) (table : Table κ ν) : ℤ :=
  (table.rows.map (fun row => weight row.1 row.2)).sum

omit [DecidableEq κ] in
theorem sum_nonneg {weight : κ → ν → ℤ} {table : Table κ ν}
    (nonneg : table.All (fun key value => 0 ≤ weight key value)) :
    0 ≤ table.sum weight := by
  apply List.sum_nonneg
  intro value member
  obtain ⟨row, listed, rfl⟩ := List.mem_map.mp member
  exact nonneg row listed

theorem le_sum {weight : κ → ν → ℤ} {table : Table κ ν} {key : κ} {value : ν}
    (nonneg : table.All (fun key value => 0 ≤ weight key value))
    (found : table.find? key = some value) :
    weight key value ≤ table.sum weight := by
  refine List.single_le_sum ?_ _
    (List.mem_map_of_mem (f := fun row : κ × ν => weight row.1 row.2)
      (find?_eq_some.mp found))
  intro value member
  obtain ⟨row, listed, rfl⟩ := List.mem_map.mp member
  exact nonneg row listed

theorem sum_overwrite_absent {weight : κ → ν → ℤ} {rows : List (κ × ν)}
    {key : κ} {value : ν} (absent : key ∉ rows.map Prod.fst) :
    ((rows.map (overwrite key value)).map
      (fun row => weight row.1 row.2)).sum =
      (rows.map (fun row => weight row.1 row.2)).sum := by
  congr 1
  rw [List.map_map]
  apply List.map_congr_left
  intro row member
  have other : row.1 ≠ key := by
    rintro rfl
    exact absent (List.mem_map_of_mem member)
  simp [overwrite, other]

theorem sum_overwrite {weight : κ → ν → ℤ} {rows : List (κ × ν)}
    {key : κ} {old value : ν} (distinct : (rows.map Prod.fst).Nodup)
    (found : rows.lookup key = some old) :
    ((rows.map (overwrite key value)).map
      (fun row => weight row.1 row.2)).sum =
      (rows.map (fun row => weight row.1 row.2)).sum -
        weight key old + weight key value := by
  induction rows with
  | nil => simp at found
  | cons row rows ih =>
      rw [List.map_cons, List.nodup_cons] at distinct
      by_cases hit : key = row.1
      · subst hit
        have oldRow : row.2 = old := by
          simpa [lookup_hit] using found
        simp only [List.map_cons, List.sum_cons,
          sum_overwrite_absent distinct.1]
        simp [overwrite, oldRow]
        ring
      · have other : ¬ row.1 = key := fun same => hit same.symm
        rw [lookup_miss hit] at found
        simp only [List.map_cons, List.sum_cons, ih distinct.2 found]
        simp [overwrite, other]
        ring

theorem sum_update {weight : κ → ν → ℤ} {table : Table κ ν} {key : κ}
    {old value : ν} (found : table.find? key = some old) :
    (table.update key value).sum weight =
      table.sum weight - weight key old + weight key value :=
  sum_overwrite table.distinct found

theorem sum_update_same {weight : κ → ν → ℤ} {table : Table κ ν} {key : κ}
    {value : ν}
    (same : ∀ old, table.find? key = some old →
      weight key value = weight key old) :
    (table.update key value).sum weight = table.sum weight := by
  cases found : table.find? key with
  | none => exact sum_overwrite_absent (find?_eq_none.mp found)
  | some old =>
      rw [sum_update found, same old found]
      omega

theorem sum_insert {weight : κ → ν → ℤ} {table : Table κ ν} {key : κ}
    {value : ν} (absent : table.find? key = none) :
    (table.insert key value).sum weight =
      table.sum weight + weight key value := by
  simp [sum, insert, absent]

theorem filter_absent {rows : List (κ × ν)} {key : κ}
    (absent : key ∉ rows.map Prod.fst) :
    rows.filter (fun row => row.1 ≠ key) = rows := by
  apply List.filter_eq_self.mpr
  intro row member
  have other : row.1 ≠ key := by
    rintro rfl
    exact absent (List.mem_map_of_mem member)
  simpa using other

theorem sum_filter {weight : κ → ν → ℤ} {rows : List (κ × ν)} {key : κ}
    {old : ν} (distinct : (rows.map Prod.fst).Nodup)
    (found : rows.lookup key = some old) :
    ((rows.filter (fun row => row.1 ≠ key)).map
      (fun row => weight row.1 row.2)).sum =
      (rows.map (fun row => weight row.1 row.2)).sum - weight key old := by
  induction rows with
  | nil => simp at found
  | cons row rows ih =>
      rw [List.map_cons, List.nodup_cons] at distinct
      by_cases hit : key = row.1
      · subst hit
        have oldRow : row.2 = old := by
          simpa [lookup_hit] using found
        rw [List.filter_cons_of_neg (by simp), filter_absent distinct.1]
        simp [oldRow]
      · have other : ¬ row.1 = key := fun same => hit same.symm
        rw [lookup_miss hit] at found
        rw [List.filter_cons_of_pos (by simpa using other)]
        simp only [List.map_cons, List.sum_cons, ih distinct.2 found]
        ring

theorem sum_erase {weight : κ → ν → ℤ} {table : Table κ ν} {key : κ}
    {old : ν} (found : table.find? key = some old) :
    (table.erase key).sum weight = table.sum weight - weight key old :=
  sum_filter table.distinct found

theorem add_le_sum {weight : κ → ν → ℤ} {table : Table κ ν}
    {key other : κ} {value value' : ν}
    (nonneg : table.All (fun key value => 0 ≤ weight key value))
    (found : table.find? key = some value)
    (found' : table.find? other = some value') (apart : other ≠ key) :
    weight key value + weight other value' ≤ table.sum weight := by
  have kept : (table.erase key).find? other = some value' := by
    rw [find?_erase, if_neg apart, found']
  have rest := le_sum nonneg.erase kept
  rw [sum_erase found] at rest
  omega

end Table

end StellarCore.Lib
