import Mathlib.Tactic

/-!
# Sorting and ordered maps

`std::sort` leaves the order of equivalent elements open, so a sorter is any
function that permutes a list and orders it by the keys that are compared.
An ordered map is a list of keys and values with ascending keys.
-/

namespace StellarCore.Lib

structure Sorter where
  sort : {α : Type} → (α → α → Bool) → List α → List α
  perm : ∀ {α : Type} (less : α → α → Bool) (list : List α),
    (sort less list).Perm list
  sorted : ∀ {α κ : Type} [LinearOrder κ] (key : α → κ) (list : List α),
    (sort (fun first second => key first < key second) list).Pairwise
      (fun first second => key first ≤ key second)

namespace Sorter

/-- A sorter that is stable. -/
def insertion : Sorter where
  sort less list :=
    list.insertionSort (fun first second => less second first = false)
  perm less list := List.perm_insertionSort _ _
  sorted key list := by
    have total : Std.Total (fun first second =>
        decide (key second < key first) = false) := by
      constructor
      intro first second
      simpa using le_total (key first) (key second)
    have trans : IsTrans _ (fun first second =>
        decide (key second < key first) = false) := by
      constructor
      intro first second third ordered next
      simp only [decide_eq_false_iff_not, not_lt] at ordered next ⊢
      exact ordered.trans next
    have sorted := List.pairwise_insertionSort
      (fun first second => decide (key second < key first) = false) list
    apply sorted.imp
    intro first second ordered
    simpa using ordered

end Sorter

/-! ## Ordered maps -/

variable {κ ν : Type} [LinearOrder κ]

def upsert (key : κ) (change : Option ν → ν) : List (κ × ν) → List (κ × ν)
  | [] => [(key, change none)]
  | (other, value) :: rest =>
      if key < other then
        (key, change none) :: (other, value) :: rest
      else if key = other then
        (other, change (some value)) :: rest
      else
        (other, value) :: upsert key change rest

def Ascending (map : List (κ × ν)) : Prop :=
  map.Pairwise (fun first second => first.1 < second.1)

theorem Ascending.nodup {map : List (κ × ν)} (ascending : Ascending map) :
    (map.map Prod.fst).Nodup := by
  rw [List.Nodup, List.pairwise_map]
  exact ascending.imp ne_of_lt

theorem mem_upsert {key : κ} {change : Option ν → ν} {map : List (κ × ν)}
    {item : κ × ν} (member : item ∈ upsert key change map) :
    item.1 = key ∨ item ∈ map := by
  induction map with
  | nil =>
      left
      simpa [upsert] using congrArg Prod.fst (List.mem_singleton.mp member)
  | cons head rest ih =>
      obtain ⟨other, value⟩ := head
      unfold upsert at member
      split at member
      · rcases List.mem_cons.mp member with same | member
        · exact .inl (by rw [same])
        · exact .inr member
      · split at member
        next same =>
          rcases List.mem_cons.mp member with found | member
          · exact .inl (by rw [found, same])
          · exact .inr (List.mem_cons_of_mem _ member)
        next =>
          rcases List.mem_cons.mp member with found | member
          · exact .inr (by rw [found]; exact List.mem_cons_self)
          · rcases ih member with same | member
            · exact .inl same
            · exact .inr (List.mem_cons_of_mem _ member)

theorem ascending_upsert {key : κ} {change : Option ν → ν}
    {map : List (κ × ν)} (ascending : Ascending map) :
    Ascending (upsert key change map) := by
  induction map with
  | nil => exact List.pairwise_singleton _ _
  | cons head rest ih =>
      obtain ⟨other, value⟩ := head
      obtain ⟨first, later⟩ := List.pairwise_cons.mp ascending
      unfold upsert
      split
      next before =>
        apply List.pairwise_cons.mpr
        constructor
        · intro item member
          rcases List.mem_cons.mp member with found | member
          · rw [found]
            exact before
          · exact before.trans (first item member)
        · exact ascending
      next notBefore =>
        split
        next =>
          exact List.pairwise_cons.mpr ⟨first, later⟩
        next different =>
          apply List.pairwise_cons.mpr
          constructor
          · intro item member
            rcases mem_upsert member with same | member
            · rw [same]
              exact lt_of_le_of_ne (not_lt.mp notBefore) (Ne.symm different)
            · exact first item member
          · exact ih later

variable [BEq κ] [LawfulBEq κ]

theorem lookup_eq_none_of_lt {key : κ} {map : List (κ × ν)}
    (later : ∀ item ∈ map, key < item.1) :
    map.lookup key = none := by
  rw [List.lookup_eq_none_iff]
  intro item member
  simpa using (later item member).ne

theorem lookup_upsert {key asked : κ} {change : Option ν → ν}
    {map : List (κ × ν)} (ascending : Ascending map) :
    (upsert key change map).lookup asked =
      if asked = key then some (change (map.lookup key))
      else map.lookup asked := by
  induction map with
  | nil =>
      by_cases same : asked = key
      · simp [upsert, same]
      · have missed : (asked == key) = false := by
          simpa using same
        simp [upsert, List.lookup_cons, missed, same]
  | cons head rest ih =>
      obtain ⟨other, value⟩ := head
      have ⟨first, later⟩ := List.pairwise_cons.mp ascending
      unfold upsert
      split
      next before =>
        have absent : ((other, value) :: rest).lookup key = none := by
          apply lookup_eq_none_of_lt
          intro item member
          rcases List.mem_cons.mp member with found | member
          · rw [found]
            exact before
          · exact before.trans (first item member)
        by_cases same : asked = key
        · simp [same, absent]
        · have missed : (asked == key) = false := by
            simpa using same
          rw [List.lookup_cons, missed, if_neg same]
      next notBefore =>
        split
        next same =>
          subst same
          by_cases hit : asked = key
          · simp [hit]
          · have missed : (asked == key) = false := by
              simpa using hit
            simp [List.lookup_cons, missed, hit]
        next different =>
          have missedKey : (key == other) = false := by
            simpa using different
          by_cases hit : asked = other
          · have other : asked ≠ key := hit ▸ Ne.symm different
            simp [hit, Ne.symm different]
          · have missed : (asked == other) = false := by
              simpa using hit
            simp only [List.lookup_cons, missed, missedKey]
            exact ih later

end StellarCore.Lib
