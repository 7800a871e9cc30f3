import Mathlib.Tactic
import Mathlib.Data.List.Basic

/-!
# The cheapest items first

An ordered multiset is a list whose items stand by size; a new item goes behind
the items of its own size.  The first `k` items of such a list cost no more
than any `k` items of it.
-/

namespace StellarCore.Lib

variable {α β : Type}

/-- `std::multiset::emplace` under a comparison of sizes. -/
def emplace (size : α → ℕ) (item : α) : List α → List α
  | [] => [item]
  | other :: rest =>
      if size item < size other then item :: other :: rest
      else other :: emplace size item rest

def emplaceAll (size : α → ℕ) (items : List α) (set : List α) : List α :=
  items.foldl (fun set item => emplace size item set) set

theorem emplace_perm (size : α → ℕ) (item : α) (set : List α) :
    (emplace size item set).Perm (item :: set) := by
  induction set with
  | nil => rfl
  | cons other rest ih =>
      unfold emplace
      split
      · rfl
      · exact (ih.cons other).trans (List.Perm.swap item other rest)

theorem emplaceAll_perm (size : α → ℕ) (items set : List α) :
    (emplaceAll size items set).Perm (items ++ set) := by
  induction items generalizing set with
  | nil => rfl
  | cons item items ih =>
      have inserted := (emplace_perm size item set).append_left items
      exact (ih _).trans (inserted.trans List.perm_middle)

/-- The items stand by size. -/
def BySize (size : α → ℕ) (set : List α) : Prop :=
  set.Pairwise (fun first second => size first ≤ size second)

theorem bySize_emplace {size : α → ℕ} {set : List α}
    (sorted : BySize size set) (item : α) :
    BySize size (emplace size item set) := by
  induction set with
  | nil => exact List.pairwise_singleton _ _
  | cons other rest ih =>
      have ⟨first, later⟩ := List.pairwise_cons.mp sorted
      unfold emplace
      split
      next smaller =>
        apply List.pairwise_cons.mpr
        refine ⟨?_, sorted⟩
        intro next member
        rcases List.mem_cons.mp member with rfl | member
        · exact smaller.le
        · exact smaller.le.trans (first next member)
      next notSmaller =>
        apply List.pairwise_cons.mpr
        refine ⟨?_, ih later⟩
        intro next member
        rcases List.mem_cons.mp ((emplace_perm size item rest).mem_iff.mp
          member) with rfl | member
        · exact not_lt.mp notSmaller
        · exact first next member

theorem bySize_emplaceAll {size : α → ℕ} {set : List α}
    (sorted : BySize size set) (items : List α) :
    BySize size (emplaceAll size items set) := by
  induction items generalizing set with
  | nil => exact sorted
  | cons item items ih => exact ih (bySize_emplace sorted item)

theorem map_emplace (size : β → ℕ) (change : α → β) (item : α)
    (set : List α) :
    (emplace (fun item => size (change item)) item set).map change =
      emplace size (change item) (set.map change) := by
  induction set with
  | nil => rfl
  | cons other rest ih =>
      simp only [emplace, List.map_cons]
      split
      · rfl
      · rw [List.map_cons, ih]

theorem map_emplaceAll (size : β → ℕ) (change : α → β) (items set : List α) :
    (emplaceAll (fun item => size (change item)) items set).map change =
      emplaceAll size (items.map change) (set.map change) := by
  induction items generalizing set with
  | nil => rfl
  | cons item items ih =>
      have next := ih (emplace (fun item => size (change item)) item set)
      rw [map_emplace] at next
      exact next

/-! ## Prefixes -/

theorem sum_take_cons_le {cost : ℕ} {costs : List ℕ} {k : ℕ}
    (least : ∀ other ∈ costs, cost ≤ other) (enough : k ≤ costs.length) :
    ((cost :: costs).take k).sum ≤ (costs.take k).sum := by
  cases k with
  | zero => simp
  | succ k =>
      rw [List.take_succ_cons, List.sum_cons,
        List.take_succ_eq_append_getElem (by omega), List.sum_append]
      have bound := least costs[k] (List.getElem_mem _)
      simp only [List.sum_cons, List.sum_nil]
      omega

theorem sum_take_le_of_sublist {costs chosen : List ℕ} {k : ℕ}
    (sorted : costs.Pairwise (· ≤ ·)) (sublist : chosen.Sublist costs)
    (enough : k ≤ chosen.length) : (costs.take k).sum ≤ chosen.sum := by
  induction sublist generalizing k with
  | slnil => simp
  | cons cost sublist ih =>
      have ⟨least, later⟩ := List.pairwise_cons.mp sorted
      have dropped := sum_take_cons_le least
        (enough.trans sublist.length_le)
      exact dropped.trans (ih later enough)
  | cons_cons cost sublist ih =>
      have ⟨_, later⟩ := List.pairwise_cons.mp sorted
      cases k with
      | zero => simp
      | succ k =>
          rw [List.take_succ_cons, List.sum_cons, List.sum_cons]
          have rest := ih later (Nat.le_of_succ_le_succ enough)
          omega

/-- Any `k` of the costs sum up to at least the first `k` of them. -/
theorem sum_take_le {costs chosen : List ℕ} {k : ℕ}
    (sorted : costs.Pairwise (· ≤ ·)) (among : chosen.Subperm costs)
    (enough : k ≤ chosen.length) : (costs.take k).sum ≤ chosen.sum := by
  obtain ⟨ordered, same, sublist⟩ := among
  rw [← same.sum_eq]
  apply sum_take_le_of_sublist sorted sublist
  rw [same.length_eq]
  exact enough

end StellarCore.Lib
