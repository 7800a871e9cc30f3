import Mathlib.Tactic
import Mathlib.Data.Fin.Basic

/-!
# Counting down to a threshold

A threshold is checked by walking over a list of hits, decreasing a counter
at each hit and stopping as soon as the counter is used up.  Over a machine
word the counter wraps, so the walk started at zero needs a full turn of the
word; over the integers a start at or below zero is used up by the first hit.
-/

namespace StellarCore.Lib

/-- Decrease `left` at every hit; succeed when it is used up after a hit. -/
def countDown {α : Type} [Sub α] [One α] [Zero α] [LE α]
    [DecidableLE α] : α → List Bool → Bool
  | _, [] => false
  | left, hit :: hits =>
      if hit then
        if left - 1 ≤ 0 then true else countDown (left - 1) hits
      else
        countDown left hits

/-- The number of hits that use up a counter over a word of `size` values. -/
def hitsNeeded {size : Nat} [NeZero size] (left : Fin size) : Nat :=
  if left = 0 then size else left.val

section Word

variable {size : Nat} [NeZero size]

theorem hitsNeeded_pos (left : Fin size) : 0 < hitsNeeded left := by
  unfold hitsNeeded
  split
  · exact Nat.pos_of_neZero size
  · rename_i nonzero
    exact Fin.pos_iff_ne_zero.mpr nonzero

private theorem hitsNeeded_pred (large : 1 < size) {left : Fin size}
    (notDone : left - 1 ≠ 0) :
    hitsNeeded left = hitsNeeded (left - 1) + 1 := by
  have oneVal : (1 : Fin size).val = 1 := by
    rw [Fin.val_one', Nat.mod_eq_of_lt large]
  by_cases zero : left = 0
  · subst zero
    have wrapped : (0 - 1 : Fin size).val = size - 1 := by
      rw [Fin.sub_def]
      simp only [oneVal, Fin.val_zero, Nat.add_zero]
      exact Nat.mod_eq_of_lt (by omega)
    simp only [hitsNeeded, if_true, if_neg notDone, wrapped]
    omega
  · have positive : 0 < left.val := Fin.pos_iff_ne_zero.mpr zero
    have previous : (left - 1).val = left.val - 1 := by
      rw [Fin.sub_val_of_le (by rw [Fin.le_def, oneVal]; exact positive),
        oneVal]
    simp only [hitsNeeded, if_neg zero, if_neg notDone, previous]
    omega

theorem countDown_word_iff (large : 1 < size) (left : Fin size)
    (hits : List Bool) :
    countDown left hits = true ↔ hitsNeeded left ≤ hits.count true := by
  induction hits generalizing left with
  | nil =>
      have positive := hitsNeeded_pos left
      simp only [countDown, List.count_nil]
      constructor
      · intro impossible
        cases impossible
      · intro bound
        omega
  | cons hit hits ih =>
      cases hit with
      | false => simpa [countDown] using ih left
      | true =>
          by_cases done : left - 1 = 0
          · have one : left = 1 := sub_eq_zero.mp done
            have oneNonzero : (1 : Fin size) ≠ 0 := by
              intro equality
              have values := congrArg Fin.val equality
              rw [Fin.val_one', Nat.mod_eq_of_lt large] at values
              simp at values
            subst one
            simp [countDown, hitsNeeded, oneNonzero, Nat.mod_eq_of_lt large]
          · have notBelow : ¬ left - 1 ≤ 0 := by
              simpa using done
            simp only [countDown, if_true, if_neg notBelow, ih,
              hitsNeeded_pred large done, List.count_cons_self]
            omega

end Word

theorem countDown_int_iff (left : Int) (hits : List Bool) :
    countDown left hits = true ↔
      0 < hits.count true ∧ left ≤ hits.count true := by
  induction hits generalizing left with
  | nil => simp [countDown]
  | cons hit hits ih =>
      cases hit with
      | false => simpa [countDown] using ih left
      | true =>
          by_cases done : left - 1 ≤ 0
          · simp only [countDown, if_true, if_pos done,
              List.count_cons_self, true_iff]
            omega
          · simp only [countDown, if_true, if_neg done, ih,
              List.count_cons_self]
            omega

/-- Two hit lists of one origin, the second with at least the hits of the
first. -/
theorem count_map_mono {ι : Type} {few many : ι → Bool} {items : List ι}
    (more : ∀ item ∈ items, few item = true → many item = true) :
    (items.map few).count true ≤ (items.map many).count true := by
  induction items with
  | nil => simp
  | cons item items ih =>
      have tail := ih (fun other member => more other (by simp [member]))
      have head := more item (by simp)
      cases fewHit : few item with
      | false =>
          simp only [List.map_cons, fewHit]
          exact tail.trans (List.count_le_count_cons ..)
      | true => simpa [fewHit, head fewHit] using tail

end StellarCore.Lib
