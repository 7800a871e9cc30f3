import Mathlib.Tactic

/-!
# Registers that move to newer items only

A register holds at most one item and takes an item only if it is newer than
the one it holds.  Items of a source that issues them in increasing order may
then arrive in any order and any number of times: what the register holds
never goes back, and once it has held the last item it holds it for good.
-/

namespace StellarCore.Lib

variable {α : Type}

/-- A strict order on the good items. -/
structure NewerOn (newer : α → α → Bool) (good : α → Prop) : Prop where
  irreflexive : ∀ item, newer item item = false
  transitive : ∀ first second third, good first → good second →
    good third → newer first second = true → newer second third = true →
      newer first third = true

/-- What a register holds at two times, the first time being earlier. -/
def Forward (newer : α → α → Bool) (before after : Option α) : Prop :=
  ∀ old ∈ before, ∃ item ∈ after, item = old ∨ newer old item = true

section Register

variable {newer : α → α → Bool} {good : α → Prop}
  {before middle after : Option α}

theorem Forward.refl (register : Option α) :
    Forward newer register register :=
  fun old held => ⟨old, held, .inl rfl⟩

theorem Forward.trans (order : NewerOn newer good)
    (goodBefore : ∀ item ∈ before, good item)
    (goodMiddle : ∀ item ∈ middle, good item)
    (goodAfter : ∀ item ∈ after, good item)
    (first : Forward newer before middle)
    (second : Forward newer middle after) : Forward newer before after := by
  intro old held
  obtain ⟨between, heldBetween, moved⟩ := first old held
  obtain ⟨item, heldAfter, movedOn⟩ := second between heldBetween
  refine ⟨item, heldAfter, ?_⟩
  rcases moved with same | later
  · rw [← same]
    exact movedOn
  · rcases movedOn with same | further
    · rw [same]
      exact .inr later
    · exact .inr (order.transitive old between item (goodBefore old held)
        (goodMiddle between heldBetween) (goodAfter item heldAfter) later
        further)

/-- A register with an item of an increasing list that has held the last
item holds it still. -/
theorem Forward.eq_last (order : NewerOn newer good) {issued : List α}
    {last : α} (goodItems : ∀ item ∈ issued ++ [last], good item)
    (increasing : (issued ++ [last]).Pairwise
      (fun earlier later => newer earlier later = true))
    (fromIssued : ∀ item ∈ after, item ∈ issued ++ [last])
    (forward : Forward newer (some last) after) : after = some last := by
  obtain ⟨item, held, moved⟩ := forward last rfl
  rcases moved with same | later
  · rw [← same]
    exact held
  · rcases List.mem_append.mp (fromIssued item held) with early | final
    · have before : newer item last = true :=
        (List.pairwise_append.mp increasing).2.2 item early last
          (List.mem_singleton.mpr rfl)
      have goodItem := goodItems item (List.mem_append_left _ early)
      have goodLast := goodItems last (by simp)
      have loop := order.transitive item last item goodItem goodLast
        goodItem before later
      rw [order.irreflexive] at loop
      cases loop
    · rw [← List.mem_singleton.mp final]
      exact held

/-- Unless it is the last one, what the register holds is older. -/
theorem newer_of_ne_last {issued : List α} {last item : α}
    (increasing : (issued ++ [last]).Pairwise
      (fun earlier later => newer earlier later = true))
    (member : item ∈ issued ++ [last]) (differs : item ≠ last) :
    newer item last = true := by
  rcases List.mem_append.mp member with early | final
  · exact (List.pairwise_append.mp increasing).2.2 item early last
      (List.mem_singleton.mpr rfl)
  · exact absurd (List.mem_singleton.mp final) differs

end Register

end StellarCore.Lib
