import Mathlib.Tactic

/-!
# Shrinking a list until every member is supported

A list is filtered again and again by a test that looks at the whole current
list, until a pass removes nothing.  For a test that is monotone in the
members of the list, what is left is the largest part of the start in which
every member passes the test: it contains every self-supporting part.
-/

namespace StellarCore.Lib

variable {α : Type}

/-- Filter by `keep nodes` until a pass leaves the length unchanged, for at
most `passes` passes. -/
def stabilize (keep : List α → α → Bool) : Nat → List α → List α
  | 0, nodes => nodes
  | passes + 1, nodes =>
      if (nodes.filter (keep nodes)).length = nodes.length then
        nodes.filter (keep nodes)
      else stabilize keep passes (nodes.filter (keep nodes))

/-- More members support at least as many members. -/
def KeepMonotone (keep : List α → α → Bool) : Prop :=
  ∀ ⦃few many : List α⦄, few ⊆ many →
    ∀ node, keep few node = true → keep many node = true

variable {keep : List α → α → Bool}

theorem stabilize_subset (passes : Nat) (nodes : List α) :
    stabilize keep passes nodes ⊆ nodes := by
  induction passes generalizing nodes with
  | zero => exact List.Subset.refl nodes
  | succ passes ih =>
      unfold stabilize
      have filtered : nodes.filter (keep nodes) ⊆ nodes :=
        List.filter_sublist.subset
      split
      · exact filtered
      · exact List.Subset.trans (ih _) filtered

theorem filter_eq_self_of_length {test : α → Bool} {nodes : List α}
    (same : (nodes.filter test).length = nodes.length) :
    nodes.filter test = nodes :=
  List.Sublist.eq_of_length List.filter_sublist same

/-- With as many passes as members, every member of the result is kept. -/
theorem stabilize_supported {passes : Nat} {nodes : List α}
    (enough : nodes.length ≤ passes) :
    ∀ node ∈ stabilize keep passes nodes,
      keep (stabilize keep passes nodes) node = true := by
  induction passes generalizing nodes with
  | zero =>
      have empty : nodes = [] := List.length_eq_zero_iff.mp (by omega)
      subst empty
      intro node member
      exact absurd member List.not_mem_nil
  | succ passes ih =>
      unfold stabilize
      by_cases same :
          (nodes.filter (keep nodes)).length = nodes.length
      · rw [if_pos same, filter_eq_self_of_length same]
        intro node member
        rw [← filter_eq_self_of_length same] at member
        exact (List.mem_filter.mp member).2
      · rw [if_neg same]
        apply ih
        have shorter : (nodes.filter (keep nodes)).length ≤ nodes.length :=
          List.length_filter_le _ _
        omega

/-- As many passes as members are enough: more do not change the result. -/
theorem stabilize_of_le {passes more : Nat} {nodes : List α}
    (enough : nodes.length ≤ passes) (enoughMore : nodes.length ≤ more) :
    stabilize keep more nodes = stabilize keep passes nodes := by
  induction passes generalizing more nodes with
  | zero =>
      have empty : nodes = [] := List.length_eq_zero_iff.mp (by omega)
      subst empty
      cases more with
      | zero => rfl
      | succ more => simp [stabilize]
  | succ passes ih =>
      cases more with
      | zero =>
          have empty : nodes = [] := List.length_eq_zero_iff.mp (by omega)
          subst empty
          simp [stabilize]
      | succ more =>
          unfold stabilize
          split
          · rfl
          · have shorter :
                (nodes.filter (keep nodes)).length ≤ nodes.length :=
              List.length_filter_le _ _
            exact ih (by omega) (by omega)

/-- A self-supporting part of the start survives every pass. -/
theorem subset_stabilize (monotone : KeepMonotone keep)
    {part nodes : List α} (inside : part ⊆ nodes)
    (supported : ∀ node ∈ part, keep part node = true) (passes : Nat) :
    part ⊆ stabilize keep passes nodes := by
  induction passes generalizing nodes with
  | zero => exact inside
  | succ passes ih =>
      have survives : part ⊆ nodes.filter (keep nodes) := by
        intro node member
        refine List.mem_filter.mpr ⟨inside member, ?_⟩
        exact monotone inside node (supported node member)
      unfold stabilize
      split
      · exact survives
      · exact ih survives

end StellarCore.Lib
