import StellarCore.Quorum.CompleteProducts

/-!
# When every slice is enumerated

A minimal slice takes a threshold of the entries of a quorum set, and a
minimal slice of each.  They are all enumerated if on every level at most one
of the chosen entries after the first has several.
-/

namespace StellarCore.Quorum

open StellarCore.Lib
open StellarCore.Scp
open Enumerator

/-! ## Products of values that are kept -/

section Columns

theorem length_columns {lists : List (List Bitset)}
    (some : ∀ values ∈ lists, values ≠ []) :
    (columns lists).length = turnCount (lists.map List.length) := by
  induction lists with
  | nil => rfl
  | cons values lists ih =>
      have rest := ih
        (fun other member => some other (List.mem_cons_of_mem values member))
      cases values with
      | nil => exact absurd rfl (some _ List.mem_cons_self)
      | cons v left =>
          rw [columns, List.length_cons] at rest
          rw [List.map_cons, turnCount_cons, ← rest]
          simp only [columns, List.map_cons, wheel, turns, List.length_cons,
            List.length_append, List.length_map]
          omega

theorem columns_eq_combined {lists : List (List Bitset)}
    (some : ∀ values ∈ lists, values ≠ [])
    (one : AtMostOneTurns (lists.map List.length)) :
    columns lists = combined lists := by
  induction lists with
  | nil => rfl
  | cons values lists ih =>
      have others : ∀ other ∈ lists, other ≠ [] :=
        fun other member => some other (List.mem_cons_of_mem values member)
      unfold AtMostOneTurns at one
      rw [List.map_cons, List.countP_cons] at one
      have rest := ih others (by unfold AtMostOneTurns; omega)
      rw [combined, ← rest]
      cases values with
      | nil => exact absurd rfl (some _ List.mem_cons_self)
      | cons v left =>
          have step : columns ((v :: left) :: lists) =
              (v :: left).map (· ||| current (lists.map wheel)) ++
                (turns (lists.map wheel)).map (final v left ||| ·) := rfl
          rw [step, columns, List.flatMap_cons]
          cases left with
          | nil =>
              have once : (turns (lists.map wheel)).map
                  (final v [] ||| ·) =
                    (turns (lists.map wheel)).flatMap
                      (fun c => [v].map (· ||| c)) := List.map_eq_flatMap
              rw [once]
          | cons w left =>
              have alone : (lists.map List.length).countP
                  (fun n => decide (1 < n)) = 0 := by
                simp only [List.length_cons] at one
                rw [if_pos (decide_eq_true (by omega))] at one
                omega
              have none : turns (lists.map wheel) = [] := by
                have length := length_columns others
                rw [columns, List.length_cons] at length
                rw [turnCount_eq_one alone] at length
                exact List.length_eq_zero_iff.mp (by omega)
              rw [none]
              rfl

end Columns

/-! ## Minimal slices -/

/-- A choice from each list of options. -/
def choices : List (List (List NodeID)) → List (List NodeID)
  | [] => [[]]
  | options :: rest =>
      (choices rest).flatMap (fun others => options.map (· ++ others))

mutual

/-- As many entries as the threshold says, and a minimal slice of each. -/
def minimalSlices : SCPQuorumSet → List (List NodeID)
  | ⟨threshold, validators, innerSets⟩ =>
      (combinations threshold.val
        (validators.length + innerSets.length)).flatMap (fun bits =>
          choices (pick bits (validators.map (fun validator =>
            [[validator]]) ++ innerSlices innerSets)))

def innerSlices : List SCPQuorumSet → List (List (List NodeID))
  | [] => []
  | inner :: innerSets => minimalSlices inner :: innerSlices innerSets

end

def Entry.slices : Entry → List (List NodeID)
  | .node nodeID => [[nodeID]]
  | .set qSet => minimalSlices qSet

/-- On every level, one at most of the chosen entries after the first has
several slices. -/
inductive SliceTurns : SCPQuorumSet → Prop
  | mk {qSet : SCPQuorumSet}
      (chosen : ∀ chosen : List Entry, chosen.Sublist (entries qSet) →
        chosen.length = qSet.threshold.val →
          AtMostOneTurns (chosen.tail.map (fun entry =>
            entry.slices.length)))
      (inner : ∀ inner ∈ qSet.innerSets, SliceTurns inner) :
      SliceTurns qSet

def Entry.SliceTurns : Entry → Prop
  | .node _ => True
  | .set qSet => Quorum.SliceTurns qSet

theorem innerSlices_eq_map (innerSets : List SCPQuorumSet) :
    innerSlices innerSets = innerSets.map minimalSlices := by
  induction innerSets with
  | nil => rfl
  | cons inner innerSets ih => rw [innerSlices, ih, List.map_cons]

theorem minimalSlices_eq (qSet : SCPQuorumSet) :
    minimalSlices qSet =
      (combinations qSet.threshold.val (entries qSet).length).flatMap
        (fun bits => choices ((pick bits (entries qSet)).map
          Entry.slices)) := by
  obtain ⟨threshold, validators, innerSets⟩ := qSet
  have all : (entries ⟨threshold, validators, innerSets⟩).map Entry.slices =
      validators.map (fun validator => [[validator]]) ++
        innerSlices innerSets := by
    rw [innerSlices_eq_map, entries, List.map_append, List.map_map,
      List.map_map]
    rfl
  rw [minimalSlices, ← all, entries, List.length_append, List.length_map,
    List.length_map]
  simp only [pick_map]

theorem length_choices (options : List (List (List NodeID))) :
    (choices options).length = (options.map List.length).prod := by
  induction options with
  | nil => rfl
  | cons first options ih =>
      rw [choices, List.length_flatMap, List.map_cons, List.prod_cons]
      simp only [List.length_map, List.map_const', List.sum_replicate, ih,
        smul_eq_mul]
      exact Nat.mul_comm _ _

theorem choices_bits {nodes : List NodeID}
    (options : List (List (List NodeID))) :
    (choices options).map (bitsOf nodes) =
      combined (options.map (List.map (bitsOf nodes))) := by
  induction options with
  | nil => rfl
  | cons first options ih =>
      rw [choices, List.map_flatMap, List.map_cons, combined, ← ih,
        List.flatMap_map]
      apply List.flatMap_congr
      intro others _
      rw [List.map_map, List.map_map]
      apply List.map_congr_left
      intro slice _
      exact bitsOf_append slice others

/-- Combinations of the same values, in another order. -/
theorem combined_perm {lists others : List (List Bitset)}
    (perm : List.Forall₂ List.Perm lists others) :
    (combined lists).Perm (combined others) := by
  induction perm with
  | nil => exact List.Perm.refl _
  | cons first _ ih =>
      rw [combined, combined]
      refine (ih.flatMap_right _).trans ?_
      exact List.Perm.flatMap_left _ (fun c _ => first.map _)

/-! ## How many slices are seen -/

/-- The values of an entry beside its minimal slices. -/
structure Counted (nodes : List NodeID) (entry : Entry) : Prop where
  some : entry.values nodes ≠ []
  le : (entry.values nodes).length ≤ entry.slices.length
  all : (entry.values nodes).length = entry.slices.length ↔
    entry.SliceTurns
  perm : entry.SliceTurns →
    (entry.values nodes).Perm (entry.slices.map (bitsOf nodes))

theorem counted_node (nodes : List NodeID) (nodeID : NodeID) :
    Counted nodes (.node nodeID) where
  some := List.cons_ne_nil _ _
  le := le_rfl
  all := ⟨fun _ => trivial, fun _ => rfl⟩
  perm := by
    intro _
    have same : (Entry.node nodeID).slices.map (bitsOf nodes) =
        (Entry.node nodeID).values nodes :=
      congrArg (fun bits => [bits]) (bitsOf_singleton nodeID)
    rw [same]

theorem mul_eq_mul_iff_of_le {a b c d : ℕ} (positive : 0 < a)
    (some : 0 < c) (first : a ≤ b) (second : c ≤ d) :
    a * c = b * d ↔ a = b ∧ c = d := by
  constructor
  · intro same
    have lower := Nat.mul_le_mul_left a second
    have upper := Nat.mul_le_mul_right d first
    have left : a * d = b * d := by omega
    have right : a * c = a * d := by omega
    exact ⟨Nat.eq_of_mul_eq_mul_right (some.trans_le second) left,
      Nat.eq_of_mul_eq_mul_left positive right⟩
  · rintro ⟨rfl, rfl⟩
    rfl

section Chosen

variable {nodes : List NodeID} {entry : Entry} {others : List Entry}

theorem Counted.values_pos (counted : Counted nodes entry) :
    0 < (entry.values nodes).length :=
  List.length_pos_of_ne_nil counted.some

/-- The number of turns is that of the minimal slices only if all of these
are seen. -/
theorem turnCount_counted
    (all : ∀ other ∈ others, Counted nodes other) :
    turnCount (others.map (fun other => (other.values nodes).length)) ≤
        (others.map (fun other => other.slices.length)).prod ∧
      (turnCount (others.map (fun other => (other.values nodes).length)) =
          (others.map (fun other => other.slices.length)).prod ↔
        (∀ other ∈ others, other.SliceTurns) ∧
          AtMostOneTurns (others.map (fun other =>
            other.slices.length))) := by
  have positive : ∀ n ∈ others.map (fun other => other.slices.length),
      0 < n := by
    intro n member
    obtain ⟨other, inside, rfl⟩ := List.mem_map.mp member
    exact (all other inside).values_pos.trans_le (all other inside).le
  have fewer : ∀ other ∈ others, (other.values nodes).length - 1 ≤
      other.slices.length - 1 :=
    fun other member => Nat.sub_le_sub_right (all other member).le 1
  have turns := turnCount_le_prod positive
  have sums := List.sum_le_sum fewer
  have sameSums := sum_map_eq_iff_of_le fewer
  have pointwise : (∀ other ∈ others, (other.values nodes).length - 1 =
      other.slices.length - 1) ↔ ∀ other ∈ others, other.SliceTurns := by
    refine forall₂_congr ?_
    intro other member
    have counted := all other member
    have some := counted.values_pos
    have le := counted.le
    rw [← counted.all]
    omega
  rw [← turnCount_eq_prod_iff positive, ← pointwise, ← sameSums]
  unfold turnCount at turns ⊢
  rw [List.map_map, List.map_map] at *
  simp only [Function.comp_def] at *
  omega

theorem length_productValues (all : ∀ other ∈ others,
    Counted nodes other) :
    (productValues ((entry :: others).map (Entry.values nodes))).length =
      (entry.values nodes).length * turnCount (others.map (fun other =>
        (other.values nodes).length)) := by
  have some : ∀ values ∈ others.map (Entry.values nodes), values ≠ [] := by
    intro values member
    obtain ⟨other, inside, rfl⟩ := List.mem_map.mp member
    exact (all other inside).some
  rw [List.map_cons, productValues, List.length_flatMap]
  simp only [List.length_map, List.map_const', List.sum_replicate,
    length_columns some, List.map_map, smul_eq_mul]
  exact Nat.mul_comm _ _

theorem chosen_counted (first : Counted nodes entry)
    (all : ∀ other ∈ others, Counted nodes other) :
    (productValues ((entry :: others).map (Entry.values nodes))).length ≤
        (choices ((entry :: others).map Entry.slices)).length ∧
      ((productValues ((entry :: others).map
            (Entry.values nodes))).length =
          (choices ((entry :: others).map Entry.slices)).length ↔
        (∀ other ∈ entry :: others, other.SliceTurns) ∧
          AtMostOneTurns (others.map (fun other =>
            other.slices.length))) := by
  obtain ⟨le, same⟩ := turnCount_counted all
  have combinations : (choices ((entry :: others).map Entry.slices)).length =
      entry.slices.length *
        (others.map (fun other => other.slices.length)).prod := by
    rw [length_choices, List.map_map, List.map_cons, List.prod_cons]
    rfl
  have some : 0 < turnCount (others.map (fun other =>
      (other.values nodes).length)) := Nat.succ_pos _
  rw [length_productValues all, combinations]
  refine ⟨Nat.mul_le_mul first.le le, ?_⟩
  rw [mul_eq_mul_iff_of_le first.values_pos some first.le le,
    first.all, same, List.forall_mem_cons, and_assoc]

theorem chosen_perm (first : Counted nodes entry)
    (all : ∀ other ∈ others, Counted nodes other)
    (turns : ∀ other ∈ entry :: others, other.SliceTurns)
    (one : AtMostOneTurns (others.map (fun other =>
      other.slices.length))) :
    (productValues ((entry :: others).map (Entry.values nodes))).Perm
      ((choices ((entry :: others).map Entry.slices)).map
        (bitsOf nodes)) := by
  have counted : ∀ other ∈ entry :: others, Counted nodes other :=
    List.forall_mem_cons.mpr ⟨first, all⟩
  have some : ∀ values ∈ others.map (Entry.values nodes), values ≠ [] := by
    intro values member
    obtain ⟨other, inside, rfl⟩ := List.mem_map.mp member
    exact (all other inside).some
  have lengths : (others.map (Entry.values nodes)).map List.length =
      others.map (fun other => other.slices.length) := by
    rw [List.map_map]
    apply List.map_congr_left
    intro other member
    exact (all other member).all.mpr
      (turns other (List.mem_cons_of_mem entry member))
  have complete : productValues ((entry :: others).map
      (Entry.values nodes)) =
        combined ((entry :: others).map (Entry.values nodes)) := by
    rw [List.map_cons, productValues, combined,
      columns_eq_combined some (lengths ▸ one)]
  rw [complete, choices_bits, List.map_map]
  apply combined_perm
  rw [List.forall₂_map_left_iff, List.forall₂_map_right_iff,
    List.forall₂_same]
  intro other member
  exact (counted other member).perm (turns other member)

end Chosen

/-- Every element is in some choice of a given size. -/
theorem exists_sublist_mem {α : Type} {xs : List α} {x : α} {k : ℕ}
    (member : x ∈ xs) (positive : 0 < k) (enough : k ≤ xs.length) :
    ∃ chosen : List α, chosen.Sublist xs ∧ chosen.length = k ∧
      x ∈ chosen := by
  obtain ⟨before, after, rfl⟩ := List.append_of_mem member
  rw [List.length_append, List.length_cons] at enough
  refine ⟨before.take (k - 1) ++
    x :: after.take (k - 1 - before.length), ?_, ?_, ?_⟩
  · exact (List.take_sublist _ _).append
      ((List.take_sublist _ _).cons_cons x)
  · rw [List.length_append, List.length_cons, List.length_take,
      List.length_take]
    omega
  · exact List.mem_append_right _ List.mem_cons_self

section Set

variable {nodes : List NodeID} {qSet : SCPQuorumSet}
  (positive : 0 < qSet.threshold.val)
  (enough : qSet.threshold.val ≤ (entries qSet).length)
  (few : (entries qSet).length < 64)
  (counted : ∀ entry ∈ entries qSet, Counted nodes entry)

/-- The chosen entries turn as they should. -/
def ChosenTurns (chosen : List Entry) : Prop :=
  (∀ entry ∈ chosen, entry.SliceTurns) ∧
    AtMostOneTurns (chosen.tail.map (fun entry => entry.slices.length))

include positive enough in
theorem sliceTurns_iff :
    SliceTurns qSet ↔
      ∀ bits ∈ combinations qSet.threshold.val (entries qSet).length,
        ChosenTurns (pick bits (entries qSet)) := by
  have inner : ∀ inner ∈ qSet.innerSets, Entry.set inner ∈ entries qSet :=
    fun inner member => List.mem_append_right _ (List.mem_map_of_mem member)
  constructor
  · intro turns bits member
    obtain ⟨sublist, count⟩ := mem_pick_combinations.mp ⟨bits, member, rfl⟩
    cases turns with
    | mk chosen others =>
        refine ⟨?_, chosen _ sublist count⟩
        intro entry picked
        have inside := sublist.subset picked
        rw [entries, List.mem_append, List.mem_map, List.mem_map] at inside
        rcases inside with ⟨validator, _, rfl⟩ | ⟨set, place, rfl⟩
        · trivial
        · exact others set place
  · intro all
    constructor
    · intro chosen sublist count
      obtain ⟨bits, member, rfl⟩ :=
        mem_pick_combinations.mpr ⟨sublist, count⟩
      exact (all bits member).2
    · intro set place
      obtain ⟨chosen, sublist, count, picked⟩ :=
        exists_sublist_mem (inner set place) positive enough
      obtain ⟨bits, member, rfl⟩ :=
        mem_pick_combinations.mpr ⟨sublist, count⟩
      exact (all bits member).1 _ picked

include positive counted in
/-- What is picked has a first entry. -/
theorem pick_counted {bits : ℕ}
    (member : bits ∈ combinations qSet.threshold.val
      (entries qSet).length) :
    ∃ entry others, pick bits (entries qSet) = entry :: others ∧
      Counted nodes entry ∧ ∀ other ∈ others, Counted nodes other := by
  obtain ⟨sublist, count⟩ := mem_pick_combinations.mp ⟨bits, member, rfl⟩
  cases picked : pick bits (entries qSet) with
  | nil =>
      rw [picked, List.length_nil] at count
      omega
  | cons entry others =>
      rw [picked] at sublist
      have all : ∀ other ∈ entry :: others, Counted nodes other :=
        fun other inside => counted other (sublist.subset inside)
      exact ⟨entry, others, rfl, List.forall_mem_cons.mp all⟩

include positive enough few counted in
theorem counted_set (described : Described nodes (.set qSet)) :
    Counted nodes (.set qSet) := by
  have values : (Entry.set qSet).values nodes =
      (combinations qSet.threshold.val (entries qSet).length).flatMap
        (fun bits => productValues
          ((pick bits (entries qSet)).map (Entry.values nodes))) :=
    qsetValues_eq_flatMap few
  have slices : (Entry.set qSet).slices =
      (combinations qSet.threshold.val (entries qSet).length).flatMap
        (fun bits => choices ((pick bits (entries qSet)).map
          Entry.slices)) := minimalSlices_eq qSet
  have each : ∀ bits ∈ combinations qSet.threshold.val
      (entries qSet).length,
        (productValues ((pick bits (entries qSet)).map
            (Entry.values nodes))).length ≤
          (choices ((pick bits (entries qSet)).map Entry.slices)).length ∧
        ((productValues ((pick bits (entries qSet)).map
            (Entry.values nodes))).length =
          (choices ((pick bits (entries qSet)).map Entry.slices)).length ↔
            ChosenTurns (pick bits (entries qSet))) := by
    intro bits member
    obtain ⟨entry, others, picked, first, rest⟩ :=
      pick_counted positive counted member
    rw [picked]
    exact chosen_counted first rest
  constructor
  · intro none
    have head := described.head
    rw [none] at head
    cases head
  · rw [values, slices, List.length_flatMap, List.length_flatMap]
    exact List.sum_le_sum (fun bits member => (each bits member).1)
  · have turns : (Entry.set qSet).SliceTurns ↔ SliceTurns qSet := Iff.rfl
    rw [turns, sliceTurns_iff positive enough, values, slices,
      List.length_flatMap, List.length_flatMap,
      sum_map_eq_iff_of_le (fun bits member => (each bits member).1)]
    exact forall₂_congr (fun bits member => (each bits member).2)
  · intro turns
    have all := (sliceTurns_iff positive enough).mp turns
    rw [values, slices, List.map_flatMap]
    apply List.Perm.flatMap_left
    intro bits member
    obtain ⟨entry, others, picked, first, rest⟩ :=
      pick_counted positive counted member
    have chosen := all bits member
    rw [picked] at chosen ⊢
    exact chosen_perm first rest chosen.1 chosen.2

end Set

theorem Fits.counted {nodes : List NodeID} {qSet : SCPQuorumSet}
    (fits : Fits nodes qSet) : Counted nodes (.set qSet) := by
  have described := fits.described
  induction fits with
  | @mk threshold validators innerSets positive enough few known inner ih =>
      have length : (entries ⟨threshold, validators, innerSets⟩).length =
          validators.length + innerSets.length := by
        rw [entries, List.length_append, List.length_map, List.length_map]
      rw [← length] at enough few
      refine counted_set positive enough few ?_ described
      intro entry member
      rw [entries, List.mem_append, List.mem_map, List.mem_map] at member
      rcases member with ⟨validator, _, rfl⟩ | ⟨inner', member, rfl⟩
      · exact counted_node nodes validator
      · exact ih inner' member (inner inner' member).described

/-! ## The enumerators of the program -/

/-- A first component with one value. -/
theorem productValues_single (v : Bitset) {values : List Bitset}
    (some : values ≠ []) :
    productValues [[v], values] = values.map (v ||| ·) := by
  have one : AtMostOneTurns ([values].map List.length) :=
    List.countP_le_length
  have same : combined [values] = values := by
    have zero : ∀ w : Bitset, w ||| 0 = w := fun w => BitVec.or_zero
    rw [combined, combined, List.flatMap_singleton]
    simp only [zero, List.map_id']
  rw [productValues, columns_eq_combined _ one, same, List.map_eq_flatMap]
  · rfl
  · intro other member
    rw [List.mem_singleton.mp member]
    exact some

/-- The slices of a node are all enumerated, each once, if and only if its
quorum set turns as it should. -/
theorem makeSliceEnumerator_complete {iq : InferredQuorum}
    {nodes : List NodeID} (small : nodes.length ≤ 64) {pk : NodeID}
    (known : pk ∈ nodes) {qSet : SCPQuorumSet}
    (qset : iq.qsetOf pk = some qSet) (fits : Fits nodes qSet) :
    ∃ e, iq.makeSliceEnumerator nodes pk = some e ∧
      (Complete e ((minimalSlices qSet).map (fun slice =>
        bitsOf nodes (pk :: slice))) ↔ SliceTurns qSet) := by
  obtain ⟨self, builtSelf, listsSelf⟩ := nodeBit_lists small known
  obtain ⟨inner, builtInner, listsInner⟩ :=
    fits.makeQsetEnumerator_lists small
  refine ⟨newProduct [self, inner], ?_, ?_⟩
  · unfold InferredQuorum.makeSliceEnumerator
    rw [builtSelf, qset]
    simp only [Option.bind_eq_bind, Option.bind_some, builtInner]
    rfl
  have counted := fits.counted
  have lists := product_lists (List.cons_ne_nil _ _)
    (List.Forall₂.cons listsSelf
      (List.Forall₂.cons listsInner List.Forall₂.nil))
  have enumerates := lists.enumerates
  have expected : (minimalSlices qSet).map (fun slice =>
      bitsOf nodes (pk :: slice)) =
        ((minimalSlices qSet).map (bitsOf nodes)).map
          (nodeBits nodes pk ||| ·) := by
    rw [List.map_map]
    rfl
  have some : qsetValues nodes qSet ≠ [] := counted.some
  rw [reset, productValues_single _ some] at enumerates
  rw [expected, newProduct, complete_iff enumerates]
  constructor
  · intro perm
    have length := perm.length_eq
    rw [List.length_map, List.length_map, List.length_map] at length
    exact counted.all.mp length
  · intro turns
    exact (counted.perm turns).map _

/-- The three enumerations, and when they are complete.  An ended component
that shows other bits, where the condition asks it to keep its value, may
still leave the unions right by chance. -/
theorem enumerations_complete (parts : List Component)
    (iq : InferredQuorum) (nodes : List NodeID) (pk : NodeID)
    (qSet : SCPQuorumSet) :
    ((∀ part ∈ parts, Shows part.1 part.2) →
      CompleteWhen (newProduct (parts.map Prod.fst))
        (combined (parts.map Prod.snd)) (Turns parts) (OneTurns parts)) ∧
    (∀ (nSel : ℕ) (index : Enumerator),
      (∀ part ∈ parts, Shows part.1 part.2) → parts.length < 64 →
      newPermutation nSel parts.length = some index →
      CompleteWhen (newSelection index (parts.map Prod.fst))
        ((parts.sublists.filter (fun chosen =>
          chosen.length = nSel)).flatMap
            (fun chosen => combined (chosen.map Prod.snd)))
        (∀ chosen : List Component, chosen.Sublist parts →
          chosen.length = nSel → Turns chosen)
        (∀ chosen : List Component, chosen.Sublist parts →
          chosen.length = nSel → OneTurns chosen)) ∧
    (∀ index : Enumerator,
      (∀ part ∈ parts, Shows part.1 part.2) →
      newPowerset parts.length = some index →
      CompleteWhen (newSelection index (parts.map Prod.fst))
        ((parts.sublists.filter (fun chosen => chosen.length ≠ 0)).flatMap
          (fun chosen => combined (chosen.map Prod.snd)))
        (∀ chosen : List Component, chosen.Sublist parts →
          chosen.length ≠ 0 → Turns chosen)
        (∀ chosen : List Component, chosen.Sublist parts →
          chosen.length ≠ 0 → OneTurns chosen)) ∧
    (nodes.length ≤ 64 → pk ∈ nodes →
      iq.qsetOf pk = some qSet → Fits nodes qSet →
      ∃ e, iq.makeSliceEnumerator nodes pk = some e ∧
        (Complete e ((minimalSlices qSet).map (fun slice =>
          bitsOf nodes (pk :: slice))) ↔ SliceTurns qSet)) := by
  refine ⟨?_, ?_, ?_, ?_⟩
  · intro shows
    exact newProduct_complete shows
  · intro nSel index shows few built
    exact permutation_complete shows few built
  · intro index shows built
    exact powerset_complete shows built
  · intro small known qset fits
    exact makeSliceEnumerator_complete small known qset fits

/-- Node 0 needs itself, one of 1 and 2, and one of 3 and 4. -/
def pairsSet : SCPQuorumSet :=
  ⟨3, [0], [⟨1, [1, 2], []⟩, ⟨1, [3, 4], []⟩]⟩

def twoPairs : InferredQuorum where
  mQsets := [⟨10, pairsSet⟩].toAList
  mQsetHashes := [(0, 10)]
  mPubKeys := [⟨0, 6⟩].toAList

/-- Of its four slices that of the nodes 0, 1 and 4 is left out. -/
theorem twoPairs_incomplete :
    ∃ e, twoPairs.makeSliceEnumerator [0, 1, 2, 3, 4] 0 = some e ∧
      Enumerates e [0b01011, 0b01101, 0b10101] ∧
      ¬ Complete e ((minimalSlices pairsSet).map (fun slice =>
        bitsOf [0, 1, 2, 3, 4] (0 :: slice))) := by
  have seen : Enumerates (newProduct
      [constant 1 false, newSelection (permutation 7 3 3)
        [constant 1 false,
          newSelection (permutation 1 1 2)
            [constant 2 false, constant 4 false],
          newSelection (permutation 1 1 2)
            [constant 8 false, constant 16 false]]])
      [0b01011, 0b01101, 0b10101] := by
    decide +kernel
  refine ⟨_, rfl, seen, ?_⟩
  intro complete
  have perm := (complete_iff seen).mp complete
  exact absurd perm.length_eq (by decide +kernel)

/-- One of the bits 0 and 1, and bit 2. -/
def pairAndBit : List Component :=
  [(permutation 1 1 2, [1, 2]), (constant 4 false, [4])]

theorem pairAndBit_shows :
    ∀ part ∈ pairAndBit, Shows part.1 part.2 := by
  intro part member
  simp only [pairAndBit, List.mem_cons, List.not_mem_nil, or_false] at member
  rcases member with rfl | rfl
  · exact permutation_visits Nat.one_pos (by decide) (by decide)
  · exact ⟨rfl, rfl, fun steps => (constant_lists 4 false).2.2 steps |>.1⟩

theorem kept_pairAndBit {part : Component} (member : part ∈ pairAndBit) :
    Keeps part := by
  simp only [pairAndBit, List.mem_cons, List.not_mem_nil, or_false] at member
  rcases member with rfl | rfl
  · rintro v several
    cases several
  · exact (constant_lists 4 false).keeps

theorem Kept.of_keeps {parts : List Component}
    (keeps : ∀ part ∈ parts, Keeps part) : Kept parts := by
  induction parts with
  | nil => exact trivial
  | cons part parts ih =>
      exact ⟨fun _ => keeps part List.mem_cons_self,
        ih (fun other member =>
          keeps other (List.mem_cons_of_mem part member))⟩

theorem pairAndBit_turns {chosen : List Component}
    (sublist : chosen.Sublist pairAndBit) (some : chosen.length ≠ 0) :
    Turns chosen := by
  refine ⟨⟨List.ne_nil_of_length_pos (Nat.pos_of_ne_zero some), ?_⟩, ?_⟩
  · have length := sublist.length_le
    refine List.countP_le_length.trans ?_
    rw [counts, List.length_map, List.length_tail]
    exact Nat.sub_le_of_le_add length
  · exact Kept.of_keeps (fun part member =>
      kept_pairAndBit (sublist.subset (List.mem_of_mem_tail member)))

theorem pairsSet_fits : Fits [0, 1, 2, 3, 4] pairsSet := by
  refine .mk (by decide) (by decide) (by decide) (by decide) ?_
  intro inner member
  simp only [List.mem_cons, List.not_mem_nil, or_false] at member
  rcases member with rfl | rfl
  · exact .mk (by decide) (by decide) (by decide) (by decide)
      (by intro inner member; cases member)
  · exact .mk (by decide) (by decide) (by decide) (by decide)
      (by intro inner member; cases member)

theorem enumerations_complete_pairs :
    Complete (newProduct (pairAndBit.map Prod.fst)) [5, 6] ∧
      Complete (newSelection (permutation 1 1 2) (pairAndBit.map Prod.fst))
        [1, 2, 4] ∧
      Complete (newSelection (powerset 1 4) (pairAndBit.map Prod.fst))
        [1, 2, 4, 5, 6] ∧
      ∃ e, twoPairs.makeSliceEnumerator [0, 1, 2, 3, 4] 0 = some e ∧
        (Complete e ((minimalSlices pairsSet).map (fun slice =>
          bitsOf [0, 1, 2, 3, 4] (0 :: slice))) ↔ SliceTurns pairsSet) := by
  obtain ⟨products, selections, subsets, slices⟩ := enumerations_complete
    pairAndBit twoPairs [0, 1, 2, 3, 4] 0 pairsSet
  refine ⟨?_, ?_, ?_, ?_⟩
  · exact (products pairAndBit_shows).1
      (pairAndBit_turns (List.Sublist.refl _) (by decide))
  · exact (selections 1 (permutation 1 1 2) pairAndBit_shows
      (by decide) rfl).1
      (fun _ sublist one =>
        pairAndBit_turns sublist (one ▸ Nat.one_ne_zero))
  · exact (subsets (powerset 1 4) pairAndBit_shows rfl).1
      (fun _ sublist some => pairAndBit_turns sublist some)
  · exact slices (by decide) (by decide) rfl pairsSet_fits

end StellarCore.Quorum
