import StellarCore.Quorum.Slices
import StellarCore.Scp.SliceDuality

/-!
# Reached slices are slices

A sane quorum set over few nodes has an enumerator, and a set of nodes that
contains a slice it reaches contains a slice.  Sets of nodes are compared
through their bits.
-/

namespace StellarCore.Quorum

open StellarCore.Lib
open StellarCore.Scp
open Enumerator

/-! ## Sane quorum sets -/

/-- A quorum set over few nodes, whose thresholds can be met, has an
enumerator. -/
theorem fits_of_inRange {nodes : List NodeID} (few : nodes.length < 64)
    {qSet : SCPQuorumSet} (inRange : InRange qSet)
    (distinct : qSet.allNodes.Nodup) (known : qSet.allNodes ⊆ nodes) :
    Fits nodes qSet := by
  induction qSet using SCPQuorumSet.nested with
  | step threshold validators innerSets ih =>
      have bound := (List.subperm_of_subset distinct known).length_le
      have atLeast := length_le_flatMap_allNodes inRange.inside
      rw [SCPQuorumSet.allNodes, SCPQuorumSet.allNodesInner_eq_flatMap]
        at distinct known bound
      rw [List.length_append] at bound
      have distinctInner := (List.nodup_append.mp distinct).2.1
      obtain ⟨positive, enough⟩ := inRange.here
      refine Fits.mk positive enough ?_ ?_ ?_
      · have fewInner := atLeast
        simp only at fewInner
        omega
      · intro node member
        exact known (List.mem_append_left _ member)
      · intro inner member
        refine ih inner member (inRange.inside inner member)
          ((List.nodup_flatMap.mp distinctInner).1 inner member) ?_
        intro node inside
        exact known (List.mem_append_right _
          (List.mem_flatMap.mpr ⟨inner, member, inside⟩))

/-! ## Slices that are reached are slices -/

def Entry.hit (nodeSet : List NodeID) : Entry → Bool
  | .node nodeID => decide (nodeID ∈ nodeSet)
  | .set qSet => isQuorumSlice qSet nodeSet

theorem sliceHits_eq (nodeSet : List NodeID) (qSet : SCPQuorumSet) :
    sliceHits nodeSet qSet = (entries qSet).countP (Entry.hit nodeSet) := by
  unfold sliceHits entries
  rw [List.countP_append, List.countP_map, List.countP_map,
    List.count_eq_countP, List.count_eq_countP, List.countP_map,
    List.countP_map]
  congr 1
  · apply List.countP_congr
    intro node _
    simp [Entry.hit]
  · apply List.countP_congr
    intro inner _
    simp [Entry.hit, isQuorumSlice]

/-- A threshold of entries that are all hit makes a slice. -/
theorem isQuorumSlice_of_chosen {nodeSet : List NodeID}
    {qSet : SCPQuorumSet} {chosen : List Entry}
    (sublist : chosen.Sublist (entries qSet))
    (count : chosen.length = qSet.threshold.val)
    (positive : 0 < qSet.threshold.val)
    (hits : ∀ entry ∈ chosen, entry.hit nodeSet = true) :
    isQuorumSlice qSet nodeSet = true := by
  rw [isQuorumSlice_iff, sliceHits_eq]
  have needed : hitsNeeded qSet.threshold = chosen.length := by
    have nonzero : qSet.threshold ≠ 0 := by
      intro zero
      rw [zero] at positive
      exact absurd positive (Nat.lt_irrefl 0)
    rw [hitsNeeded, if_neg nonzero, count]
  rw [needed, ← List.countP_eq_length.mpr hits]
  exact sublist.countP_le

/-- An entry whose thresholds, if it is a quorum set, can be met. -/
def Entry.InRange : Entry → Prop
  | .node _ => True
  | .set qSet => Scp.InRange qSet

theorem entries_inRange {qSet : SCPQuorumSet} (inRange : InRange qSet) :
    ∀ entry ∈ entries qSet, entry.InRange := by
  intro entry member
  rw [entries, List.mem_append, List.mem_map, List.mem_map] at member
  rcases member with ⟨validator, _, rfl⟩ | ⟨inner, member, rfl⟩
  · trivial
  · exact inRange.inside inner member

theorem threshold_inRange {qSet : SCPQuorumSet} (inRange : InRange qSet) :
    0 < qSet.threshold.val ∧
      qSet.threshold.val ≤ (entries qSet).length := by
  rw [entries, List.length_append, List.length_map, List.length_map]
  exact inRange.here

/-- Taking the slices of some entries takes entries. -/
def Chooses (choose : ℕ → List (List NodeID) → List (List NodeID)) :
    Prop :=
  ∀ (count : ℕ) (all : List Entry), count ≤ all.length →
    ∃ chosen : List Entry, chosen.Sublist all ∧ chosen.length = count ∧
      choose count (all.map (Entry.edge choose)) =
        chosen.map (Entry.edge choose)

private theorem take_chooses : Chooses List.take := by
  intro count all enough
  refine ⟨all.take count, List.take_sublist _ _, ?_, List.map_take.symm⟩
  rw [List.length_take]
  omega

private theorem takeLast_chooses : Chooses takeLast := by
  intro count all enough
  refine ⟨takeLast count all, List.drop_sublist _ _, ?_, ?_⟩
  · rw [takeLast, List.length_drop]
    omega
  · rw [takeLast, takeLast, List.length_map, List.map_drop]

private theorem edgeSlice_hit
    {choose : ℕ → List (List NodeID) → List (List NodeID)}
    (chooses : Chooses choose) {nodeSet : List NodeID}
    {qSet : SCPQuorumSet} (inRange : InRange qSet)
    (inside : edgeSlice choose qSet ⊆ nodeSet) :
    isQuorumSlice qSet nodeSet = true := by
  induction qSet using SCPQuorumSet.nested with
  | step threshold validators innerSets ih =>
      have bounds := threshold_inRange inRange
      obtain ⟨chosen, sublist, count, equality⟩ :=
        chooses threshold.val (entries ⟨threshold, validators, innerSets⟩)
          bounds.2
      apply isQuorumSlice_of_chosen sublist count bounds.1
      rw [edgeSlice_eq, equality] at inside
      intro entry member
      have part : entry.edge choose ⊆ nodeSet := by
        intro node here
        exact inside (List.mem_flatten.mpr
          ⟨_, List.mem_map_of_mem member, here⟩)
      have place := sublist.subset member
      rw [entries, List.mem_append, List.mem_map, List.mem_map] at place
      rcases place with ⟨validator, _, rfl⟩ | ⟨inner', place, rfl⟩
      · exact decide_eq_true (part List.mem_cons_self)
      · exact ih inner' place (inRange.inside inner' place) part

private theorem edge_hit
    {choose : ℕ → List (List NodeID) → List (List NodeID)}
    (chooses : Chooses choose) {nodeSet : List NodeID} {entry : Entry}
    (inRange : entry.InRange)
    (inside : entry.edge choose ⊆ nodeSet) :
    entry.hit nodeSet = true := by
  cases entry with
  | node nodeID => exact decide_eq_true (inside List.mem_cons_self)
  | set qSet => exact edgeSlice_hit chooses inRange inside

mutual

theorem Reached.hit {nodeSet : List NodeID} :
    ∀ {entry : Entry} {slice : List NodeID}, Reached entry slice →
      entry.InRange → slice ⊆ nodeSet → entry.hit nodeSet = true
  | _, _, .node nodeID => fun _ inside =>
      decide_eq_true (inside List.mem_cons_self)
  | _, _, @Reached.set qSet entry others slice rest chosen count first
      later => by
      intro inRange inside
      have all : ∀ other ∈ entry :: others, other.InRange :=
        fun other member =>
          entries_inRange inRange other (chosen.subset member)
      apply isQuorumSlice_of_chosen chosen count
        (threshold_inRange inRange).1
      intro other member
      rcases List.mem_cons.mp member with here | elsewhere
      · rw [here]
        exact Reached.hit first (all entry List.mem_cons_self)
          (fun node part => inside (List.mem_append_left _ part))
      · exact Turn.hit later
          (fun other member => all other (List.mem_cons_of_mem _ member))
          (fun node part => inside (List.mem_append_right _ part))
          other elsewhere

theorem Turn.hit {nodeSet : List NodeID} :
    ∀ {others : List Entry} {rest : List NodeID}, Turn others rest →
      (∀ entry ∈ others, entry.InRange) → rest ⊆ nodeSet →
        ∀ entry ∈ others, entry.hit nodeSet = true
  | _, _, .nil => fun _ _ entry member => absurd member List.not_mem_nil
  | _, _, @Turn.here entry others slice reached => by
      intro inRange inside other member
      rcases List.mem_cons.mp member with here | elsewhere
      · rw [here]
        exact Reached.hit reached (inRange entry List.mem_cons_self)
          (fun node part => inside (List.mem_append_left _ part))
      · apply edge_hit take_chooses (inRange other member)
        intro node part
        exact inside (List.mem_append_right _ (List.mem_flatten.mpr
          ⟨_, List.mem_map_of_mem elsewhere, part⟩))
  | _, _, @Turn.later entry others rest turn => by
      intro inRange inside other member
      rcases List.mem_cons.mp member with here | elsewhere
      · rw [here]
        exact edge_hit takeLast_chooses (inRange entry List.mem_cons_self)
          (fun node part => inside (List.mem_append_left _ part))
      · exact Turn.hit turn
          (fun other member =>
            inRange other (List.mem_cons_of_mem _ member))
          (fun node part => inside (List.mem_append_right _ part))
          other elsewhere

end

/-! ## Sets of nodes as bits -/

section Bits

variable {nodes : List NodeID} (few : nodes.length < 64)

private theorem nodeBits_getLsbD (node : NodeID) {i : ℕ} (below : i < 64) :
    (nodeBits nodes node).getLsbD i = decide (nodes.idxOf node = i) := by
  rw [nodeBits, BitVec.getLsbD_ofNat, Nat.testBit_two_pow]
  simp [below]

theorem bitsOf_getLsbD (slice : List NodeID) {i : ℕ} (below : i < 64) :
    (bitsOf nodes slice).getLsbD i = true ↔
      ∃ node ∈ slice, nodes.idxOf node = i := by
  induction slice with
  | nil => simp [bitsOf]
  | cons node slice ih =>
      rw [bitsOf, BitVec.getLsbD_or, Bool.or_eq_true, ih,
        nodeBits_getLsbD node below, decide_eq_true_eq]
      constructor
      · rintro (here | ⟨other, member, place⟩)
        · exact ⟨node, List.mem_cons_self, here⟩
        · exact ⟨other, List.mem_cons_of_mem _ member, place⟩
      · rintro ⟨other, member, place⟩
        rcases List.mem_cons.mp member with same | later
        · rw [same] at place
          exact .inl place
        · exact .inr ⟨other, later, place⟩

include few in
private theorem idxOf_lt (node : NodeID) : nodes.idxOf node < 64 :=
  (List.idxOf_le_length).trans_lt few

include few in
theorem or_bitsOf_eq_iff {inner outer : List NodeID}
    (known : outer ⊆ nodes) :
    bitsOf nodes outer ||| bitsOf nodes inner = bitsOf nodes outer ↔
      inner ⊆ outer := by
  constructor
  · intro equality node member
    have bit := (bitsOf_getLsbD inner (idxOf_lt few node)).mpr
      ⟨node, member, rfl⟩
    have outside : (bitsOf nodes outer).getLsbD (nodes.idxOf node) =
        true := by
      rw [← equality, BitVec.getLsbD_or, bit, Bool.or_true]
    obtain ⟨other, present, place⟩ :=
      (bitsOf_getLsbD outer (idxOf_lt few node)).mp outside
    have same : other = node := (List.idxOf_inj (known present)).mp place
    rw [← same]
    exact present
  · intro subset
    apply BitVec.eq_of_getLsbD_eq
    intro i below
    rw [BitVec.getLsbD_or, Bool.or_eq_left_iff_imp]
    intro bit
    obtain ⟨node, member, place⟩ := (bitsOf_getLsbD inner below).mp bit
    exact (bitsOf_getLsbD outer below).mpr ⟨node, subset member, place⟩

include few in
theorem and_bitsOf_eq_zero_iff {left right : List NodeID}
    (known : left ⊆ nodes) :
    bitsOf nodes left &&& bitsOf nodes right = 0 ↔
      ∀ node ∈ left, node ∉ right := by
  constructor
  · intro none node here there
    have bit := congrArg (fun b => b.getLsbD (nodes.idxOf node)) none
    have first := (bitsOf_getLsbD left (idxOf_lt few node)).mpr
      ⟨node, here, rfl⟩
    have second := (bitsOf_getLsbD right (idxOf_lt few node)).mpr
      ⟨node, there, rfl⟩
    simp [BitVec.getLsbD_and, first, second] at bit
  · intro disjoint
    apply BitVec.eq_of_getLsbD_eq
    intro i below
    rw [BitVec.getLsbD_and]
    show _ = (0#64).getLsbD i
    rw [BitVec.getLsbD_zero, Bool.and_eq_false_iff]
    by_contra both
    rw [not_or, Bool.not_eq_false, Bool.not_eq_false] at both
    obtain ⟨node, here, place⟩ := (bitsOf_getLsbD left below).mp both.1
    obtain ⟨other, there, same⟩ := (bitsOf_getLsbD right below).mp both.2
    have equal : node = other :=
      (List.idxOf_inj (known here)).mp (place.trans same.symm)
    rw [← equal] at there
    exact disjoint node here there

end Bits

end StellarCore.Quorum
