import StellarCore.Scp.ClosestBlocking
import StellarCore.Scp.Nomination

/-!
# Normal quorum sets

`normalizeQSet` moves inner sets with a single node up to the validators and
replaces a set that only wraps another by that one.  What the entries of a set
contribute does not change: to the number of entries, to the nodes that are
hit or blocked, to the nodes of the set and to the weight of a node.
-/

namespace StellarCore.Scp

open StellarCore.Lib

namespace SCPQuorumSet

/-- The node of a set that is nothing but this node. -/
def singleton? : SCPQuorumSet → Option NodeID
  | ⟨threshold, [node], []⟩ => if threshold = 1 then some node else none
  | _ => none

/-- The last step of `normalizeQSet`. -/
def unwrap : SCPQuorumSet → SCPQuorumSet
  | ⟨threshold, [], [inner]⟩ =>
      if threshold = 1 then inner else ⟨threshold, [], [inner]⟩
  | qSet => qSet

end SCPQuorumSet

mutual

def normalizeQSet : SCPQuorumSet → SCPQuorumSet
  | ⟨threshold, validators, innerSets⟩ =>
      let (v, i) := normalizeInnerSets validators innerSets
      SCPQuorumSet.unwrap ⟨threshold, v, i⟩

/-- The loop over the inner sets, which appends to the validators. -/
def normalizeInnerSets (v : List NodeID) :
    List SCPQuorumSet → List NodeID × List SCPQuorumSet
  | [] => (v, [])
  | inner :: innerSets =>
      let inner := normalizeQSet inner
      match inner.singleton? with
      | some node => normalizeInnerSets (v ++ [node]) innerSets
      | none =>
          let (v, i) := normalizeInnerSets v innerSets
          (v, inner :: i)

end

namespace SCPQuorumSet

theorem singleton?_eq_some {qSet : SCPQuorumSet} {node : NodeID} :
    qSet.singleton? = some node ↔ qSet = ⟨1, [node], []⟩ := by
  constructor
  · intro single
    unfold singleton? at single
    split at single
    · simp only [Option.ite_none_right_eq_some, Option.some_inj] at single
      obtain ⟨rfl, rfl⟩ := single
      rfl
    · cases single
  · rintro rfl
    rfl

theorem unwrap_cases (qSet : SCPQuorumSet) :
    (∃ inner, qSet = ⟨1, [], [inner]⟩ ∧ qSet.unwrap = inner) ∨
      qSet.unwrap = qSet := by
  unfold unwrap
  split
  · split
    case isTrue one =>
        left
        subst one
        exact ⟨_, rfl, rfl⟩
    case isFalse => exact .inr rfl
  · exact .inr rfl

/-- Moves the sets with a single node up. -/
def merge (qSet : SCPQuorumSet) : SCPQuorumSet :=
  { qSet with
    validators := qSet.validators ++ qSet.innerSets.filterMap singleton?
    innerSets := qSet.innerSets.filter (fun inner => inner.singleton?.isNone) }

def mapInner (f : SCPQuorumSet → SCPQuorumSet) (qSet : SCPQuorumSet) :
    SCPQuorumSet :=
  { qSet with innerSets := qSet.innerSets.map f }

end SCPQuorumSet

theorem normalizeInnerSets_eq (v : List NodeID)
    (innerSets : List SCPQuorumSet) :
    normalizeInnerSets v innerSets =
      (v ++ (innerSets.map normalizeQSet).filterMap SCPQuorumSet.singleton?,
        (innerSets.map normalizeQSet).filter
          (fun inner => inner.singleton?.isNone)) := by
  induction innerSets generalizing v with
  | nil => simp [normalizeInnerSets]
  | cons inner innerSets ih =>
      unfold normalizeInnerSets
      cases single : (normalizeQSet inner).singleton? with
      | none => simp [single, ih]
      | some node => simp [single, ih]

/-- The steps of `normalizeQSet`, from the inside out. -/
theorem normalizeQSet_eq (qSet : SCPQuorumSet) :
    normalizeQSet qSet = (qSet.mapInner normalizeQSet).merge.unwrap := by
  obtain ⟨threshold, validators, innerSets⟩ := qSet
  unfold normalizeQSet
  rw [normalizeInnerSets_eq]
  rfl

/-! ## Sums over the entries -/

namespace SCPQuorumSet

section Entries

variable {M : Type} [AddCommMonoid M]

/-- A sum over the entries, of nodes and of inner sets. -/
def sumEntries (ofNode : NodeID → M) (ofInner : SCPQuorumSet → M)
    (qSet : SCPQuorumSet) : M :=
  (qSet.validators.map ofNode).sum + (qSet.innerSets.map ofInner).sum

variable {ofNode : NodeID → M} {ofInner : SCPQuorumSet → M}

theorem sumEntries_merge (qSet : SCPQuorumSet)
    (single : ∀ node, ofInner ⟨1, [node], []⟩ = ofNode node) :
    qSet.merge.sumEntries ofNode ofInner =
      qSet.sumEntries ofNode ofInner := by
  obtain ⟨threshold, validators, innerSets⟩ := qSet
  unfold sumEntries merge
  rw [List.map_append, List.sum_append, add_assoc]
  congr 1
  induction innerSets with
  | nil => simp
  | cons inner innerSets ih =>
      cases found : inner.singleton? with
      | none =>
          rw [List.filterMap_cons_none found,
            List.filter_cons_of_pos (by simp [found]), List.map_cons,
            List.map_cons, List.sum_cons, List.sum_cons, ← ih]
          exact add_left_comm _ _ _
      | some node =>
          obtain rfl := singleton?_eq_some.mp found
          rw [List.filterMap_cons_some found,
            List.filter_cons_of_neg (by simp [found]), List.map_cons,
            List.map_cons, List.sum_cons, List.sum_cons, ← ih, single,
            add_assoc]

theorem sumEntries_mapInner {qSet : SCPQuorumSet}
    {f : SCPQuorumSet → SCPQuorumSet}
    (same : ∀ inner ∈ qSet.innerSets, ofInner (f inner) = ofInner inner) :
    (qSet.mapInner f).sumEntries ofNode ofInner =
      qSet.sumEntries ofNode ofInner := by
  unfold sumEntries mapInner
  rw [List.map_map]
  congr 2
  exact List.map_congr_left same

end Entries

/-- The number of entries. -/
def entries (qSet : SCPQuorumSet) : ℕ :=
  qSet.validators.length + qSet.innerSets.length

theorem entries_eq_sum (qSet : SCPQuorumSet) :
    qSet.entries = qSet.sumEntries (fun _ => 1) (fun _ => 1) := by
  simp [entries, sumEntries]

theorem entries_merge (qSet : SCPQuorumSet) :
    qSet.merge.entries = qSet.entries := by
  rw [entries_eq_sum, entries_eq_sum]
  exact sumEntries_merge qSet (fun _ => rfl)

theorem entries_mapInner (f : SCPQuorumSet → SCPQuorumSet)
    (qSet : SCPQuorumSet) : (qSet.mapInner f).entries = qSet.entries := by
  simp [entries, mapInner]

theorem mem_innerSets_merge {qSet inner : SCPQuorumSet} :
    inner ∈ qSet.merge.innerSets ↔
      inner ∈ qSet.innerSets ∧ inner.singleton? = none := by
  simp [merge]

end SCPQuorumSet

/-- What is computed from the threshold, the number of entries and a sum over
the entries is kept by `normalizeQSet`, if a set with a single node
counts as the node and a set that wraps another one counts as this one. -/
theorem normalizeQSet_keeps {β M : Type} [AddCommMonoid M]
    {value : SCPQuorumSet → β} (valid : SCPQuorumSet → Prop)
    (combine : Uint32 → ℕ → M → β) (ofNode : NodeID → M) (ofValue : β → M)
    (computed : ∀ qSet, valid qSet → value qSet =
      combine qSet.threshold qSet.entries
        (qSet.sumEntries ofNode (fun inner => ofValue (value inner))))
    (single : ∀ node, ofValue (value ⟨1, [node], []⟩) = ofNode node)
    (wrapped : ∀ inner, value ⟨1, [], [inner]⟩ = value inner)
    (inside : ∀ qSet, valid qSet → ∀ inner ∈ qSet.innerSets, valid inner)
    (kept : ∀ qSet, valid qSet → valid (qSet.mapInner normalizeQSet).merge)
    (qSet : SCPQuorumSet) (holds : valid qSet) :
    value (normalizeQSet qSet) = value qSet := by
  induction qSet using SCPQuorumSet.nested with
  | step threshold validators innerSets ih =>
      set qSet : SCPQuorumSet := ⟨threshold, validators, innerSets⟩
      have inner : ∀ inner ∈ qSet.innerSets,
          ofValue (value (normalizeQSet inner)) = ofValue (value inner) := by
        intro inner member
        rw [ih inner member (inside qSet holds inner member)]
      have merged : value (qSet.mapInner normalizeQSet).merge =
          value qSet := by
        rw [computed _ (kept qSet holds), computed qSet holds,
          SCPQuorumSet.sumEntries_merge _ single,
          SCPQuorumSet.sumEntries_mapInner inner,
          SCPQuorumSet.entries_merge, SCPQuorumSet.entries_mapInner]
        rfl
      rw [normalizeQSet_eq]
      rcases SCPQuorumSet.unwrap_cases (qSet.mapInner normalizeQSet).merge
        with ⟨inner, wraps, unwrapped⟩ | same
      · rw [unwrapped, ← wrapped, ← wraps]
        exact merged
      · rw [same]
        exact merged

/-! ## Slices and blocking sets -/

theorem count_true_eq_sum {ι : Type} (hit : ι → Bool) (items : List ι) :
    (items.map hit).count true =
      (items.map (fun item => (hit item).toNat)).sum := by
  induction items with
  | nil => rfl
  | cons item items ih =>
      rw [List.map_cons, List.count_cons, List.map_cons, List.sum_cons, ih]
      cases hit item with
      | false => simp
      | true => simp [Nat.add_comm]

theorem sliceHits_eq_sum (nodeSet : List NodeID) (qSet : SCPQuorumSet) :
    sliceHits nodeSet qSet = qSet.sumEntries
      (fun node => (decide (node ∈ nodeSet)).toNat)
      (fun inner => (isQuorumSliceInternal nodeSet inner).toNat) := by
  unfold sliceHits SCPQuorumSet.sumEntries
  rw [count_true_eq_sum, count_true_eq_sum]

theorem blockHits_eq_sum (nodeSet : List NodeID) (qSet : SCPQuorumSet) :
    blockHits nodeSet qSet = qSet.sumEntries
      (fun node => (decide (node ∈ nodeSet)).toNat)
      (fun inner => (isVBlockingInternal nodeSet inner).toNat) := by
  unfold blockHits SCPQuorumSet.sumEntries
  rw [count_true_eq_sum, count_true_eq_sum]

theorem isQuorumSliceInternal_eq (nodeSet : List NodeID)
    (qSet : SCPQuorumSet) :
    isQuorumSliceInternal nodeSet qSet =
      decide (hitsNeeded qSet.threshold ≤ qSet.sumEntries
        (fun node => (decide (node ∈ nodeSet)).toNat)
        (fun inner => (isQuorumSliceInternal nodeSet inner).toNat)) := by
  rw [← sliceHits_eq_sum, Bool.eq_iff_iff, decide_eq_true_eq]
  exact isQuorumSlice_iff qSet nodeSet

/-- Whether `hits` of the entries are enough to block a set. -/
def enoughToBlock (threshold : Uint32) (entries hits : ℕ) : Bool :=
  threshold ≠ 0 ∧ 0 < hits ∧ leftTillBlock threshold entries ≤ hits

theorem isVBlockingInternal_eq (nodeSet : List NodeID)
    (qSet : SCPQuorumSet) :
    isVBlockingInternal nodeSet qSet =
      enoughToBlock qSet.threshold qSet.entries
        (qSet.sumEntries (fun node => (decide (node ∈ nodeSet)).toNat)
          (fun inner => (isVBlockingInternal nodeSet inner).toNat)) := by
  rw [← blockHits_eq_sum, enoughToBlock, Bool.eq_iff_iff, decide_eq_true_eq]
  exact isVBlockingInternal_iff qSet nodeSet

theorem enoughToBlock_one (hit : Bool) :
    enoughToBlock 1 1 hit.toNat = hit := by
  cases hit with
  | false => rfl
  | true => rfl

theorem one_le_toNat_iff (hit : Bool) : decide (1 ≤ hit.toNat) = hit := by
  cases hit with
  | false => rfl
  | true => rfl

theorem hitsNeeded_one : hitsNeeded (1 : Uint32) = 1 := rfl

theorem isQuorumSlice_normalize (nodeSet : List NodeID)
    (qSet : SCPQuorumSet) :
    isQuorumSlice (normalizeQSet qSet) nodeSet =
      isQuorumSlice qSet nodeSet := by
  refine normalizeQSet_keeps (fun _ => True)
    (fun threshold _ hits => decide (hitsNeeded threshold ≤ hits))
    (fun node => (decide (node ∈ nodeSet)).toNat) Bool.toNat
    (fun qSet _ => isQuorumSliceInternal_eq nodeSet qSet) ?_ ?_
    (fun _ _ _ _ => trivial) (fun _ _ => trivial) qSet trivial
  · intro node
    rw [isQuorumSliceInternal_eq, hitsNeeded_one]
    simp [SCPQuorumSet.sumEntries, one_le_toNat_iff]
  · intro inner
    rw [isQuorumSliceInternal_eq, hitsNeeded_one]
    simp [SCPQuorumSet.sumEntries, one_le_toNat_iff]

theorem isVBlocking_normalize (nodeSet : List NodeID) (qSet : SCPQuorumSet) :
    isVBlockingInternal nodeSet (normalizeQSet qSet) =
      isVBlockingInternal nodeSet qSet := by
  refine normalizeQSet_keeps (fun _ => True) enoughToBlock
    (fun node => (decide (node ∈ nodeSet)).toNat) Bool.toNat
    (fun qSet _ => isVBlockingInternal_eq nodeSet qSet) ?_ ?_
    (fun _ _ _ _ => trivial) (fun _ _ => trivial) qSet trivial
  · intro node
    rw [isVBlockingInternal_eq]
    simp [SCPQuorumSet.sumEntries, SCPQuorumSet.entries, enoughToBlock_one]
  · intro inner
    rw [isVBlockingInternal_eq]
    simp [SCPQuorumSet.sumEntries, SCPQuorumSet.entries, enoughToBlock_one]

/-! ## Nodes -/

theorem coe_flatMap {ι α : Type} (f : ι → List α) (items : List ι) :
    (items.flatMap f : Multiset α) =
      (items.map (fun item => (f item : Multiset α))).sum := by
  induction items with
  | nil => rfl
  | cons item items ih =>
      rw [List.flatMap_cons, ← Multiset.coe_add, ih, List.map_cons,
        List.sum_cons]

theorem sum_map_singletons {α : Type} (items : List α) :
    (items.map (fun item => ({item} : Multiset α))).sum = items := by
  induction items with
  | nil => rfl
  | cons item items ih =>
      rw [List.map_cons, List.sum_cons, ih, Multiset.singleton_add,
        Multiset.cons_coe]

/-- The nodes of a set, with those that occur twice. -/
def nodes (qSet : SCPQuorumSet) : Multiset NodeID :=
  qSet.allNodes

theorem nodes_eq_sum (qSet : SCPQuorumSet) :
    nodes qSet = qSet.sumEntries (fun node => {node}) nodes := by
  obtain ⟨threshold, validators, innerSets⟩ := qSet
  unfold nodes SCPQuorumSet.sumEntries
  rw [SCPQuorumSet.allNodes, SCPQuorumSet.allNodesInner_eq_flatMap,
    ← Multiset.coe_add, coe_flatMap]
  rw [sum_map_singletons]

theorem nodes_normalize (qSet : SCPQuorumSet) :
    nodes (normalizeQSet qSet) = nodes qSet := by
  refine normalizeQSet_keeps (fun _ => True) (fun _ _ nodes => nodes)
    (fun node => {node}) id (fun qSet _ => nodes_eq_sum qSet) ?_ ?_
    (fun _ _ _ _ => trivial) (fun _ _ => trivial) qSet trivial
  · intro node
    rfl
  · intro inner
    simp [nodes, SCPQuorumSet.allNodes, SCPQuorumSet.allNodesInner]

theorem nodes_single (node : NodeID) : nodes ⟨1, [node], []⟩ = {node} :=
  rfl

theorem nodes_merged (qSet : SCPQuorumSet) :
    nodes (qSet.mapInner normalizeQSet).merge = nodes qSet := by
  rw [nodes_eq_sum, SCPQuorumSet.sumEntries_merge _ nodes_single,
    SCPQuorumSet.sumEntries_mapInner (fun inner _ => nodes_normalize inner),
    ← nodes_eq_sum]

theorem nodes_inner_le {qSet inner : SCPQuorumSet}
    (member : inner ∈ qSet.innerSets) : nodes inner ≤ nodes qSet := by
  rw [nodes_eq_sum qSet]
  refine le_trans ?_ (Multiset.le_add_left _ _)
  exact List.single_le_sum (fun _ _ => Multiset.zero_le _) _
    (List.mem_map_of_mem member)

/-! ## Weights -/

/-- The weight of a node in a set from its weight in the entry it is in. -/
def share (threshold : Uint32) (entries leafW : ℕ) : ℕ :=
  leafW * threshold.val / entries % 2 ^ 64

theorem share_zero (threshold : Uint32) (entries : ℕ) :
    share threshold entries 0 = 0 := by
  simp [share]

theorem share_one {leafW : ℕ} (small : leafW < 2 ^ 64) :
    share 1 1 leafW = leafW := by
  have one : (1 : Uint32).val = 1 := rfl
  rw [share, one, Nat.mul_one, Nat.div_one, Nat.mod_eq_of_lt small]

theorem innerWeight_zero {nodeID : NodeID} {n d : ℕ}
    {innerSets : List SCPQuorumSet}
    (zero : ∀ inner ∈ innerSets, getNodeWeight nodeID inner = 0) :
    innerWeight nodeID n d innerSets = 0 := by
  induction innerSets with
  | nil => rfl
  | cons inner innerSets ih =>
      rw [List.forall_mem_cons] at zero
      unfold innerWeight
      simp only [zero.1, ne_eq, not_true_eq_false, ↓reduceIte]
      exact ih zero.2

theorem getNodeWeight_eq_zero {nodeID : NodeID} {qSet : SCPQuorumSet}
    (absent : nodeID ∉ nodes qSet) : getNodeWeight nodeID qSet = 0 := by
  induction qSet using SCPQuorumSet.nested with
  | step threshold validators innerSets ih =>
      have outside : nodeID ∉ validators ∧
          ∀ inner ∈ innerSets, nodeID ∉ nodes inner := by
        rw [nodes, Multiset.mem_coe, SCPQuorumSet.mem_allNodes,
          not_or] at absent
        refine ⟨absent.1, ?_⟩
        intro inner member inside
        exact absent.2 ⟨inner, member, inside⟩
      unfold getNodeWeight
      rw [if_neg outside.1]
      exact innerWeight_zero
        (fun inner member => ih inner member (outside.2 inner member))

theorem innerWeight_lt (nodeID : NodeID) (n d : ℕ)
    (innerSets : List SCPQuorumSet) :
    innerWeight nodeID n d innerSets < 2 ^ 64 := by
  induction innerSets with
  | nil => simp [innerWeight]
  | cons inner innerSets ih =>
      unfold innerWeight
      simp only
      split
      · exact Nat.mod_lt _ (by decide)
      · exact ih

theorem getNodeWeight_lt (nodeID : NodeID) (qSet : SCPQuorumSet) :
    getNodeWeight nodeID qSet < 2 ^ 64 := by
  obtain ⟨threshold, validators, innerSets⟩ := qSet
  unfold getNodeWeight
  split
  · exact Nat.mod_lt _ (by decide)
  · exact innerWeight_lt _ _ _ _

/-- The weight that a node brings to a set of which it is a validator. -/
def ownWeight (nodeID node : NodeID) : ℕ :=
  if node = nodeID then 2 ^ 64 - 1 else 0

theorem weights_eq_zero {nodeID : NodeID} {innerSets : List SCPQuorumSet}
    (absent : nodeID ∉ (innerSets.map nodes).sum) :
    (innerSets.map (getNodeWeight nodeID)).sum = 0 := by
  rw [List.sum_eq_zero_iff]
  intro weight listed
  obtain ⟨inner, member, rfl⟩ := List.mem_map.mp listed
  apply getNodeWeight_eq_zero
  intro inside
  apply absent
  exact Multiset.mem_of_le (List.single_le_sum
    (fun _ _ => Multiset.zero_le _) _ (List.mem_map_of_mem member)) inside

/-- At most one of the inner sets has the node. -/
theorem innerWeight_eq {nodeID : NodeID} {threshold : Uint32} {d : ℕ}
    {innerSets : List SCPQuorumSet}
    (distinct : ((innerSets.map nodes).sum).Nodup) :
    innerWeight nodeID threshold.val d innerSets =
      share threshold d (innerSets.map (getNodeWeight nodeID)).sum := by
  induction innerSets with
  | nil => simp [innerWeight, share_zero]
  | cons inner innerSets ih =>
      rw [List.map_cons, List.sum_cons, Multiset.nodup_add] at distinct
      rw [List.map_cons, List.sum_cons]
      unfold innerWeight
      by_cases zero : getNodeWeight nodeID inner = 0
      · simp only [zero, ne_eq, not_true_eq_false, ↓reduceIte, Nat.zero_add]
        exact ih distinct.2.1
      · have member : nodeID ∈ nodes inner := by
          by_contra absent
          exact zero (getNodeWeight_eq_zero absent)
        have others : (innerSets.map (getNodeWeight nodeID)).sum = 0 :=
          weights_eq_zero (Multiset.disjoint_left.mp distinct.2.2 member)
        simp only [ne_eq, zero, not_false_eq_true, ↓reduceIte, others,
          Nat.add_zero]
        rfl

theorem ownWeight_sum {nodeID : NodeID} {validators : List NodeID}
    (distinct : validators.Nodup) :
    (validators.map (ownWeight nodeID)).sum =
      if nodeID ∈ validators then 2 ^ 64 - 1 else 0 := by
  induction validators with
  | nil => rfl
  | cons node validators ih =>
      rw [List.nodup_cons] at distinct
      rw [List.map_cons, List.sum_cons, ih distinct.2, ownWeight]
      by_cases same : node = nodeID
      · subst same
        simp [distinct.1]
      · simp [same, Ne.symm same]

theorem getNodeWeight_eq {nodeID : NodeID} {qSet : SCPQuorumSet}
    (distinct : (nodes qSet).Nodup) :
    getNodeWeight nodeID qSet = share qSet.threshold qSet.entries
      (qSet.sumEntries (ownWeight nodeID) (getNodeWeight nodeID)) := by
  obtain ⟨threshold, validators, innerSets⟩ := qSet
  rw [nodes_eq_sum, SCPQuorumSet.sumEntries, sum_map_singletons,
    Multiset.nodup_add] at distinct
  obtain ⟨own, inner, apart⟩ := distinct
  unfold getNodeWeight SCPQuorumSet.sumEntries SCPQuorumSet.entries
  simp only
  rw [ownWeight_sum (Multiset.coe_nodup.mp own),
    Nat.add_comm validators.length]
  by_cases member : nodeID ∈ validators
  · rw [if_pos member, if_pos member,
      weights_eq_zero (Multiset.disjoint_left.mp apart member)]
    rfl
  · rw [if_neg member, if_neg member, Nat.zero_add]
    exact innerWeight_eq inner

theorem getNodeWeight_single (nodeID node : NodeID) :
    getNodeWeight nodeID ⟨1, [node], []⟩ = ownWeight nodeID node := by
  have distinct : (nodes ⟨1, [node], []⟩).Nodup :=
    Multiset.nodup_singleton node
  have small : ownWeight nodeID node < 2 ^ 64 := by
    unfold ownWeight
    split
    · decide
    · decide
  rw [getNodeWeight_eq distinct]
  exact share_one small

theorem getNodeWeight_wrapped (nodeID : NodeID) (inner : SCPQuorumSet) :
    getNodeWeight nodeID ⟨1, [], [inner]⟩ = getNodeWeight nodeID inner := by
  rw [getNodeWeight, if_neg List.not_mem_nil, innerWeight, innerWeight]
  split
  case isTrue => exact share_one (getNodeWeight_lt nodeID inner)
  case isFalse zero =>
      rw [not_not] at zero
      exact zero.symm

theorem getNodeWeight_normalize (nodeID : NodeID) {qSet : SCPQuorumSet}
    (distinct : (nodes qSet).Nodup) :
    getNodeWeight nodeID (normalizeQSet qSet) =
      getNodeWeight nodeID qSet := by
  refine normalizeQSet_keeps (fun qSet => (nodes qSet).Nodup) share
    (ownWeight nodeID) id (fun qSet => getNodeWeight_eq)
    (getNodeWeight_single nodeID) (getNodeWeight_wrapped nodeID) ?_ ?_ qSet
    distinct
  · intro qSet distinct inner member
    exact Multiset.nodup_of_le (nodes_inner_le member) distinct
  · intro qSet distinct
    rw [nodes_merged]
    exact distinct

/-! ## Sanity -/

/-- The thresholds and the nesting that `checkSanity` asks for. -/
inductive Shaped (extraChecks : Bool) : ℕ → SCPQuorumSet → Prop
  | intro {depth : ℕ} {qSet : SCPQuorumSet} (deep : depth ≤ 2)
      (positive : 1 ≤ qSet.threshold.val)
      (below : qSet.threshold.val ≤ qSet.entries)
      (majority : extraChecks = true →
        qSet.entries - qSet.threshold.val + 1 ≤ qSet.threshold.val)
      (inside : ∀ inner ∈ qSet.innerSets,
        Shaped extraChecks (depth + 1) inner) :
      Shaped extraChecks depth qSet

theorem Passed.coe {added : List NodeID} {seen found : List NodeID × ℕ}
    (passed : Passed added seen found) :
    (found.1 : Multiset NodeID) = added + seen.1 :=
  Multiset.coe_eq_coe.mpr passed.known

theorem checkSanityInner_isSome_iff {extraChecks : Bool} {depth : ℕ}
    {innerSets : List SCPQuorumSet} {seen : List NodeID × ℕ}
    (each : ∀ inner ∈ innerSets, ∀ {seen : List NodeID × ℕ}, seen.1.Nodup →
      ((checkSanity extraChecks inner depth seen).isSome = true ↔
        Shaped extraChecks depth inner ∧
          (nodes inner + seen.1).Nodup))
    (distinct : seen.1.Nodup) :
    (checkSanityInner extraChecks innerSets depth seen).isSome = true ↔
      (∀ inner ∈ innerSets, Shaped extraChecks depth inner) ∧
        ((innerSets.map nodes).sum + (seen.1 : Multiset NodeID)).Nodup := by
  induction innerSets generalizing seen with
  | nil => simpa [checkSanityInner] using distinct
  | cons inner innerSets ih =>
      rw [List.forall_mem_cons] at each
      rw [List.forall_mem_cons, List.map_cons, List.sum_cons,
        add_comm (nodes inner), add_assoc]
      unfold checkSanityInner
      cases checked : checkSanity extraChecks inner depth seen with
      | none =>
          have fails : ¬ (Shaped extraChecks depth inner ∧
              (nodes inner + seen.1).Nodup) := by
            rw [← each.1 distinct, checked]
            simp
          constructor
          · intro impossible
            cases impossible
          · rintro ⟨⟨shaped, _⟩, all⟩
            exact absurd ⟨shaped, (Multiset.nodup_add.mp all).2.1⟩ fails
      | some next =>
          have passed := (checkSanity_passed distinct checked).2
          have shaped : Shaped extraChecks depth inner :=
            ((each.1 distinct).mp (by simp [checked])).1
          have known : (next.1 : Multiset NodeID) = nodes inner + seen.1 :=
            passed.coe
          rw [ih each.2 passed.distinct, known, and_assoc,
            and_iff_right shaped]

theorem nodes_mk (threshold : Uint32) (validators : List NodeID)
    (innerSets : List SCPQuorumSet) :
    nodes ⟨threshold, validators, innerSets⟩ =
      validators + (innerSets.map nodes).sum := by
  rw [nodes_eq_sum, SCPQuorumSet.sumEntries, sum_map_singletons]

theorem checkSanity_isSome_iff {extraChecks : Bool} {qSet : SCPQuorumSet}
    {depth : ℕ} {seen : List NodeID × ℕ} (distinct : seen.1.Nodup) :
    (checkSanity extraChecks qSet depth seen).isSome = true ↔
      Shaped extraChecks depth qSet ∧ (nodes qSet + seen.1).Nodup := by
  induction qSet using SCPQuorumSet.nested generalizing depth seen with
  | step threshold validators innerSets ih =>
      obtain ⟨known, count⟩ := seen
      have reordered : nodes ⟨threshold, validators, innerSets⟩ +
          (known : Multiset NodeID) = (innerSets.map nodes).sum +
            (validators ++ known : List NodeID) := by
        rw [nodes_mk, ← Multiset.coe_add, add_assoc, add_left_comm]
      unfold checkSanity
      simp only [Option.isSome_iff_exists, Option.ite_none_left_eq_some,
        not_lt, not_not, exists_and_left, Bool.and_eq_true, not_and,
        decide_eq_true_eq, reordered]
      constructor
      · rintro ⟨deep, positive, below, majority, fresh, passed⟩
        have inner := (checkSanityInner_isSome_iff
          (fun inner member => ih inner member) fresh).mp
          (Option.isSome_iff_exists.mpr passed)
        exact ⟨.intro deep (Fin.le_def.mp positive) below majority inner.1,
          inner.2⟩
      · rintro ⟨shaped, all⟩
        cases shaped with
        | intro deep positive below majority inside =>
            have fresh : (validators ++ known).Nodup :=
              Multiset.coe_nodup.mp (Multiset.nodup_add.mp all).2.1
            have passed : (checkSanityInner extraChecks innerSets (depth + 1)
                (validators ++ known, count + validators.length)).isSome =
                  true :=
              (checkSanityInner_isSome_iff
                (fun inner member => ih inner member) fresh).mpr ⟨inside, all⟩
            exact ⟨deep, Fin.le_def.mpr positive, below, majority, fresh,
              Option.isSome_iff_exists.mp passed⟩

/-- A set is sane when its shape is, no node occurs twice and there are
between 1 and 1000 nodes. -/
theorem isQuorumSetSane_iff {qSet : SCPQuorumSet} {extraChecks : Bool} :
    isQuorumSetSane qSet extraChecks = true ↔
      Shaped extraChecks 0 qSet ∧ (nodes qSet).Nodup ∧
        1 ≤ (nodes qSet).card ∧ (nodes qSet).card ≤ 1000 := by
  have passes : (checkSanity extraChecks qSet 0 ([], 0)).isSome = true ↔
      Shaped extraChecks 0 qSet ∧ (nodes qSet).Nodup := by
    rw [checkSanity_isSome_iff List.nodup_nil, Multiset.coe_nil, add_zero]
  unfold isQuorumSetSane
  cases checked : checkSanity extraChecks qSet 0 ([], 0) with
  | none =>
      rw [checked] at passes
      rw [← and_assoc, ← passes]
      simp
  | some found =>
      obtain ⟨known, mCount⟩ := found
      have count := (checkSanity_passed List.nodup_nil checked).2.count
      have size : mCount = (nodes qSet).card := by
        simpa [nodes] using count
      rw [checked] at passes
      rw [← and_assoc, ← passes, ← size]
      simp

/-! ## Normal forms -/

theorem Shaped.up {extraChecks : Bool} {depth : ℕ} {qSet : SCPQuorumSet}
    (shaped : Shaped extraChecks (depth + 1) qSet) :
    Shaped extraChecks depth qSet := by
  induction qSet using SCPQuorumSet.nested generalizing depth with
  | step threshold validators innerSets ih =>
      cases shaped with
      | intro deep positive below majority inside =>
          refine .intro (by omega) positive below majority ?_
          intro inner member
          exact ih inner member (inside inner member)

theorem Shaped.normalize {extraChecks : Bool} {depth : ℕ}
    {qSet : SCPQuorumSet} (shaped : Shaped extraChecks depth qSet) :
    Shaped extraChecks depth (normalizeQSet qSet) := by
  induction qSet using SCPQuorumSet.nested generalizing depth with
  | step threshold validators innerSets ih =>
      set qSet : SCPQuorumSet := ⟨threshold, validators, innerSets⟩
      have merged : Shaped extraChecks depth
          (qSet.mapInner normalizeQSet).merge := by
        cases shaped with
        | intro deep positive below majority inside =>
            have entries : (qSet.mapInner normalizeQSet).merge.entries =
                qSet.entries := by
              rw [SCPQuorumSet.entries_merge, SCPQuorumSet.entries_mapInner]
            refine .intro deep positive ?_ ?_ ?_
            · rw [entries]
              exact below
            · rw [entries]
              exact majority
            · intro inner member
              rw [SCPQuorumSet.mem_innerSets_merge] at member
              obtain ⟨before, listed, rfl⟩ := List.mem_map.mp member.1
              exact ih before listed (inside before listed)
      rw [normalizeQSet_eq]
      rcases SCPQuorumSet.unwrap_cases (qSet.mapInner normalizeQSet).merge
        with ⟨inner, wraps, unwrapped⟩ | same
      · rw [unwrapped]
        rw [wraps] at merged
        cases merged with
        | intro deep positive below majority inside =>
            exact (inside inner List.mem_cons_self).up
      · rw [same]
        exact merged

theorem isQuorumSetSane_normalize {qSet : SCPQuorumSet} {extraChecks : Bool}
    (sane : isQuorumSetSane qSet extraChecks = true) :
    isQuorumSetSane (normalizeQSet qSet) extraChecks = true := by
  rw [isQuorumSetSane_iff] at sane ⊢
  rw [nodes_normalize]
  exact ⟨sane.1.normalize, sane.2⟩

theorem SCPQuorumSet.merge_eq_self {qSet : SCPQuorumSet}
    (larger : ∀ inner ∈ qSet.innerSets, inner.singleton? = none) :
    qSet.merge = qSet := by
  obtain ⟨threshold, validators, innerSets⟩ := qSet
  have moved : innerSets.filterMap singleton? = [] :=
    List.filterMap_eq_nil_iff.mpr larger
  have kept : innerSets.filter (fun inner => inner.singleton?.isNone) =
      innerSets := by
    rw [List.filter_eq_self]
    intro inner member
    rw [larger inner member]
    rfl
  unfold merge
  simp only [moved, kept, List.append_nil]

theorem SCPQuorumSet.mapInner_eq_self {qSet : SCPQuorumSet}
    {f : SCPQuorumSet → SCPQuorumSet}
    (fixed : ∀ inner ∈ qSet.innerSets, f inner = inner) :
    qSet.mapInner f = qSet := by
  obtain ⟨threshold, validators, innerSets⟩ := qSet
  have same : innerSets.map f = innerSets :=
    (List.map_congr_left fixed).trans (List.map_id _)
  unfold mapInner
  simp only [same]

theorem normalizeQSet_idem (qSet : SCPQuorumSet) :
    normalizeQSet (normalizeQSet qSet) = normalizeQSet qSet := by
  induction qSet using SCPQuorumSet.nested with
  | step threshold validators innerSets ih =>
      set qSet : SCPQuorumSet := ⟨threshold, validators, innerSets⟩
      set merged := (qSet.mapInner normalizeQSet).merge with mergedEq
      have inner : ∀ inner ∈ merged.innerSets,
          normalizeQSet inner = inner ∧ inner.singleton? = none := by
        intro inner member
        rw [mergedEq, SCPQuorumSet.mem_innerSets_merge] at member
        obtain ⟨before, listed, rfl⟩ := List.mem_map.mp member.1
        exact ⟨ih before listed, member.2⟩
      have normal : normalizeQSet merged = merged.unwrap := by
        rw [normalizeQSet_eq,
          SCPQuorumSet.mapInner_eq_self (fun _ member => (inner _ member).1),
          SCPQuorumSet.merge_eq_self (fun _ member => (inner _ member).2)]
      have eq : normalizeQSet qSet = merged.unwrap := normalizeQSet_eq qSet
      rw [eq]
      rcases merged.unwrap_cases with ⟨wrapped, wraps, unwrapped⟩ | same
      · rw [unwrapped]
        have member : wrapped ∈ merged.innerSets := by
          rw [wraps]
          exact List.mem_cons_self
        exact (inner wrapped member).1
      · rw [same, normal, same]

/-- A quorum set means the same after it was normalized. -/
structure SameMeaning (qSet normal : SCPQuorumSet) : Prop where
  slice : ∀ nodeSet, isQuorumSlice normal nodeSet = isQuorumSlice qSet nodeSet
  blocking : ∀ nodeSet,
    isVBlockingInternal nodeSet normal = isVBlockingInternal nodeSet qSet
  weight : ∀ nodeID, getNodeWeight nodeID normal = getNodeWeight nodeID qSet

theorem normalizeQSet_sameMeaning (qSet : SCPQuorumSet) (extraChecks : Bool)
    (sane : isQuorumSetSane qSet extraChecks = true) :
    SameMeaning qSet (normalizeQSet qSet) ∧
      isQuorumSetSane (normalizeQSet qSet) extraChecks = true ∧
      normalizeQSet (normalizeQSet qSet) = normalizeQSet qSet := by
  refine ⟨⟨?_, ?_, ?_⟩, isQuorumSetSane_normalize sane,
    normalizeQSet_idem qSet⟩
  · intro nodeSet
    exact isQuorumSlice_normalize nodeSet qSet
  · intro nodeSet
    exact isVBlocking_normalize nodeSet qSet
  · intro nodeID
    exact getNodeWeight_normalize nodeID (isQuorumSetSane_iff.mp sane).2.1

/-- A wrapper, a single node and a set of two. -/
theorem normalizeQSet_sameMeaning_nested :
    isQuorumSetSane ⟨1, [], [⟨2, [1], [⟨1, [2], []⟩, ⟨1, [3, 4], []⟩]⟩]⟩
        false = true ∧
      normalizeQSet ⟨1, [], [⟨2, [1], [⟨1, [2], []⟩, ⟨1, [3, 4], []⟩]⟩]⟩ =
        ⟨2, [1, 2], [⟨1, [3, 4], []⟩]⟩ ∧
      SameMeaning ⟨1, [], [⟨2, [1], [⟨1, [2], []⟩, ⟨1, [3, 4], []⟩]⟩]⟩
        ⟨2, [1, 2], [⟨1, [3, 4], []⟩]⟩ := by
  have sane : isQuorumSetSane
      ⟨1, [], [⟨2, [1], [⟨1, [2], []⟩, ⟨1, [3, 4], []⟩]⟩]⟩ false = true := by
    decide +kernel
  have normal : normalizeQSet
      ⟨1, [], [⟨2, [1], [⟨1, [2], []⟩, ⟨1, [3, 4], []⟩]⟩]⟩ =
        ⟨2, [1, 2], [⟨1, [3, 4], []⟩]⟩ := rfl
  refine ⟨sane, normal, ?_⟩
  rw [← normal]
  exact (normalizeQSet_sameMeaning _ false sane).1

end StellarCore.Scp
