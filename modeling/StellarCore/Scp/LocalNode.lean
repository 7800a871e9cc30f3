import StellarCore.Lib.Stabilize
import StellarCore.Lib.Threshold
import StellarCore.Scp.Types

/-!
# Quorum slices, blocking sets and quorums

The functions of `LocalNode.cpp` and `QuorumSetUtils.cpp` that the federated
votes of a slot rest on, and what they decide.  A quorum test answers whether
some set of the filtered nodes supports itself and contains a slice of the
local quorum set; a blocking test answers whether the filtered nodes meet
every slice.
-/

namespace StellarCore.Scp

open StellarCore.Lib

mutual

def isQuorumSliceInternal (nodeSet : List NodeID) : SCPQuorumSet → Bool
  | ⟨threshold, validators, innerSets⟩ =>
      countDown threshold
        (validators.map (fun validator => decide (validator ∈ nodeSet)) ++
          innerSlices nodeSet innerSets)

/-- The answers of `isQuorumSliceInternal` for a list of inner sets. -/
def innerSlices (nodeSet : List NodeID) : List SCPQuorumSet → List Bool
  | [] => []
  | inner :: innerSets =>
      isQuorumSliceInternal nodeSet inner :: innerSlices nodeSet innerSets

end

def isQuorumSlice (qSet : SCPQuorumSet) (nodeSet : List NodeID) : Bool :=
  isQuorumSliceInternal nodeSet qSet

/-- `(int)((1 + validators.size() + innerSets.size()) - threshold)`. -/
def leftTillBlock (threshold : Uint32) (entries : Nat) : Int :=
  ((1 + entries : Nat) - (threshold.val : Int)).bmod (2 ^ 32)

mutual

def isVBlockingInternal (nodeSet : List NodeID) : SCPQuorumSet → Bool
  | ⟨threshold, validators, innerSets⟩ =>
      if threshold = 0 then false
      else
        countDown
          (leftTillBlock threshold (validators.length + innerSets.length))
          (validators.map (fun validator => decide (validator ∈ nodeSet)) ++
            innerBlocks nodeSet innerSets)

/-- The answers of `isVBlockingInternal` for a list of inner sets. -/
def innerBlocks (nodeSet : List NodeID) : List SCPQuorumSet → List Bool
  | [] => []
  | inner :: innerSets =>
      isVBlockingInternal nodeSet inner :: innerBlocks nodeSet innerSets

end

/-- The keys of `map` whose statement passes the filter. -/
def filteredNodes (map : EnvelopeMap) (filter : SCPStatement → Bool) :
    List NodeID :=
  (map.entries.filter (fun entry => filter entry.2.statement)).map
    Sigma.fst

def isVBlocking (qSet : SCPQuorumSet) (map : EnvelopeMap)
    (filter : SCPStatement → Bool) : Bool :=
  isVBlockingInternal (filteredNodes map filter) qSet

namespace SCPQuorumSet

mutual

/-- The nodes of a quorum set, as `forAllNodesInternal` visits them. -/
def allNodes : SCPQuorumSet → List NodeID
  | ⟨_, validators, innerSets⟩ => validators ++ allNodesInner innerSets

def allNodesInner : List SCPQuorumSet → List NodeID
  | [] => []
  | inner :: innerSets => allNodes inner ++ allNodesInner innerSets

end

theorem allNodesInner_eq_flatMap (innerSets : List SCPQuorumSet) :
    allNodesInner innerSets = innerSets.flatMap allNodes := by
  induction innerSets with
  | nil => rfl
  | cons inner innerSets ih => simp [allNodesInner, ih]

theorem mem_allNodes {qSet : SCPQuorumSet} {node : NodeID} :
    node ∈ qSet.allNodes ↔ node ∈ qSet.validators ∨
      ∃ inner ∈ qSet.innerSets, node ∈ inner.allNodes := by
  obtain ⟨threshold, validators, innerSets⟩ := qSet
  rw [allNodes, allNodesInner_eq_flatMap]
  simp

end SCPQuorumSet

/-- The lambda `quorumFilter`: a node stays when the quorum set of its
statement has a slice among the nodes left. -/
def quorumFilter (map : EnvelopeMap)
    (qfun : SCPStatement → Option SCPQuorumSet)
    (pNodes : List NodeID) (nodeID : NodeID) : Bool :=
  match map.lookup nodeID with
  | none => false
  | some envelope =>
      match qfun envelope.statement with
      | none => false
      | some qSet => isQuorumSlice qSet pNodes

def isQuorum (qSet : SCPQuorumSet) (map : EnvelopeMap)
    (qfun : SCPStatement → Option SCPQuorumSet)
    (filter : SCPStatement → Bool) : Bool :=
  let pNodes := filteredNodes map filter
  isQuorumSlice qSet
    (stabilize (quorumFilter map qfun) pNodes.length pNodes)

def buildSingletonQSet (nodeID : NodeID) : SCPQuorumSet :=
  ⟨1, [nodeID], []⟩

mutual

/-- `QuorumSetSanityChecker::checkSanity`: the nodes known so far and their
count after a successful check, nothing after a failed one. -/
def checkSanity (extraChecks : Bool) :
    SCPQuorumSet → Nat → List NodeID × Nat → Option (List NodeID × Nat)
  | ⟨threshold, validators, innerSets⟩, depth, (mKnownNodes, mCount) =>
      let totEntries := validators.length + innerSets.length
      if depth > 2 then none
      else if threshold < 1 then none
      else if threshold.val > totEntries then none
      else if extraChecks && threshold.val < totEntries - threshold.val + 1
      then none
      else if ¬ (validators ++ mKnownNodes).Nodup then none
      else
        checkSanityInner extraChecks innerSets (depth + 1)
          (validators ++ mKnownNodes, mCount + validators.length)

def checkSanityInner (extraChecks : Bool) :
    List SCPQuorumSet → Nat → List NodeID × Nat →
      Option (List NodeID × Nat)
  | [], _, seen => some seen
  | inner :: innerSets, depth, seen =>
      match checkSanity extraChecks inner depth seen with
      | none => none
      | some next => checkSanityInner extraChecks innerSets depth next

end

def isQuorumSetSane (qSet : SCPQuorumSet) (extraChecks : Bool) : Bool :=
  match checkSanity extraChecks qSet 0 ([], 0) with
  | none => false
  | some (_, mCount) => 1 ≤ mCount && mCount ≤ 1000

/-! ## What the tests decide -/

private theorem innerSlices_eq_map (nodeSet : List NodeID)
    (innerSets : List SCPQuorumSet) :
    innerSlices nodeSet innerSets =
      innerSets.map (isQuorumSliceInternal nodeSet) := by
  induction innerSets with
  | nil => rfl
  | cons inner innerSets ih => simp [innerSlices, ih]

private theorem innerBlocks_eq_map (nodeSet : List NodeID)
    (innerSets : List SCPQuorumSet) :
    innerBlocks nodeSet innerSets =
      innerSets.map (isVBlockingInternal nodeSet) := by
  induction innerSets with
  | nil => rfl
  | cons inner innerSets ih => simp [innerBlocks, ih]

/-- The entries of a quorum set that the nodes satisfy. -/
def sliceHits (nodeSet : List NodeID) (qSet : SCPQuorumSet) : Nat :=
  (qSet.validators.map
      (fun validator => decide (validator ∈ nodeSet))).count true +
    (qSet.innerSets.map (isQuorumSliceInternal nodeSet)).count true

theorem isQuorumSlice_iff (qSet : SCPQuorumSet) (nodeSet : List NodeID) :
    isQuorumSlice qSet nodeSet = true ↔
      hitsNeeded qSet.threshold ≤ sliceHits nodeSet qSet := by
  obtain ⟨threshold, validators, innerSets⟩ := qSet
  unfold isQuorumSlice isQuorumSliceInternal sliceHits
  rw [countDown_word_iff (by norm_num), List.count_append,
    innerSlices_eq_map]

/-- The entries of a quorum set that the nodes block. -/
def blockHits (nodeSet : List NodeID) (qSet : SCPQuorumSet) : Nat :=
  (qSet.validators.map
      (fun validator => decide (validator ∈ nodeSet))).count true +
    (qSet.innerSets.map (isVBlockingInternal nodeSet)).count true

theorem isVBlockingInternal_iff (qSet : SCPQuorumSet)
    (nodeSet : List NodeID) :
    isVBlockingInternal nodeSet qSet = true ↔
      qSet.threshold ≠ 0 ∧ 0 < blockHits nodeSet qSet ∧
        leftTillBlock qSet.threshold
          (qSet.validators.length + qSet.innerSets.length) ≤
          blockHits nodeSet qSet := by
  obtain ⟨threshold, validators, innerSets⟩ := qSet
  unfold isVBlockingInternal blockHits
  by_cases zero : threshold = 0
  · simp [zero]
  · rw [if_neg zero, countDown_int_iff, List.count_append,
      innerBlocks_eq_map]
    simp [zero]

theorem isQuorumSliceInternal_mono {few many : List NodeID}
    (subset : few ⊆ many) (qSet : SCPQuorumSet)
    (slice : isQuorumSliceInternal few qSet = true) :
    isQuorumSliceInternal many qSet = true := by
  induction qSet using SCPQuorumSet.nested with
  | step threshold validators innerSets ih =>
      have needed := (isQuorumSlice_iff _ _).mp slice
      refine (isQuorumSlice_iff _ _).mpr (needed.trans ?_)
      refine Nat.add_le_add (count_map_mono ?_) (count_map_mono ih)
      intro validator _ hit
      simp only [decide_eq_true_eq] at hit ⊢
      exact subset hit

theorem isVBlockingInternal_mono {few many : List NodeID}
    (subset : few ⊆ many) (qSet : SCPQuorumSet)
    (blocking : isVBlockingInternal few qSet = true) :
    isVBlockingInternal many qSet = true := by
  induction qSet using SCPQuorumSet.nested with
  | step threshold validators innerSets ih =>
      obtain ⟨nonzero, positive, enough⟩ :=
        (isVBlockingInternal_iff _ _).mp blocking
      have more : blockHits few ⟨threshold, validators, innerSets⟩ ≤
          blockHits many ⟨threshold, validators, innerSets⟩ := by
        refine Nat.add_le_add (count_map_mono ?_) (count_map_mono ih)
        intro validator _ hit
        simp only [decide_eq_true_eq] at hit ⊢
        exact subset hit
      exact (isVBlockingInternal_iff _ _).mpr
        ⟨nonzero, positive.trans_le more,
          enough.trans (by exact_mod_cast more)⟩

theorem isQuorumSlice_mono {qSet : SCPQuorumSet} {few many : List NodeID}
    (subset : few ⊆ many) (slice : isQuorumSlice qSet few = true) :
    isQuorumSlice qSet many = true :=
  isQuorumSliceInternal_mono subset qSet slice

theorem isQuorumSliceInternal_nil (qSet : SCPQuorumSet) :
    isQuorumSliceInternal [] qSet = false := by
  induction qSet using SCPQuorumSet.nested with
  | step threshold validators innerSets ih =>
      by_contra notFalse
      have slice : isQuorumSlice ⟨threshold, validators, innerSets⟩ [] =
          true := by
        simpa [isQuorumSlice] using notFalse
      have needed := (isQuorumSlice_iff _ _).mp slice
      have none : sliceHits [] ⟨threshold, validators, innerSets⟩ = 0 := by
        simpa [sliceHits, List.count_eq_zero] using ih
      rw [none] at needed
      exact absurd needed (Nat.not_le_of_gt (hitsNeeded_pos threshold))

/-- A slice has a member. -/
theorem isVBlockingInternal_nil (qSet : SCPQuorumSet) :
    isVBlockingInternal [] qSet = false := by
  induction qSet using SCPQuorumSet.nested with
  | step threshold validators innerSets ih =>
      rw [← Bool.not_eq_true, isVBlockingInternal_iff]
      rintro ⟨_, positive, _⟩
      have none : blockHits [] ⟨threshold, validators, innerSets⟩ = 0 := by
        simpa [blockHits, List.count_eq_zero] using ih
      omega

theorem nodeSet_ne_nil_of_isQuorumSlice {qSet : SCPQuorumSet}
    {nodeSet : List NodeID} (slice : isQuorumSlice qSet nodeSet = true) :
    nodeSet ≠ [] := by
  intro empty
  subst empty
  rw [isQuorumSlice, isQuorumSliceInternal_nil] at slice
  cases slice

theorem mem_filteredNodes {map : EnvelopeMap}
    {filter : SCPStatement → Bool} {nodeID : NodeID} :
    nodeID ∈ filteredNodes map filter ↔
      ∃ envelope, map.lookup nodeID = some envelope ∧
        filter envelope.statement = true := by
  unfold filteredNodes
  rw [List.mem_map]
  constructor
  · rintro ⟨⟨key, envelope⟩, member, rfl⟩
    obtain ⟨inside, passes⟩ := List.mem_filter.mp member
    exact ⟨envelope, AList.mem_lookup_iff.mpr inside, passes⟩
  · rintro ⟨envelope, found, passes⟩
    exact ⟨⟨nodeID, envelope⟩,
      List.mem_filter.mpr ⟨AList.mem_lookup_iff.mp found, passes⟩, rfl⟩

/-- A set of nodes that pass the filter and support one another. -/
structure Supports (map : EnvelopeMap)
    (qfun : SCPStatement → Option SCPQuorumSet)
    (filter : SCPStatement → Bool) (nodes : List NodeID) : Prop where
  passes : ∀ node ∈ nodes, ∃ envelope, map.lookup node = some envelope ∧
    filter envelope.statement = true
  slices : ∀ node ∈ nodes, ∃ envelope qSet,
    map.lookup node = some envelope ∧ qfun envelope.statement = some qSet ∧
      isQuorumSlice qSet nodes = true

theorem quorumFilter_iff {map : EnvelopeMap}
    {qfun : SCPStatement → Option SCPQuorumSet}
    {pNodes : List NodeID} {nodeID : NodeID} :
    quorumFilter map qfun pNodes nodeID = true ↔
      ∃ envelope qSet, map.lookup nodeID = some envelope ∧
        qfun envelope.statement = some qSet ∧
        isQuorumSlice qSet pNodes = true := by
  unfold quorumFilter
  cases found : map.lookup nodeID with
  | none => simp
  | some envelope =>
      cases known : qfun envelope.statement with
      | none => simp [known]
      | some qSet => simp [known]

theorem quorumFilter_monotone (map : EnvelopeMap)
    (qfun : SCPStatement → Option SCPQuorumSet) :
    KeepMonotone (quorumFilter map qfun) := by
  intro few many subset node kept
  obtain ⟨envelope, qSet, found, known, slice⟩ := quorumFilter_iff.mp kept
  exact quorumFilter_iff.mpr
    ⟨envelope, qSet, found, known, isQuorumSlice_mono subset slice⟩

/-- The quorum test finds exactly the self-supporting sets of filtered nodes
that contain a slice of the given quorum set. -/
theorem isQuorum_iff {qSet : SCPQuorumSet} {map : EnvelopeMap}
    {qfun : SCPStatement → Option SCPQuorumSet}
    {filter : SCPStatement → Bool} :
    isQuorum qSet map qfun filter = true ↔
      ∃ nodes, Supports map qfun filter nodes ∧
        isQuorumSlice qSet nodes = true := by
  constructor
  · intro quorum
    refine ⟨_, ⟨?_, ?_⟩, quorum⟩
    · intro node member
      exact mem_filteredNodes.mp (stabilize_subset _ _ member)
    · intro node member
      exact quorumFilter_iff.mp
        (stabilize_supported (Nat.le_refl _) node member)
  · rintro ⟨nodes, ⟨passes, slices⟩, slice⟩
    refine isQuorumSlice_mono ?_ slice
    refine subset_stabilize (quorumFilter_monotone map qfun) ?_ ?_ _
    · intro node member
      exact mem_filteredNodes.mpr (passes node member)
    · intro node member
      exact quorumFilter_iff.mpr (slices node member)

end StellarCore.Scp
