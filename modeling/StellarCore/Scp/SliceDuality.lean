import StellarCore.Scp.LocalNode

/-!
# Slices as sets of nodes

A set of nodes contains a slice of a quorum set when it satisfies as many of
its entries as the threshold asks for.  The quorum test is stated over such
sets, and the two walks over a quorum set are dual: a set blocks exactly when
the other nodes contain no slice.
-/

namespace StellarCore.Scp

open StellarCore.Lib

namespace SCPQuorumSet

/-- A property of a quorum set and of all sets nested in it. -/
inductive Everywhere (holds : SCPQuorumSet → Prop) : SCPQuorumSet → Prop
  | intro {qSet : SCPQuorumSet} (here : holds qSet)
      (inside : ∀ inner ∈ qSet.innerSets, Everywhere holds inner) :
      Everywhere holds qSet

theorem Everywhere.here {holds : SCPQuorumSet → Prop} {qSet : SCPQuorumSet}
    (everywhere : qSet.Everywhere holds) : holds qSet := by
  cases everywhere with
  | intro here inside => exact here

theorem Everywhere.inside {holds : SCPQuorumSet → Prop}
    {qSet : SCPQuorumSet} (everywhere : qSet.Everywhere holds) :
    ∀ inner ∈ qSet.innerSets, inner.Everywhere holds := by
  cases everywhere with
  | intro here inside => exact inside

/-- The nodes contain one slice of the quorum set: entries chosen up to its
threshold, each a node of the set or an inner set with a slice. -/
inductive HasSlice (nodes : Set NodeID) : SCPQuorumSet → Prop
  | intro {qSet : SCPQuorumSet} (validators : List NodeID)
      (innerSets : List SCPQuorumSet)
      (validatorsChosen : validators.Sublist qSet.validators)
      (innerSetsChosen : innerSets.Sublist qSet.innerSets)
      (enough : qSet.threshold.val ≤ validators.length + innerSets.length)
      (validatorsInside : ∀ validator ∈ validators, validator ∈ nodes)
      (innerSetsInside : ∀ inner ∈ innerSets, HasSlice nodes inner) :
      HasSlice nodes qSet

end SCPQuorumSet

open SCPQuorumSet

/-- Every threshold is at least 1. -/
def Positive (qSet : SCPQuorumSet) : Prop :=
  qSet.Everywhere (fun qSet => 1 ≤ qSet.threshold.val)

theorem count_map_true {ι : Type} (hit : ι → Bool) (items : List ι) :
    (items.map hit).count true = items.countP hit := by
  rw [List.count, List.countP_map]
  congr 1
  funext item
  simp

theorem hitsNeeded_of_pos {left : Uint32} (positive : 1 ≤ left.val) :
    hitsNeeded left = left.val := by
  have nonzero : left ≠ 0 := by
    intro zero
    subst zero
    simp at positive
  rw [hitsNeeded, if_neg nonzero]

theorem isQuorumSlice_iff_hasSlice {qSet : SCPQuorumSet}
    (positive : Positive qSet) (nodeSet : List NodeID) :
    isQuorumSlice qSet nodeSet = true ↔
      qSet.HasSlice { node | node ∈ nodeSet } := by
  induction qSet using SCPQuorumSet.nested with
  | step threshold validators innerSets ih =>
      rw [isQuorumSlice_iff, hitsNeeded_of_pos positive.here, sliceHits,
        count_map_true, count_map_true]
      constructor
      · intro enough
        refine .intro (validators.filter (· ∈ nodeSet))
          (innerSets.filter (isQuorumSliceInternal nodeSet))
          List.filter_sublist List.filter_sublist ?_ ?_ ?_
        · simpa [List.countP_eq_length_filter] using enough
        · intro validator member
          simpa using (List.mem_filter.mp member).2
        · intro inner member
          obtain ⟨inside, slice⟩ := List.mem_filter.mp member
          exact (ih inner inside (positive.inside inner inside)).mp slice
      · rintro ⟨chosen, chosenInner, validatorsChosen, innerSetsChosen,
          enough, validatorsInside, innerSetsInside⟩
        have validatorsCount : chosen.length ≤
            validators.countP (fun validator => validator ∈ nodeSet) := by
          rw [← List.countP_eq_length.mpr (fun validator member =>
            decide_eq_true (validatorsInside validator member))]
          exact validatorsChosen.countP_le
        have innerSetsCount : chosenInner.length ≤
            innerSets.countP (isQuorumSliceInternal nodeSet) := by
          rw [← List.countP_eq_length.mpr (fun inner member =>
            (ih inner (innerSetsChosen.subset member)
              (positive.inside inner (innerSetsChosen.subset member))).mpr
              (innerSetsInside inner member))]
          exact innerSetsChosen.countP_le
        exact enough.trans (Nat.add_le_add validatorsCount innerSetsCount)

/-! ## Quorums -/

/-- The passes end after as many rounds as there are nodes, and the answer is
whether some set of the filtered nodes contains a slice of each of its
members and of the local quorum set. -/
theorem isQuorum_greatest_fixpoint {qSet : SCPQuorumSet}
    (map : EnvelopeMap) {qfun : SCPStatement → Option SCPQuorumSet}
    (filter : SCPStatement → Bool) (positive : Positive qSet)
    (allPositive : ∀ statement known, qfun statement = some known →
      Positive known) :
    (∀ passes, (filteredNodes map filter).length ≤ passes →
      isQuorumSlice qSet (stabilize (quorumFilter map qfun) passes
        (filteredNodes map filter)) = isQuorum qSet map qfun filter) ∧
    (isQuorum qSet map qfun filter = true ↔
      ∃ quorum : Set NodeID,
        (∀ node ∈ quorum, ∃ envelope, map.lookup node = some envelope ∧
          filter envelope.statement = true) ∧
        (∀ node ∈ quorum, ∃ envelope known,
          map.lookup node = some envelope ∧
          qfun envelope.statement = some known ∧ known.HasSlice quorum) ∧
        qSet.HasSlice quorum) := by
  constructor
  · intro passes enough
    rw [isQuorum, stabilize_of_le (Nat.le_refl _) enough]
  · rw [isQuorum_iff]
    constructor
    · rintro ⟨nodes, supports, slice⟩
      refine ⟨{ node | node ∈ nodes }, supports.passes, ?_,
        (isQuorumSlice_iff_hasSlice positive nodes).mp slice⟩
      intro node member
      obtain ⟨envelope, known, found, knownSet, inside⟩ :=
        supports.slices node member
      exact ⟨envelope, known, found, knownSet,
        (isQuorumSlice_iff_hasSlice
          (allPositive _ _ knownSet) nodes).mp inside⟩
    · rintro ⟨quorum, passes, slices, slice⟩
      classical
      -- the quorum as a list
      obtain ⟨nodes, nodesEq⟩ : ∃ nodes : List NodeID,
          { node | node ∈ nodes } = quorum := by
        refine ⟨(filteredNodes map filter).filter (· ∈ quorum), ?_⟩
        ext node
        simp only [Set.mem_ofPred_eq, List.mem_filter, decide_eq_true_eq]
        constructor
        · exact fun both => both.2
        · intro member
          exact ⟨mem_filteredNodes.mpr (passes node member), member⟩
      subst nodesEq
      refine ⟨nodes, ⟨passes, ?_⟩,
        (isQuorumSlice_iff_hasSlice positive nodes).mpr slice⟩
      intro node member
      obtain ⟨envelope, known, found, knownSet, inside⟩ :=
        slices node member
      exact ⟨envelope, known, found, knownSet,
        (isQuorumSlice_iff_hasSlice
          (allPositive _ _ knownSet) nodes).mpr inside⟩

/-- Three nodes, of which two block a threshold of two. -/
def threeNodes : SCPQuorumSet :=
  ⟨2, [1, 2, 3], []⟩

theorem threeNodes_positive : Positive threeNodes :=
  .intro (by decide) (by intro inner member; cases member)

def sampleEnvelope (node : NodeID) : SCPEnvelope :=
  { statement :=
      { nodeID := node, slotIndex := 1
        pledges := .externalize
          { commit := ⟨1, []⟩, nH := 1, commitQuorumSetHash := 0 } }
    signature := [] }

def twoEnvelopes : EnvelopeMap :=
  (AList.singleton 1 (sampleEnvelope 1)).insert 2 (sampleEnvelope 2)

def knownSets (_ : SCPStatement) : Option SCPQuorumSet :=
  some threeNodes

theorem twoEnvelopes_quorum :
    ∃ quorum : Set NodeID,
      (∀ node ∈ quorum, ∃ envelope,
        twoEnvelopes.lookup node = some envelope ∧ true = true) ∧
      (∀ node ∈ quorum, ∃ envelope known,
        twoEnvelopes.lookup node = some envelope ∧
        knownSets envelope.statement = some known ∧
        known.HasSlice quorum) ∧
      threeNodes.HasSlice quorum := by
  have positive : ∀ statement known, knownSets statement = some known →
      Positive known := by
    intro statement known found
    cases found
    exact threeNodes_positive
  have fixpoint := isQuorum_greatest_fixpoint twoEnvelopes (fun _ => true)
    threeNodes_positive positive
  exact fixpoint.2.mp (by decide)

/-! ## Sane quorum sets -/

/-- The threshold lies between 1 and the number of entries. -/
def InRange (qSet : SCPQuorumSet) : Prop :=
  qSet.Everywhere (fun qSet => 1 ≤ qSet.threshold.val ∧
    qSet.threshold.val ≤ qSet.validators.length + qSet.innerSets.length)

theorem leftTillBlock_eq {threshold : Uint32} {entries : Nat}
    (below : threshold.val ≤ entries)
    (few : 1 + entries < 2 ^ 31 + threshold.val) :
    leftTillBlock threshold entries =
      ((1 + entries - threshold.val : Nat) : Int) := by
  unfold leftTillBlock
  rw [Int.bmod_eq_of_le (by push_cast; omega) (by push_cast; omega)]
  omega

/-- What a sane quorum set has of nodes and thresholds. -/
structure WellFormed (qSet : SCPQuorumSet) : Prop where
  inRange : InRange qSet
  distinct : qSet.allNodes.Nodup
  small : qSet.allNodes.length ≤ 1000

theorem InRange.allNodes_pos {qSet : SCPQuorumSet} (inRange : InRange qSet) :
    1 ≤ qSet.allNodes.length := by
  induction qSet using SCPQuorumSet.nested with
  | step threshold validators innerSets ih =>
      obtain ⟨positive, below⟩ := inRange.here
      rw [SCPQuorumSet.allNodes, allNodesInner_eq_flatMap, List.length_append]
      cases validators with
      | cons validator validators =>
          rw [List.length_cons]
          omega
      | nil =>
          cases innerSets with
          | nil => exact absurd (positive.trans below) (by simp)
          | cons inner innerSets =>
              have first := ih inner List.mem_cons_self
                (inRange.inside inner List.mem_cons_self)
              simp only [List.flatMap_cons, List.length_append]
              omega

theorem length_le_flatMap_allNodes {innerSets : List SCPQuorumSet}
    (inRange : ∀ inner ∈ innerSets, InRange inner) :
    innerSets.length ≤ (innerSets.flatMap SCPQuorumSet.allNodes).length := by
  induction innerSets with
  | nil => simp
  | cons inner innerSets ih =>
      have first := (inRange inner List.mem_cons_self).allNodes_pos
      have rest := ih (fun other member =>
        inRange other (List.mem_cons_of_mem _ member))
      simp only [List.flatMap_cons, List.length_append, List.length_cons]
      omega

namespace WellFormed

variable {threshold : Uint32} {validators : List NodeID}
  {innerSets : List SCPQuorumSet}

theorem nodes_distinct
    (wellFormed : WellFormed ⟨threshold, validators, innerSets⟩) :
    (validators ++ innerSets.flatMap SCPQuorumSet.allNodes).Nodup := by
  have distinct := wellFormed.distinct
  rwa [SCPQuorumSet.allNodes, allNodesInner_eq_flatMap] at distinct

theorem entries_le
    (wellFormed : WellFormed ⟨threshold, validators, innerSets⟩) :
    validators.length + innerSets.length ≤ 1000 := by
  have small := wellFormed.small
  rw [SCPQuorumSet.allNodes, allNodesInner_eq_flatMap,
    List.length_append] at small
  have inner := length_le_flatMap_allNodes wellFormed.inRange.inside
  simp only at inner
  omega

theorem inner (wellFormed : WellFormed ⟨threshold, validators, innerSets⟩)
    {inner : SCPQuorumSet} (member : inner ∈ innerSets) :
    WellFormed inner := by
  have sublist : inner.allNodes.Sublist
      (validators ++ innerSets.flatMap SCPQuorumSet.allNodes) :=
    (List.sublist_flatten_of_mem (List.mem_map_of_mem member)).trans
      (List.sublist_append_right _ _)
  refine ⟨wellFormed.inRange.inside inner member,
    wellFormed.nodes_distinct.sublist sublist, ?_⟩
  have small := wellFormed.small
  rw [SCPQuorumSet.allNodes, allNodesInner_eq_flatMap] at small
  exact sublist.length_le.trans small

theorem blocks_iff
    (wellFormed : WellFormed ⟨threshold, validators, innerSets⟩)
    (set : List NodeID) :
    isVBlockingInternal set ⟨threshold, validators, innerSets⟩ = true ↔
      1 + (validators.length + innerSets.length) - threshold.val ≤
        validators.countP (fun validator => validator ∈ set) +
          innerSets.countP (isVBlockingInternal set) := by
  obtain ⟨positive, below⟩ := wellFormed.inRange.here
  have entries := wellFormed.entries_le
  simp only at positive below
  have nonzero : threshold ≠ 0 := by
    rintro rfl
    simp at positive
  rw [isVBlockingInternal_iff, blockHits, count_map_true, count_map_true,
    leftTillBlock_eq below (by omega)]
  simp only [ne_eq, nonzero, not_false_eq_true, true_and]
  omega

end WellFormed

/-- A check that passed: the known nodes are distinct and those of the sets
that were checked have joined them. -/
structure Passed (added : List NodeID) (seen found : List NodeID × ℕ) :
    Prop where
  known : found.1.Perm (added ++ seen.1)
  distinct : found.1.Nodup
  count : found.2 = seen.2 + added.length

theorem checkSanityInner_passed {extraChecks : Bool}
    {innerSets : List SCPQuorumSet} {depth : ℕ} {seen found : List NodeID × ℕ}
    (each : ∀ inner ∈ innerSets, ∀ {depth seen found}, seen.1.Nodup →
      checkSanity extraChecks inner depth seen = some found →
        InRange inner ∧ Passed inner.allNodes seen found)
    (distinct : seen.1.Nodup)
    (passed : checkSanityInner extraChecks innerSets depth seen =
      some found) :
    (∀ inner ∈ innerSets, InRange inner) ∧
      Passed (innerSets.flatMap SCPQuorumSet.allNodes) seen found := by
  induction innerSets generalizing seen with
  | nil =>
      obtain rfl := Option.some_inj.mp passed
      exact ⟨fun inner member => absurd member List.not_mem_nil,
        List.Perm.refl _, distinct, rfl⟩
  | cons first rest ih =>
      unfold checkSanityInner at passed
      split at passed
      next => cases passed
      next middle checked =>
        obtain ⟨firstRange, firstPassed⟩ :=
          each first List.mem_cons_self distinct checked
        obtain ⟨restRange, restPassed⟩ := ih
          (fun inner member => each inner (List.mem_cons_of_mem _ member))
          firstPassed.distinct passed
        refine ⟨?_, ?_, restPassed.distinct, ?_⟩
        · intro inner member
          rcases List.mem_cons.mp member with rfl | member
          · exact firstRange
          · exact restRange inner member
        · rw [List.flatMap_cons, List.append_assoc]
          apply restPassed.known.trans
          apply (firstPassed.known.append_left _).trans
          rw [← List.append_assoc, ← List.append_assoc]
          exact List.perm_append_comm.append_right _
        · rw [List.flatMap_cons, List.length_append, restPassed.count,
            firstPassed.count]
          omega

theorem checkSanity_passed {extraChecks : Bool} {qSet : SCPQuorumSet}
    {depth : ℕ} {seen found : List NodeID × ℕ} (distinct : seen.1.Nodup)
    (passed : checkSanity extraChecks qSet depth seen = some found) :
    InRange qSet ∧ Passed qSet.allNodes seen found := by
  induction qSet using SCPQuorumSet.nested generalizing depth seen found with
  | step threshold validators innerSets ih =>
      obtain ⟨known, count⟩ := seen
      unfold checkSanity at passed
      simp only [Option.ite_none_left_eq_some, not_lt, not_not] at passed
      obtain ⟨-, positive, below, -, fresh, passed⟩ := passed
      obtain ⟨range, inner⟩ := checkSanityInner_passed ih fresh passed
      refine ⟨.intro ⟨?_, below⟩ range, ?_⟩
      · exact Fin.le_def.mp positive
      · rw [SCPQuorumSet.allNodes, allNodesInner_eq_flatMap]
        refine ⟨?_, inner.distinct, ?_⟩
        · apply inner.known.trans
          rw [← List.append_assoc]
          exact List.perm_append_comm.append_right _
        · rw [inner.count, List.length_append]
          omega

theorem wellFormed_of_sane {qSet : SCPQuorumSet} {extraChecks : Bool}
    (sane : isQuorumSetSane qSet extraChecks = true) : WellFormed qSet := by
  unfold isQuorumSetSane at sane
  split at sane
  next => cases sane
  next known count passed =>
    obtain ⟨range, nodes⟩ := checkSanity_passed List.nodup_nil passed
    have same := nodes.known
    have size := nodes.count
    simp only [List.append_nil, Nat.zero_add] at same size
    simp only [Bool.and_eq_true, decide_eq_true_eq] at sane
    exact ⟨range, same.nodup_iff.mp nodes.distinct, by omega⟩

/-! ## Duality -/

/-- Two lists of answers that are opposite entry by entry. -/
theorem countP_opposite {ι : Type} {hit miss : ι → Bool} {items : List ι}
    (opposite : ∀ item ∈ items, hit item = !miss item) :
    items.countP hit + items.countP miss = items.length := by
  induction items with
  | nil => simp
  | cons item items ih =>
      have tail := ih (fun other member => opposite other (by simp [member]))
      have head := opposite item (by simp)
      simp only [List.countP_cons, List.length_cons, head]
      cases miss item with
      | false => simp; omega
      | true => simp; omega

theorem isVBlockingInternal_eq_not {qSet : SCPQuorumSet}
    (wellFormed : WellFormed qSet) {nodes others : List NodeID}
    (complement : ∀ node ∈ qSet.allNodes, node ∈ others ↔ node ∉ nodes) :
    isVBlockingInternal nodes qSet = !isQuorumSliceInternal others qSet := by
  induction qSet using SCPQuorumSet.nested with
  | step threshold validators innerSets ih =>
      obtain ⟨positive, below⟩ := wellFormed.inRange.here
      simp only at positive below
      have validatorsOpposite : ∀ validator ∈ validators,
          decide (validator ∈ nodes) = !decide (validator ∈ others) := by
        intro validator member
        have split := complement validator
          (mem_allNodes.mpr (.inl member))
        by_cases inside : validator ∈ nodes
        · simp [inside, split]
        · simp [inside, split]
      have innerOpposite : ∀ inner ∈ innerSets,
          isVBlockingInternal nodes inner =
            !isQuorumSliceInternal others inner := by
        intro inner member
        apply ih inner member (wellFormed.inner member)
        intro node nodeMember
        exact complement node
          (mem_allNodes.mpr (.inr ⟨inner, member, nodeMember⟩))
      have validatorsSum := countP_opposite validatorsOpposite
      have innerSum := countP_opposite innerOpposite
      have slice := isQuorumSlice_iff
        ⟨threshold, validators, innerSets⟩ others
      have block := wellFormed.blocks_iff nodes
      simp only [hitsNeeded_of_pos positive, sliceHits, count_map_true,
        isQuorumSlice] at slice
      cases answer : isQuorumSliceInternal others
          ⟨threshold, validators, innerSets⟩ with
      | true =>
          have needed := slice.mp answer
          rw [Bool.not_true, ← Bool.not_eq_true, block]
          omega
      | false =>
          have missed := mt slice.mpr (by rw [answer]; simp)
          rw [Bool.not_false, block]
          omega

/-- A set blocks a sane quorum set exactly when the other nodes contain no
slice of it, so that it meets every slice. -/
theorem isVBlocking_dual {qSet : SCPQuorumSet} {extraChecks : Bool}
    (sane : isQuorumSetSane qSet extraChecks = true) (nodes : List NodeID) :
    (isVBlockingInternal nodes qSet = true ↔
      isQuorumSlice qSet
        (qSet.allNodes.filter (fun node => node ∉ nodes)) = false) ∧
    ∀ slice, isVBlockingInternal nodes qSet = true →
      isQuorumSlice qSet slice = true →
        ∃ node, node ∈ nodes ∧ node ∈ slice := by
  have wellFormed := wellFormed_of_sane sane
  constructor
  · have dual : isVBlockingInternal nodes qSet =
        !isQuorumSliceInternal
          (qSet.allNodes.filter (fun node => node ∉ nodes)) qSet := by
      apply isVBlockingInternal_eq_not wellFormed
      intro node member
      simp [member]
    rw [dual, Bool.not_eq_true', isQuorumSlice]
  · intro slice blocks inside
    by_contra apart
    push Not at apart
    have dual : isVBlockingInternal nodes qSet =
        !isQuorumSliceInternal
          (slice ++ qSet.allNodes.filter (fun node => node ∉ nodes))
          qSet := by
      apply isVBlockingInternal_eq_not wellFormed
      intro node member
      simp only [List.mem_append, List.mem_filter, member, true_and,
        decide_eq_true_eq]
      constructor
      · rintro (sliceMember | outside)
        · exact fun nodesMember => apart node nodesMember sliceMember
        · exact outside
      · exact .inr
    have larger := isQuorumSliceInternal_mono
      (List.subset_append_left slice
        (qSet.allNodes.filter (fun node => node ∉ nodes))) qSet inside
    rw [larger, blocks] at dual
    cases dual

theorem threeNodes_dual :
    isVBlockingInternal [1, 2] threeNodes = true ∧
      isQuorumSlice threeNodes [3] = false ∧
      ∃ node, node ∈ ([1, 2] : List NodeID) ∧
        node ∈ ([2, 3] : List NodeID) := by
  have sane : isQuorumSetSane threeNodes true = true := by decide
  have dual := isVBlocking_dual sane [1, 2]
  have blocks : isVBlockingInternal [1, 2] threeNodes = true := by decide
  exact ⟨blocks, dual.1.mp blocks, dual.2 [2, 3] blocks (by decide)⟩

end StellarCore.Scp
