import StellarCore.Scp.ClosestBlocking

/-!
# Smallest sets that block

The answer of `findClosestVBlocking` never exceeds the smallest set of nodes
that can fail and then block.  It blocks itself, at every level of the quorum
set, as long as the set that lists the excluded node has a threshold of at
least 2; in a set of threshold 1 the excluded node keeps every set of nodes
from blocking, and the function answers as if it were blocked or could be.
-/

namespace StellarCore.Scp

open StellarCore.Lib
open SCPQuorumSet

/-! ## Blocking and the nodes of a set -/

theorem isVBlockingInternal_of_nodes {qSet : SCPQuorumSet}
    {few many : List NodeID}
    (more : ∀ node ∈ qSet.allNodes, node ∈ few → node ∈ many)
    (blocking : isVBlockingInternal few qSet = true) :
    isVBlockingInternal many qSet = true := by
  induction qSet using SCPQuorumSet.nested with
  | step threshold validators innerSets ih =>
      obtain ⟨nonzero, positive, enough⟩ :=
        (isVBlockingInternal_iff _ _).mp blocking
      have further : blockHits few ⟨threshold, validators, innerSets⟩ ≤
          blockHits many ⟨threshold, validators, innerSets⟩ := by
        refine Nat.add_le_add (count_map_mono ?_) (count_map_mono ?_)
        · intro validator member hit
          simp only [decide_eq_true_eq] at hit ⊢
          exact more validator (mem_allNodes.mpr (.inl member)) hit
        · intro inner member
          apply ih inner member
          intro node nodeMember
          exact more node
            (mem_allNodes.mpr (.inr ⟨inner, member, nodeMember⟩))
      exact (isVBlockingInternal_iff _ _).mpr
        ⟨nonzero, positive.trans_le further,
          enough.trans (by exact_mod_cast further)⟩

section Missing

variable (nodes : Finset NodeID) (excluded : Option NodeID)

/-- The nodes of the quorum set that are not among the given ones, without
the excluded one. -/
def missingNodes (qSet : SCPQuorumSet) : List NodeID :=
  qSet.allNodes.filter (isMissing nodes excluded)

variable {nodes excluded}

theorem mem_missingNodes {qSet : SCPQuorumSet} {node : NodeID} :
    node ∈ missingNodes nodes excluded qSet ↔
      node ∈ qSet.allNodes ∧ isMissing nodes excluded node = true :=
  List.mem_filter

variable {threshold : Uint32} {validators : List NodeID}
  {innerSets : List SCPQuorumSet}

theorem missingNodes_inner {inner : SCPQuorumSet}
    (member : inner ∈ innerSets) {node : NodeID}
    (missing : node ∈ missingNodes nodes excluded inner) :
    node ∈ missingNodes nodes excluded ⟨threshold, validators, innerSets⟩ := by
  obtain ⟨nodeMember, absent⟩ := mem_missingNodes.mp missing
  exact mem_missingNodes.mpr
    ⟨mem_allNodes.mpr (.inr ⟨inner, member, nodeMember⟩), absent⟩

/-- Parts of different entries have no node in common. -/
theorem WellFormed.nodup_parts
    (wellFormed : WellFormed ⟨threshold, validators, innerSets⟩)
    {chosen : List NodeID} {sets : List SCPQuorumSet}
    {part : SCPQuorumSet → List NodeID}
    (chosenNodup : chosen.Nodup) (chosenInside : chosen ⊆ validators)
    (among : sets.Subperm innerSets)
    (partNodup : ∀ inner ∈ sets, (part inner).Nodup)
    (partInside : ∀ inner ∈ sets, part inner ⊆ inner.allNodes) :
    (chosen ++ sets.flatMap part).Nodup := by
  obtain ⟨_, innerDistinct, apart⟩ :=
    List.nodup_append.mp wellFormed.nodes_distinct
  obtain ⟨_, innerApart⟩ := List.nodup_flatMap.mp innerDistinct
  refine List.nodup_append.mpr ⟨chosenNodup, ?_, ?_⟩
  · refine List.nodup_flatMap.mpr ⟨partNodup, ?_⟩
    obtain ⟨ordered, same, sublist⟩ := among
    have setsApart :
        sets.Pairwise (Function.onFun List.Disjoint SCPQuorumSet.allNodes) :=
      (innerApart.sublist sublist).perm same (fun disjoint => disjoint.symm)
    apply setsApart.imp_of_mem
    intro first second firstMember secondMember disjoint node inFirst inSecond
    exact disjoint (partInside first firstMember inFirst)
      (partInside second secondMember inSecond)
  · intro node inChosen other inSets
    obtain ⟨inner, member, inPart⟩ := List.mem_flatMap.mp inSets
    apply apart node (chosenInside inChosen) other
    exact List.mem_flatMap.mpr
      ⟨inner, among.subset member, partInside inner member inPart⟩

/-! ## What every answer satisfies -/

theorem subperm_take_closeSets (k : ℕ) :
    ((closeSets nodes excluded innerSets).take k).Subperm innerSets :=
  (List.take_sublist k _).subperm.trans
    ((closeSets_perm innerSets).subperm.trans List.filter_sublist.subperm)

theorem WellFormed.closest_inside {qSet : SCPQuorumSet}
    (wellFormed : WellFormed qSet) :
    ∀ node ∈ findClosestVBlocking nodes excluded qSet,
      node ∈ qSet.allNodes ∧ isUsable nodes excluded node = true := by
  induction qSet using SCPQuorumSet.nested with
  | step threshold validators innerSets ih =>
      intro node member
      rw [findClosestVBlocking_eq wellFormed rfl] at member
      rcases List.mem_append.mp member with top | inside
      · obtain ⟨listed, usable⟩ :=
          List.mem_filter.mp (List.mem_of_mem_take top)
        exact ⟨mem_allNodes.mpr (.inl listed), usable⟩
      · obtain ⟨inner, chosen, answered⟩ := List.mem_flatMap.mp inside
        obtain ⟨listed, _⟩ :=
          mem_of_mem_closeSets (List.mem_of_mem_take chosen)
        obtain ⟨nodeMember, usable⟩ :=
          ih inner listed (wellFormed.inner listed) node answered
        exact ⟨mem_allNodes.mpr (.inr ⟨inner, listed, nodeMember⟩), usable⟩

theorem WellFormed.closest_nodup {qSet : SCPQuorumSet}
    (wellFormed : WellFormed qSet) :
    (findClosestVBlocking nodes excluded qSet).Nodup := by
  induction qSet using SCPQuorumSet.nested with
  | step threshold validators innerSets ih =>
      have validatorsNodup :=
        (List.nodup_append.mp wellFormed.nodes_distinct).1
      rw [findClosestVBlocking_eq wellFormed rfl]
      apply wellFormed.nodup_parts
      · exact (validatorsNodup.filter _).sublist (List.take_sublist _ _)
      · intro node member
        exact (List.mem_filter.mp (List.mem_of_mem_take member)).1
      · exact subperm_take_closeSets _
      · intro inner chosen
        have listed := (mem_of_mem_closeSets (List.mem_of_mem_take chosen)).1
        exact ih inner listed (wellFormed.inner listed)
      · intro inner chosen node member
        have listed := (mem_of_mem_closeSets (List.mem_of_mem_take chosen)).1
        exact ((wellFormed.inner listed).closest_inside node member).1

/-! ## No smaller set -/

/-- One for each usable validator, and the sizes of the answers for the inner
sets. -/
def entryCosts (nodes : Finset NodeID) (excluded : Option NodeID)
    (validators : List NodeID) (innerSets : List SCPQuorumSet) : List ℕ :=
  List.replicate (usableValidators nodes excluded validators).length 1 ++
    (closeSets nodes excluded innerSets).map
      (fun inner => (findClosestVBlocking nodes excluded inner).length)

theorem entryCosts_sorted :
    (entryCosts nodes excluded validators innerSets).Pairwise (· ≤ ·) := by
  refine List.pairwise_append.mpr ⟨?_, ?_, ?_⟩
  · exact List.pairwise_replicate.mpr (.inr le_rfl)
  · apply List.pairwise_map.mpr
    exact bySize_emplaceAll List.Pairwise.nil _
  · intro one isOne cost isCost
    obtain ⟨inner, member, rfl⟩ := List.mem_map.mp isCost
    rw [List.eq_of_mem_replicate isOne]
    exact List.length_pos_iff.mpr (mem_of_mem_closeSets member).2

theorem length_closest
    (wellFormed : WellFormed ⟨threshold, validators, innerSets⟩)
    {needed : ℕ} (size : needed =
      1 + (validators.length + innerSets.length) - threshold.val -
        blockedEntries nodes excluded validators innerSets) :
    (findClosestVBlocking nodes excluded
      ⟨threshold, validators, innerSets⟩).length =
      ((entryCosts nodes excluded validators innerSets).take needed).sum := by
  rw [findClosestVBlocking_eq wellFormed size, entryCosts, List.take_append,
    List.sum_append, List.length_append, List.length_flatMap,
    List.length_replicate, List.take_replicate, List.sum_replicate,
    List.length_take, List.map_take]
  simp

/-- The part of a set of nodes that belongs to an inner set. -/
def partOf (other : List NodeID) (inner : SCPQuorumSet) : List NodeID :=
  other.filter (fun node => node ∈ inner.allNodes)

/-- The costs of the entries that a blocking set adds to the blocked ones. -/
theorem entries_of_blocks
    (wellFormed : WellFormed ⟨threshold, validators, innerSets⟩)
    {other : List NodeID}
    (usable : ∀ node ∈ other, isUsable nodes excluded node = true)
    (blocks : isVBlockingInternal (other ++ missingNodes nodes excluded
      ⟨threshold, validators, innerSets⟩)
      ⟨threshold, validators, innerSets⟩ = true) :
    1 + (validators.length + innerSets.length) - threshold.val -
        blockedEntries nodes excluded validators innerSets ≤
      (usableValidators nodes excluded validators).countP
        (fun node => node ∈ other) +
      (closeSets nodes excluded innerSets).countP
        (isVBlockingInternal (other ++ missingNodes nodes excluded
          ⟨threshold, validators, innerSets⟩)) := by
  rw [wellFormed.blocks_iff, countP_validators nodes excluded,
    countP_innerSets nodes excluded] at blocks
  have failing : (usableValidators nodes excluded validators).countP
      (fun node => node ∈ other ++ missingNodes nodes excluded
        ⟨threshold, validators, innerSets⟩) =
      (usableValidators nodes excluded validators).countP
        (fun node => node ∈ other) := by
    apply List.countP_congr
    intro node member
    have notMissing : node ∉ missingNodes nodes excluded
        ⟨threshold, validators, innerSets⟩ := by
      intro missing
      have contrary := not_isUsable_of_isMissing
        (mem_missingNodes.mp missing).2
      rw [(List.mem_filter.mp member).2] at contrary
      cases contrary
    simp [notMissing]
  have missing : (validators.filter (fun validator =>
      !isUsable nodes excluded validator)).countP
      (fun node => node ∈ other ++ missingNodes nodes excluded
        ⟨threshold, validators, innerSets⟩) ≤
      validators.countP (isMissing nodes excluded) := by
    rw [← countP_isMissing]
    apply List.countP_mono_left
    intro node member fallen
    rcases List.mem_append.mp (of_decide_eq_true fallen) with added | missing
    · have contrary := (List.mem_filter.mp member).2
      rw [usable node added] at contrary
      cases contrary
    · exact (mem_missingNodes.mp missing).2
  have blocked : (innerSets.filter (fun inner =>
      (findClosestVBlocking nodes excluded inner).isEmpty)).countP
      (isVBlockingInternal (other ++ missingNodes nodes excluded
        ⟨threshold, validators, innerSets⟩)) ≤
      innerSets.countP (fun inner =>
        (findClosestVBlocking nodes excluded inner).isEmpty) := by
    rw [List.countP_eq_length_filter (p := fun inner =>
      (findClosestVBlocking nodes excluded inner).isEmpty)]
    exact List.countP_le_length
  unfold blockedEntries
  omega

theorem WellFormed.closest_least {qSet : SCPQuorumSet}
    (wellFormed : WellFormed qSet) {other : List NodeID}
    (distinct : other.Nodup)
    (usable : ∀ node ∈ other, isUsable nodes excluded node = true)
    (blocks : isVBlockingInternal
      (other ++ missingNodes nodes excluded qSet) qSet = true) :
    (findClosestVBlocking nodes excluded qSet).length ≤ other.length := by
  induction qSet using SCPQuorumSet.nested generalizing other with
  | step threshold validators innerSets ih =>
      have enough := entries_of_blocks wellFormed usable blocks
      generalize setsEq : (closeSets nodes excluded innerSets).filter
        (isVBlockingInternal (other ++ missingNodes nodes excluded
          ⟨threshold, validators, innerSets⟩)) = sets
      generalize validatorsEq : (usableValidators nodes excluded
        validators).filter (fun node => node ∈ other) = failing
      rw [List.countP_eq_length_filter, List.countP_eq_length_filter, setsEq,
        validatorsEq] at enough
      have setsSublist : sets.Sublist (closeSets nodes excluded innerSets) :=
        setsEq ▸ List.filter_sublist
      have failingSublist : failing.Sublist
          (usableValidators nodes excluded validators) :=
        validatorsEq ▸ List.filter_sublist
      have chosen : ∀ inner ∈ sets, inner ∈ innerSets ∧
          isVBlockingInternal (other ++ missingNodes nodes excluded
            ⟨threshold, validators, innerSets⟩) inner = true := by
        intro inner member
        rw [← setsEq] at member
        obtain ⟨close, blocked⟩ := List.mem_filter.mp member
        exact ⟨(mem_of_mem_closeSets close).1, blocked⟩
      have parts : ∀ inner ∈ sets,
          (findClosestVBlocking nodes excluded inner).length ≤
            (partOf other inner).length := by
        intro inner member
        obtain ⟨listed, blocked⟩ := chosen inner member
        apply ih inner listed (wellFormed.inner listed)
          (distinct.filter _)
        · intro node inside
          exact usable node (List.mem_filter.mp inside).1
        · apply isVBlockingInternal_of_nodes _ blocked
          intro node nodeMember fallen
          rcases List.mem_append.mp fallen with added | missing
          · exact List.mem_append_left _
              (List.mem_filter.mpr ⟨added, decide_eq_true nodeMember⟩)
          · exact List.mem_append_right _
              (mem_missingNodes.mpr
                ⟨nodeMember, (mem_missingNodes.mp missing).2⟩)
      have failingInside : failing ⊆ validators := by
        intro node member
        exact (List.mem_filter.mp (failingSublist.subset member)).1
      have validatorsNodup :=
        (List.nodup_append.mp wellFormed.nodes_distinct).1
      have partsDistinct : (failing ++ sets.flatMap (partOf other)).Nodup := by
        apply wellFormed.nodup_parts
        · exact (validatorsNodup.filter _).sublist failingSublist
        · exact failingInside
        · exact setsSublist.subperm.trans
            ((closeSets_perm innerSets).subperm.trans
              List.filter_sublist.subperm)
        · intro inner _
          exact distinct.filter _
        · intro inner _ node inside
          exact of_decide_eq_true (List.mem_filter.mp inside).2
      rw [length_closest wellFormed rfl]
      calc ((entryCosts nodes excluded validators innerSets).take _).sum
          ≤ (List.replicate failing.length 1 ++ sets.map (fun inner =>
              (findClosestVBlocking nodes excluded inner).length)).sum := by
            apply sum_take_le entryCosts_sorted
            · apply List.Sublist.subperm
              exact (List.replicate_sublist_replicate 1 |>.mpr
                failingSublist.length_le).append (setsSublist.map _)
            · simpa using enough
        _ = failing.length + (sets.map (fun inner =>
              (findClosestVBlocking nodes excluded inner).length)).sum := by
            simp
        _ ≤ failing.length +
              (sets.map (fun inner => (partOf other inner).length)).sum :=
            Nat.add_le_add_left (List.sum_le_sum parts) _
        _ = (failing ++ sets.flatMap (partOf other)).length := by
            simp [List.length_flatMap]
        _ ≤ other.length := by
            apply partsDistinct.length_le_of_subset
            intro node member
            rcases List.mem_append.mp member with top | inside
            · rw [← validatorsEq] at top
              exact of_decide_eq_true (List.mem_filter.mp top).2
            · obtain ⟨inner, _, inPart⟩ := List.mem_flatMap.mp inside
              exact (List.mem_filter.mp inPart).1

end Missing

/-! ## Sets that can spare the excluded node -/

/-- No set that the excluded node stands in needs every one of its entries
for a block. -/
def Spares (excluded : Option NodeID) (qSet : SCPQuorumSet) : Prop :=
  qSet.Everywhere (fun set => ∀ node, excluded = some node →
    node ∈ set.validators → 2 ≤ set.threshold.val)

section Spares

variable {nodes : Finset NodeID} {excluded : Option NodeID}
variable {threshold : Uint32} {validators : List NodeID}
  {innerSets : List SCPQuorumSet}

theorem length_validators (nodes : Finset NodeID)
    (excluded : Option NodeID) (validators : List NodeID) :
    validators.length =
      validators.countP (isMissing nodes excluded) +
        (usableValidators nodes excluded validators).length +
        validators.countP (fun validator => excluded = some validator) := by
  unfold usableValidators
  rw [← List.countP_eq_length_filter]
  induction validators with
  | nil => rfl
  | cons validator validators ih =>
      simp only [List.countP_cons, List.length_cons, isMissing,
        isUsable] at ih ⊢
      by_cases same : excluded = some validator
      · simp [same] at ih ⊢
        omega
      · by_cases present : validator ∈ nodes
        · simp [same, present]
          omega
        · simp [same, present]
          omega

theorem validators_enough (nodes : Finset NodeID)
    (wellFormed : WellFormed ⟨threshold, validators, innerSets⟩)
    (spares : Spares excluded ⟨threshold, validators, innerSets⟩) :
    1 + validators.length ≤ validators.countP (isMissing nodes excluded) +
      (usableValidators nodes excluded validators).length +
        threshold.val := by
  have all := length_validators nodes excluded validators
  have positive := wellFormed.inRange.here.1
  have spared := spares.here
  simp only at positive spared
  cases excluded with
  | none =>
      have skipped : validators.countP
          (fun validator => (none : Option NodeID) = some validator) = 0 := by
        simp
      omega
  | some node =>
      have skipped : validators.countP
          (fun validator => some node = some validator) =
          validators.count node := by
        rw [List.count]
        apply List.countP_congr
        intro validator _
        rw [decide_eq_true_eq, Option.some_inj, beq_iff_eq, eq_comm]
      by_cases listed : node ∈ validators
      · have once := List.nodup_iff_count_le_one.mp
          (List.nodup_append.mp wellFormed.nodes_distinct).1 node
        have two := spared node rfl listed
        omega
      · have absent := List.count_eq_zero_of_not_mem listed
        omega

/-- The usable entries are enough to block the set. -/
theorem entries_enough (nodes : Finset NodeID)
    (wellFormed : WellFormed ⟨threshold, validators, innerSets⟩)
    (spares : Spares excluded ⟨threshold, validators, innerSets⟩) :
    1 + (validators.length + innerSets.length) - threshold.val -
        blockedEntries nodes excluded validators innerSets ≤
      (usableValidators nodes excluded validators).length +
        (closeSets nodes excluded innerSets).length := by
  have top := validators_enough nodes wellFormed spares
  have inside := length_closeSets nodes excluded innerSets
  unfold blockedEntries
  omega

theorem countP_take_of_forall {ι : Type} {items : List ι} {test : ι → Bool}
    {k : ℕ} (hold : ∀ item ∈ items.take k, test item = true) :
    min k items.length ≤ items.countP test := by
  rw [← List.length_take, ← List.countP_eq_length.mpr hold]
  exact (List.take_sublist k items).countP_le

/-- A set of nodes blocks when it contains what is missing and the usable
validators and blocks the inner sets that the function has chosen. -/
theorem blocks_of_entries
    (wellFormed : WellFormed ⟨threshold, validators, innerSets⟩)
    (spares : Spares excluded ⟨threshold, validators, innerSets⟩)
    {needed : ℕ} (size : needed =
      1 + (validators.length + innerSets.length) - threshold.val -
        blockedEntries nodes excluded validators innerSets)
    {fallen : List NodeID}
    (missing : ∀ node ∈ validators,
      isMissing nodes excluded node = true → node ∈ fallen)
    (failing : ∀ node ∈ (usableValidators nodes excluded validators).take
      needed, node ∈ fallen)
    (blocked : ∀ inner ∈ innerSets,
      findClosestVBlocking nodes excluded inner = [] →
        isVBlockingInternal fallen inner = true)
    (chosen : ∀ inner ∈ (closeSets nodes excluded innerSets).take
      (needed - (usableValidators nodes excluded validators).length),
        isVBlockingInternal fallen inner = true) :
    isVBlockingInternal fallen ⟨threshold, validators, innerSets⟩ = true := by
  have enough := entries_enough nodes wellFormed spares
  have failingCount : min needed
      (usableValidators nodes excluded validators).length ≤
      (usableValidators nodes excluded validators).countP
        (fun node => node ∈ fallen) := by
    apply countP_take_of_forall
    intro node member
    exact decide_eq_true (failing node member)
  have missingCount : validators.countP (isMissing nodes excluded) ≤
      (validators.filter (fun validator =>
        !isUsable nodes excluded validator)).countP
        (fun validator => validator ∈ fallen) := by
    rw [← countP_isMissing]
    apply List.countP_mono_left
    intro node member absent
    exact decide_eq_true (missing node (List.mem_filter.mp member).1 absent)
  have blockedCount : innerSets.countP (fun inner =>
      (findClosestVBlocking nodes excluded inner).isEmpty) ≤
      (innerSets.filter (fun inner =>
        (findClosestVBlocking nodes excluded inner).isEmpty)).countP
        (isVBlockingInternal fallen) := by
    rw [List.countP_eq_length_filter]
    apply (List.countP_eq_length.mpr _).ge
    intro inner member
    obtain ⟨listed, empty⟩ := List.mem_filter.mp member
    exact blocked inner listed (List.isEmpty_iff.mp empty)
  have chosenCount := countP_take_of_forall chosen
  rw [wellFormed.blocks_iff, countP_validators nodes excluded,
    countP_innerSets nodes excluded]
  unfold blockedEntries at size enough
  omega

theorem closest_blocks {qSet : SCPQuorumSet} (wellFormed : WellFormed qSet)
    (spares : Spares excluded qSet) :
    isVBlockingInternal (findClosestVBlocking nodes excluded qSet ++
      missingNodes nodes excluded qSet) qSet = true := by
  induction qSet using SCPQuorumSet.nested with
  | step threshold validators innerSets ih =>
      have answer : findClosestVBlocking nodes excluded
          ⟨threshold, validators, innerSets⟩ = _ :=
        findClosestVBlocking_eq wellFormed rfl
      -- the answer for an inner set whose nodes are all in the whole answer
      have inner : ∀ inner ∈ innerSets,
          findClosestVBlocking nodes excluded inner ⊆
            findClosestVBlocking nodes excluded
              ⟨threshold, validators, innerSets⟩ →
          isVBlockingInternal (findClosestVBlocking nodes excluded
            ⟨threshold, validators, innerSets⟩ ++ missingNodes nodes excluded
              ⟨threshold, validators, innerSets⟩) inner = true := by
        intro inner listed included
        apply isVBlockingInternal_mono _ inner
          (ih inner listed (wellFormed.inner listed)
            (spares.inside inner listed))
        intro node member
        rcases List.mem_append.mp member with answered | missing
        · exact List.mem_append_left _ (included answered)
        · exact List.mem_append_right _ (missingNodes_inner listed missing)
      apply blocks_of_entries wellFormed spares rfl
      · intro node listed absent
        apply List.mem_append_right
        exact mem_missingNodes.mpr ⟨mem_allNodes.mpr (.inl listed), absent⟩
      · intro node member
        apply List.mem_append_left
        rw [answer]
        exact List.mem_append_left _ member
      · intro set listed empty
        apply inner set listed
        rw [empty]
        exact List.nil_subset _
      · intro set member
        apply inner set (mem_of_mem_closeSets (List.mem_of_mem_take member)).1
        intro node answered
        rw [answer]
        apply List.mem_append_right
        exact List.mem_flatMap.mpr ⟨set, member, answered⟩

end Spares

/-! ## Sets that cannot spare it -/

section Unspared

variable {excluded : Option NodeID}

theorem closeValidators_congr (excluded : Option NodeID)
    {first second : Finset NodeID} {validators : List NodeID}
    (same : ∀ node ∈ validators, node ∈ first ↔ node ∈ second)
    (left : Uint64) (res : List NodeID) :
    closeValidators first excluded left res validators =
      closeValidators second excluded left res validators := by
  induction validators generalizing left res with
  | nil => rfl
  | cons validator validators ih =>
      have later := ih (fun node member =>
        same node (List.mem_cons_of_mem _ member))
      have here := same validator List.mem_cons_self
      simp only [closeValidators, later, here]

theorem findClosestVBlocking_congr {first second : Finset NodeID}
    {qSet : SCPQuorumSet}
    (same : ∀ node ∈ qSet.allNodes, node ∈ first ↔ node ∈ second) :
    findClosestVBlocking first excluded qSet =
      findClosestVBlocking second excluded qSet := by
  induction qSet using SCPQuorumSet.nested with
  | step threshold validators innerSets ih =>
      have answers : innerSets.map (findClosestVBlocking first excluded) =
          innerSets.map (findClosestVBlocking second excluded) := by
        apply List.map_congr_left
        intro inner member
        apply ih inner member
        intro node nodeMember
        exact same node
          (mem_allNodes.mpr (.inr ⟨inner, member, nodeMember⟩))
      have top := closeValidators_congr excluded
        (fun node member => same node (mem_allNodes.mpr (.inl member)))
      simp only [findClosestVBlocking, innerAnswers_eq_map, answers, top]

theorem closest_eq_nil {nodes : Finset NodeID} {qSet : SCPQuorumSet}
    (wellFormed : WellFormed qSet)
    (gone : ∀ node ∈ qSet.allNodes, node ∉ nodes) :
    findClosestVBlocking nodes excluded qSet = [] := by
  apply List.eq_nil_iff_forall_not_mem.mpr
  intro node member
  obtain ⟨nodeMember, usable⟩ := wellFormed.closest_inside node member
  simp only [isUsable, Bool.and_eq_true, decide_eq_true_eq] at usable
  exact gone node nodeMember usable.2

theorem not_spares_cases {qSet : SCPQuorumSet}
    (spoiled : ¬ Spares excluded qSet) :
    (∃ node, excluded = some node ∧ node ∈ qSet.validators ∧
      qSet.threshold.val < 2) ∨
      ∃ inner ∈ qSet.innerSets, ¬ Spares excluded inner := by
  by_contra neither
  push Not at neither
  exact spoiled (.intro neither.1 neither.2)

theorem mem_of_not_spares {node : NodeID} {qSet : SCPQuorumSet}
    (spoiled : ¬ Spares (some node) qSet) : node ∈ qSet.allNodes := by
  induction qSet using SCPQuorumSet.nested with
  | step threshold validators innerSets ih =>
      rcases not_spares_cases spoiled with
        ⟨_, same, listed, _⟩ | ⟨inner, member, inside⟩
      · rw [Option.some_inj.mp same]
        exact mem_allNodes.mpr (.inl listed)
      · exact mem_allNodes.mpr (.inr ⟨inner, member, ih inner member inside⟩)

/-- The answer is empty though the missing nodes do not block. -/
def FalselyBlocked (nodes : Finset NodeID) (excluded : Option NodeID)
    (qSet : SCPQuorumSet) : Prop :=
  findClosestVBlocking nodes excluded qSet = [] ∧
    isVBlockingInternal (missingNodes nodes excluded qSet) qSet = false

theorem falselyBlocked_top {threshold : Uint32} {validators : List NodeID}
    {innerSets : List SCPQuorumSet}
    (wellFormed : WellFormed ⟨threshold, validators, innerSets⟩)
    {node : NodeID} (listed : node ∈ validators) (one : threshold.val < 2) :
    FalselyBlocked ∅ (some node) ⟨threshold, validators, innerSets⟩ := by
  constructor
  · apply closest_eq_nil wellFormed
    intro other _
    exact Finset.notMem_empty other
  · rw [← Bool.not_eq_true, wellFormed.blocks_iff]
    have stays : node ∉ missingNodes ∅ (some node)
        ⟨threshold, validators, innerSets⟩ := by
      simp [mem_missingNodes, isMissing]
    have fewer : validators.countP (fun validator => validator ∈
        missingNodes ∅ (some node) ⟨threshold, validators, innerSets⟩) <
        validators.length :=
      List.countP_lt_length_iff.mpr
        ⟨node, listed, decide_eq_false stays⟩
    have inner : innerSets.countP (isVBlockingInternal
        (missingNodes ∅ (some node) ⟨threshold, validators, innerSets⟩)) ≤
        innerSets.length := List.countP_le_length
    omega

/-- The nodes that stay when the ones in `down` fall, with those of one inner
set as they were. -/
def standing (all inside : List NodeID) (kept : Finset NodeID)
    (down : List NodeID) : Finset NodeID :=
  (all.filter (fun node =>
    if node ∈ inside then node ∈ kept else node ∉ down)).toFinset

theorem standing_parts {all inside down up : List NodeID}
    (kept : Finset NodeID) (split : all.Perm (inside ++ (down ++ up)))
    (distinct : all.Nodup) :
    (∀ node ∈ inside, node ∈ standing all inside kept down ↔ node ∈ kept) ∧
      (∀ node ∈ down, node ∉ standing all inside kept down) ∧
      ∀ node ∈ up, node ∈ standing all inside kept down := by
  obtain ⟨_, outside, apart⟩ :=
    List.nodup_append.mp (split.nodup_iff.mp distinct)
  obtain ⟨_, _, upright⟩ := List.nodup_append.mp outside
  have listed : ∀ node ∈ inside ++ (down ++ up), node ∈ all :=
    fun node member => split.mem_iff.mpr member
  refine ⟨?_, ?_, ?_⟩
  · intro node member
    have known := listed node (by simp [member])
    simp [standing, known, member]
  · intro node member
    have other : node ∉ inside := fun inside =>
      apart node inside node (by simp [member]) rfl
    simp [standing, other, member]
  · intro node member
    have known := listed node (by simp [member])
    have other : node ∉ inside := fun inside =>
      apart node inside node (by simp [member]) rfl
    have standing : node ∉ down := fun fallen =>
      upright node fallen node member rfl
    simp [Scp.standing, known, other, standing]

/-- As many entries fall as leave one to block, which is the inner set that
only seems to be blocked. -/
theorem falselyBlocked_of_split {threshold : Uint32}
    {falling staying : List NodeID} {inner : SCPQuorumSet}
    {fallingSets stayingSets innerSets : List SCPQuorumSet}
    (wellFormed : WellFormed ⟨threshold, falling ++ staying, innerSets⟩)
    (split : innerSets.Perm (inner :: (fallingSets ++ stayingSets)))
    (count : falling.length + fallingSets.length + threshold.val =
      (falling ++ staying).length + innerSets.length)
    {node : NodeID} (inside : node ∈ inner.allNodes) {kept : Finset NodeID}
    (falsely : FalselyBlocked kept (some node) inner) :
    ∃ nodes, FalselyBlocked nodes (some node)
      ⟨threshold, falling ++ staying, innerSets⟩ := by
  have parts :
      (falling ++ staying ++ innerSets.flatMap SCPQuorumSet.allNodes).Perm
      (inner.allNodes ++
        ((falling ++ fallingSets.flatMap SCPQuorumSet.allNodes) ++
        (staying ++ stayingSets.flatMap SCPQuorumSet.allNodes))) := by
    apply ((split.flatMap_right SCPQuorumSet.allNodes).append_left _).trans
    rw [List.perm_iff_count]
    intro other
    simp only [List.flatMap_cons, List.flatMap_append, List.count_append]
    omega
  obtain ⟨innerKept, down, up⟩ :=
    standing_parts kept parts wellFormed.nodes_distinct
  obtain ⟨_, _, elsewhere⟩ := List.nodup_append.mp
    (parts.nodup_iff.mp wellFormed.nodes_distinct)
  generalize standing
    (falling ++ staying ++ innerSets.flatMap SCPQuorumSet.allNodes)
    inner.allNodes kept
    (falling ++ fallingSets.flatMap SCPQuorumSet.allNodes) = nodes
    at innerKept down up
  have innerSetsOf : ∀ set ∈ inner :: (fallingSets ++ stayingSets),
      WellFormed set := fun set member =>
    wellFormed.inner (split.mem_iff.mpr member)
  refine ⟨nodes, ?_, ?_⟩
  · have missing : falling.length ≤
        (falling ++ staying).countP (isMissing nodes (some node)) := by
      rw [List.countP_append]
      apply Nat.le_add_right_of_le
      apply (List.countP_eq_length.mpr _).ge
      intro validator member
      have other : node ≠ validator :=
        elsewhere node inside validator (by simp [member])
      have fallen := down validator (by simp [member])
      simp [isMissing, other, fallen]
    have blocked : fallingSets.length + 1 ≤ innerSets.countP (fun inner =>
        (findClosestVBlocking nodes (some node) inner).isEmpty) := by
      have seeming : findClosestVBlocking nodes (some node) inner = [] := by
        rw [findClosestVBlocking_congr innerKept]
        exact falsely.1
      rw [split.countP_eq, List.countP_cons_of_pos (by simp [seeming]),
        List.countP_append]
      apply Nat.succ_le_succ
      apply Nat.le_add_right_of_le
      apply (List.countP_eq_length.mpr _).ge
      intro set member
      apply List.isEmpty_iff.mpr
      apply closest_eq_nil (innerSetsOf set (by simp [member]))
      intro other nodeMember
      apply down other
      exact List.mem_append_right _
        (List.mem_flatMap.mpr ⟨set, member, nodeMember⟩)
    have nothing : 1 + ((falling ++ staying).length + innerSets.length) -
        threshold.val - blockedEntries nodes (some node)
          (falling ++ staying) innerSets = 0 := by
      unfold blockedEntries
      omega
    rw [findClosestVBlocking_eq wellFormed nothing.symm]
    simp
  · rw [← Bool.not_eq_true, wellFormed.blocks_iff]
    have present :
        ∀ other ∈ staying ++ stayingSets.flatMap SCPQuorumSet.allNodes,
        other ∉ missingNodes nodes (some node)
          ⟨threshold, falling ++ staying, innerSets⟩ := by
      intro other member missing
      have absent := (mem_missingNodes.mp missing).2
      simp only [isMissing, Bool.and_eq_true, decide_eq_true_eq] at absent
      exact absent.2 (up other member)
    generalize missingEq : missingNodes nodes (some node)
      ⟨threshold, falling ++ staying, innerSets⟩ = fallen at present
    have validatorsCount : (falling ++ staying).countP
        (fun validator => validator ∈ fallen) ≤ falling.length := by
      have none :
          staying.countP (fun validator => validator ∈ fallen) = 0 := by
        apply List.countP_eq_zero.mpr
        intro validator member
        simpa using present validator (by simp [member])
      rw [List.countP_append, none]
      exact List.countP_le_length
    have seeming : isVBlockingInternal fallen inner = false := by
      rw [← Bool.not_eq_true]
      intro blocks
      have before : isVBlockingInternal
          (missingNodes kept (some node) inner) inner = true := by
        apply isVBlockingInternal_of_nodes _ blocks
        intro other nodeMember missing
        rw [← missingEq] at missing
        have absent := (mem_missingNodes.mp missing).2
        refine mem_missingNodes.mpr ⟨nodeMember, ?_⟩
        simpa [isMissing, innerKept other nodeMember] using absent
      rw [falsely.2] at before
      cases before
    have innerSetsCount : innerSets.countP (isVBlockingInternal fallen) ≤
        fallingSets.length := by
      have none : stayingSets.countP (isVBlockingInternal fallen) = 0 := by
        apply List.countP_eq_zero.mpr
        intro set member blocks
        have bare : isVBlockingInternal [] set = true := by
          apply isVBlockingInternal_of_nodes _ blocks
          intro other nodeMember missing
          refine absurd missing (present other ?_)
          exact List.mem_append_right _
            (List.mem_flatMap.mpr ⟨set, member, nodeMember⟩)
        rw [isVBlockingInternal_nil] at bare
        cases bare
      rw [split.countP_eq, List.countP_cons_of_neg (by simp [seeming]),
        List.countP_append, none]
      exact List.countP_le_length
    omega

theorem exists_falselyBlocked {node : NodeID} {qSet : SCPQuorumSet}
    (wellFormed : WellFormed qSet) (spoiled : ¬ Spares (some node) qSet) :
    ∃ nodes, FalselyBlocked nodes (some node) qSet := by
  induction qSet using SCPQuorumSet.nested with
  | step threshold validators innerSets ih =>
      rcases not_spares_cases spoiled with
        ⟨_, same, listed, one⟩ | ⟨inner, member, spoiledInner⟩
      · obtain rfl := Option.some_inj.mp same
        exact ⟨∅, falselyBlocked_top wellFormed listed one⟩
      · obtain ⟨kept, falsely⟩ :=
          ih inner member (wellFormed.inner member) spoiledInner
        obtain ⟨before, after, split⟩ := List.append_of_mem member
        obtain ⟨positive, below⟩ := wellFormed.inRange.here
        simp only at positive below split
        -- the validators fall first, then inner sets
        generalize spareEq : validators.length + innerSets.length -
          threshold.val = spare
        have order : innerSets.Perm (inner ::
            ((before ++ after).take (spare - validators.length) ++
              (before ++ after).drop (spare - validators.length))) := by
          rw [List.take_append_drop, split]
          exact List.perm_middle
        have sizes := order.length_eq
        have parts := List.take_append_drop spare validators
        rw [← parts] at wellFormed ⊢
        apply falselyBlocked_of_split wellFormed order _
          (mem_of_not_spares spoiledInner) falsely
        simp only [List.take_append_drop, List.length_cons,
          List.length_take] at sizes ⊢
        omega

end Unspared

/-! ## When the answer is the closest blocking set -/

/-- The nodes can fail and, together with the missing ones, block. -/
def Completes (nodes : Finset NodeID) (excluded : Option NodeID)
    (qSet : SCPQuorumSet) (failing : List NodeID) : Prop :=
  (∀ node ∈ failing, node ∈ nodes ∧ excluded ≠ some node) ∧
    isVBlockingInternal
      (failing ++ missingNodes nodes excluded qSet) qSet = true

/-- The result is a smallest set that completes the missing nodes to a
blocking set, and is empty exactly when these block alone. -/
structure IsClosest (nodes : Finset NodeID) (excluded : Option NodeID)
    (qSet : SCPQuorumSet) (result : List NodeID) : Prop where
  nodup : result.Nodup
  inside : ∀ node ∈ result, node ∈ nodes ∧ excluded ≠ some node
  completes : (∃ failing, Completes nodes excluded qSet failing) →
    Completes nodes excluded qSet result
  minimum : ∀ failing, failing.Nodup →
    Completes nodes excluded qSet failing → result.length ≤ failing.length
  empty : result = [] ↔
    isVBlockingInternal (missingNodes nodes excluded qSet) qSet = true

theorem isUsable_iff {nodes : Finset NodeID} {excluded : Option NodeID}
    {node : NodeID} :
    isUsable nodes excluded node = true ↔
      node ∈ nodes ∧ excluded ≠ some node := by
  simp [isUsable, and_comm]

theorem isClosest_of_spares {nodes : Finset NodeID}
    {excluded : Option NodeID} {qSet : SCPQuorumSet}
    (wellFormed : WellFormed qSet) (spares : Spares excluded qSet) :
    IsClosest nodes excluded qSet
      (findClosestVBlocking nodes excluded qSet) := by
  have blocks : isVBlockingInternal
      (findClosestVBlocking nodes excluded qSet ++
        missingNodes nodes excluded qSet) qSet = true :=
    closest_blocks wellFormed spares
  have inside : ∀ node ∈ findClosestVBlocking nodes excluded qSet,
      node ∈ nodes ∧ excluded ≠ some node :=
    fun node member =>
      isUsable_iff.mp (wellFormed.closest_inside node member).2
  have least : ∀ failing, failing.Nodup →
      Completes nodes excluded qSet failing →
      (findClosestVBlocking nodes excluded qSet).length ≤
        failing.length := by
    rintro failing distinct ⟨usable, blocking⟩
    exact wellFormed.closest_least distinct
      (fun node member => isUsable_iff.mpr (usable node member)) blocking
  refine ⟨wellFormed.closest_nodup, inside, fun _ => ⟨inside, blocks⟩, least,
    ?_⟩
  constructor
  · intro nothing
    rw [nothing] at blocks
    exact blocks
  · intro already
    apply List.eq_nil_of_length_eq_zero
    apply Nat.eq_zero_of_le_zero
    apply least [] List.nodup_nil
    exact ⟨fun node member => absurd member List.not_mem_nil, already⟩

theorem findClosestVBlocking_isClosest_iff {qSet : SCPQuorumSet}
    {extraChecks : Bool} (sane : isQuorumSetSane qSet extraChecks = true)
    (excluded : Option NodeID) :
    (∀ nodes, IsClosest nodes excluded qSet
      (findClosestVBlocking nodes excluded qSet)) ↔
      qSet.Everywhere (fun set => ∀ node, excluded = some node →
        node ∈ set.validators → 2 ≤ set.threshold.val) := by
  have wellFormed := wellFormed_of_sane sane
  constructor
  · intro closest
    by_contra spoiled
    cases excluded with
    | none =>
        have spares : ∀ qSet, Spares none qSet := by
          intro qSet
          induction qSet using SCPQuorumSet.nested with
          | step threshold validators innerSets ih =>
              exact .intro (fun node impossible => nomatch impossible) ih
        exact spoiled (spares qSet)
    | some node =>
        obtain ⟨nodes, empty, unblocked⟩ :=
          exists_falselyBlocked wellFormed spoiled
        have blocked := (closest nodes).empty.mp empty
        rw [unblocked] at blocked
        cases blocked
  · intro spares nodes
    exact isClosest_of_spares wellFormed spares

/-- Any two of the three nodes 0, 1 and 2 with the node 0 spared. -/
theorem threeNodes_isClosest :
    isQuorumSetSane ⟨2, [0, 1, 2], []⟩ false = true ∧
      ∀ nodes, IsClosest nodes (some 0) ⟨2, [0, 1, 2], []⟩
        (findClosestVBlocking nodes (some 0) ⟨2, [0, 1, 2], []⟩) := by
  have sane : isQuorumSetSane ⟨2, [0, 1, 2], []⟩ false = true := by
    decide +kernel
  refine ⟨sane, (findClosestVBlocking_isClosest_iff sane (some 0)).mpr ?_⟩
  refine .intro ?_ (fun inner member => absurd member List.not_mem_nil)
  intro node _ _
  decide

/-- Two inner sets of two nodes, each with a slice in either node. -/
def eitherOfTwo : SCPQuorumSet :=
  ⟨2, [], [⟨1, [0, 1], []⟩, ⟨1, [2, 3], []⟩]⟩

/-- With the node 0 excluded, the node 1 is answered, which blocks nothing;
the nodes 2 and 3 do block. -/
theorem eitherOfTwo_not_isClosest :
    isQuorumSetSane eitherOfTwo false = true ∧
      findClosestVBlocking {0, 1, 2, 3} (some 0) eitherOfTwo = [1] ∧
      ¬ IsClosest {0, 1, 2, 3} (some 0) eitherOfTwo
        (findClosestVBlocking {0, 1, 2, 3} (some 0) eitherOfTwo) := by
  have answer :
      findClosestVBlocking {0, 1, 2, 3} (some 0) eitherOfTwo = [1] := by
    decide +kernel
  refine ⟨by decide +kernel, answer, ?_⟩
  intro closest
  have completed : Completes {0, 1, 2, 3} (some 0) eitherOfTwo [2, 3] := by
    refine ⟨?_, by decide +kernel⟩
    simp
  have blocks := (closest.completes ⟨_, completed⟩).2
  rw [answer] at blocks
  revert blocks
  decide +kernel

end StellarCore.Scp
