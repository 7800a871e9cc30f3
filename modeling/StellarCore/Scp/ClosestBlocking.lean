import StellarCore.Lib.Cheapest
import StellarCore.Scp.SliceDuality

/-!
# The closest blocking set

`findClosestVBlocking` of `LocalNode.cpp`: how many of the given nodes have to
fail, besides the nodes that are missing already, until a quorum set is
blocked.  An excluded node can neither fail nor be missing.
-/

namespace StellarCore.Scp

open StellarCore.Lib
open SCPQuorumSet

/-! ## The function -/

section Source

variable (nodes : Finset NodeID) (excluded : Option NodeID)

/-- `((1 + validators.size() + innerSets.size()) - threshold)` as a
`size_t`. -/
def itemsTillBlock (threshold : Uint32) (entries : ℕ) : Uint64 :=
  Fin.ofNat (2 ^ 64) (1 + entries) - Fin.ofNat (2 ^ 64) threshold.val

/-- The loop over the validators: `leftTillBlock` and `res`, or nothing when
the set is already blocked. -/
def closeValidators (leftTillBlock : Uint64) (res : List NodeID) :
    List NodeID → Option (Uint64 × List NodeID)
  | [] => some (leftTillBlock, res)
  | validator :: validators =>
      if excluded = some validator then
        closeValidators leftTillBlock res validators
      else if validator ∉ nodes then
        if leftTillBlock - 1 = 0 then none
        else closeValidators (leftTillBlock - 1) res validators
      else
        closeValidators leftTillBlock (res ++ [validator]) validators

/-- The loop over the answers for the inner sets: `leftTillBlock` and
`resInternals`, or nothing when the set is already blocked. -/
def closeInnerSets (leftTillBlock : Uint64)
    (resInternals : List (List NodeID)) :
    List (List NodeID) → Option (Uint64 × List (List NodeID))
  | [] => some (leftTillBlock, resInternals)
  | v :: answers =>
      if v.length = 0 then
        if leftTillBlock - 1 = 0 then none
        else closeInnerSets (leftTillBlock - 1) resInternals answers
      else
        closeInnerSets leftTillBlock (emplace List.length v resInternals)
          answers

/-- The smallest answers, as long as something is left to block. -/
def useSubsets (leftTillBlock : Uint64) (res : List NodeID) :
    List (List NodeID) → List NodeID
  | [] => res
  | v :: resInternals =>
      if leftTillBlock = 0 then res
      else useSubsets (leftTillBlock - 1) (res ++ v) resInternals

/-- The end of the function, once both loops are done. -/
def getCloser (leftTillBlock : Uint64) (res : List NodeID)
    (resInternals : List (List NodeID)) : List NodeID :=
  let res :=
    if res.length > leftTillBlock.val then res.take leftTillBlock.val else res
  useSubsets (leftTillBlock - Fin.ofNat (2 ^ 64) res.length) res resInternals

mutual

def findClosestVBlocking : SCPQuorumSet → List NodeID
  | ⟨threshold, validators, innerSets⟩ =>
      match closeValidators nodes excluded
          (itemsTillBlock threshold (validators.length + innerSets.length))
          [] validators with
      | none => []
      | some (leftTillBlock, res) =>
          match closeInnerSets leftTillBlock [] (innerAnswers innerSets) with
          | none => []
          | some (leftTillBlock, resInternals) =>
              getCloser leftTillBlock res resInternals

def innerAnswers : List SCPQuorumSet → List (List NodeID)
  | [] => []
  | inner :: innerSets =>
      findClosestVBlocking inner :: innerAnswers innerSets

end

end Source

theorem innerAnswers_eq_map (nodes : Finset NodeID)
    (excluded : Option NodeID) (innerSets : List SCPQuorumSet) :
    innerAnswers nodes excluded innerSets =
      innerSets.map (findClosestVBlocking nodes excluded) := by
  induction innerSets with
  | nil => rfl
  | cons inner innerSets ih => simp [innerAnswers, ih]

/-! ## The loops in closed form -/

section Loops

variable (nodes : Finset NodeID) (excluded : Option NodeID)

/-- A validator that is missing. -/
def isMissing (node : NodeID) : Bool :=
  excluded ≠ some node && node ∉ nodes

/-- A validator that may fail. -/
def isUsable (node : NodeID) : Bool :=
  excluded ≠ some node && node ∈ nodes

theorem val_sub_one {left : Uint64} (positive : 1 ≤ left.val) :
    (left - 1).val = left.val - 1 :=
  Fin.sub_val_of_le (Fin.le_def.mpr positive)

theorem sub_one_eq_zero_iff {left : Uint64} (positive : 1 ≤ left.val) :
    left - 1 = 0 ↔ left.val ≤ 1 := by
  rw [Fin.ext_iff, val_sub_one positive]
  show left.val - 1 = 0 ↔ _
  omega

theorem closeValidators_eq (validators : List NodeID) (left : Uint64)
    (res : List NodeID) (positive : 1 ≤ left.val) :
    (closeValidators nodes excluded left res validators).map
        (Prod.map Fin.val id) =
      if left.val ≤ validators.countP (isMissing nodes excluded) then none
      else some (left.val - validators.countP (isMissing nodes excluded),
        res ++ validators.filter (isUsable nodes excluded)) := by
  induction validators generalizing left res with
  | nil =>
      have pending : ¬ left.val ≤ 0 := by omega
      simp [closeValidators, pending]
  | cons validator validators ih =>
      unfold closeValidators
      split
      next skipped =>
        have missing : isMissing nodes excluded validator = false := by
          simp [isMissing, skipped]
        have usable : isUsable nodes excluded validator = false := by
          simp [isUsable, skipped]
        rw [ih left res positive, List.countP_cons_of_neg (by simp [missing]),
          List.filter_cons_of_neg (by simp [usable])]
      next counted =>
        split
        next absent =>
          have missing : isMissing nodes excluded validator = true := by
            simp [isMissing, counted, absent]
          have usable : isUsable nodes excluded validator = false := by
            simp [isUsable, absent]
          rw [List.countP_cons_of_pos missing,
            List.filter_cons_of_neg (by simp [usable])]
          split
          next done =>
            have last := (sub_one_eq_zero_iff positive).mp done
            rw [if_pos (by omega)]
            rfl
          next more =>
            have further := mt (sub_one_eq_zero_iff positive).mpr more
            have previous := val_sub_one positive
            rw [ih (left - 1) res (by omega), previous]
            by_cases blocked : left.val - 1 ≤
                validators.countP (isMissing nodes excluded)
            · rw [if_pos blocked, if_pos (by omega)]
            · rw [if_neg blocked, if_neg (by omega)]
              congr 2
              omega
        next present =>
          have missing : isMissing nodes excluded validator = false := by
            simpa [isMissing, counted] using present
          have usable : isUsable nodes excluded validator = true := by
            simpa [isUsable, counted] using present
          rw [ih left _ positive, List.countP_cons_of_neg (by simp [missing]),
            List.filter_cons_of_pos usable, List.append_assoc]
          rfl

theorem closeInnerSets_eq (answers : List (List NodeID)) (left : Uint64)
    (internals : List (List NodeID)) (positive : 1 ≤ left.val) :
    (closeInnerSets left internals answers).map (Prod.map Fin.val id) =
      if left.val ≤ answers.countP List.isEmpty then none
      else some (left.val - answers.countP List.isEmpty,
        emplaceAll List.length
          (answers.filter (fun answer => !answer.isEmpty)) internals) := by
  induction answers generalizing left internals with
  | nil =>
      have pending : ¬ left.val ≤ 0 := by omega
      simp [closeInnerSets, pending, emplaceAll]
  | cons answer answers ih =>
      unfold closeInnerSets
      split
      next zero =>
        have empty : answer.isEmpty = true := by
          simpa [List.length_eq_zero_iff] using zero
        rw [List.countP_cons_of_pos empty,
          List.filter_cons_of_neg (by simp [empty])]
        split
        next done =>
          have last := (sub_one_eq_zero_iff positive).mp done
          rw [if_pos (by omega)]
          rfl
        next more =>
          have further := mt (sub_one_eq_zero_iff positive).mpr more
          have previous := val_sub_one positive
          rw [ih (left - 1) internals (by omega), previous]
          by_cases blocked : left.val - 1 ≤ answers.countP List.isEmpty
          · rw [if_pos blocked, if_pos (by omega)]
          · rw [if_neg blocked, if_neg (by omega)]
            congr 2
            omega
      next nonzero =>
        have filled : answer.isEmpty = false := by
          simpa [List.length_eq_zero_iff] using nonzero
        rw [ih left _ positive, List.countP_cons_of_neg (by simp [filled]),
          List.filter_cons_of_pos (by simp [filled])]
        rfl

theorem counted_cases {α : Type} {result : Option (Uint64 × α)}
    {start count : ℕ} {value : α}
    (counted : result.map (Prod.map Fin.val id) =
      if start ≤ count then none else some (start - count, value)) :
    (result = none ∧ start ≤ count) ∨
      ∃ left, result = some (left, value) ∧ left.val = start - count ∧
        count < start := by
  cases result with
  | none =>
      rw [Option.map_none] at counted
      split at counted
      next blocked => exact .inl ⟨rfl, blocked⟩
      next => cases counted
  | some pair =>
      obtain ⟨left, found⟩ := pair
      rw [Option.map_some] at counted
      split at counted
      next => cases counted
      next unblocked =>
        obtain ⟨size, same⟩ := Prod.ext_iff.mp (Option.some_inj.mp counted)
        obtain rfl : found = value := same
        exact .inr ⟨left, rfl, size, not_le.mp unblocked⟩

theorem useSubsets_eq (internals : List (List NodeID)) (left : Uint64)
    (res : List NodeID) :
    useSubsets left res internals =
      res ++ (internals.take left.val).flatten := by
  induction internals generalizing left res with
  | nil => simp [useSubsets]
  | cons answer internals ih =>
      unfold useSubsets
      split
      next done => simp [done]
      next more =>
        have positive : 1 ≤ left.val :=
          Nat.one_le_iff_ne_zero.mpr (fun zero => more (Fin.ext zero))
        obtain ⟨fewer, size⟩ := Nat.exists_eq_add_of_le' positive
        rw [ih, val_sub_one positive, size, Nat.add_sub_cancel,
          List.take_succ_cons, List.flatten_cons, List.append_assoc]

theorem getCloser_eq (left : Uint64) (res : List NodeID)
    (internals : List (List NodeID)) :
    getCloser left res internals =
      res.take left.val ++
        (internals.take (left.val - res.length)).flatten := by
  have shortened : (if res.length > left.val then res.take left.val
      else res) = res.take left.val := by
    split
    · rfl
    · exact (List.take_of_length_le (by omega)).symm
  have size : (Fin.ofNat (2 ^ 64) (res.take left.val).length).val =
      min left.val res.length := by
    rw [List.length_take]
    exact Nat.mod_eq_of_lt ((min_le_left _ _).trans_lt left.isLt)
  unfold getCloser
  dsimp only
  rw [shortened, useSubsets_eq, Fin.sub_val_of_le, size]
  · congr 3
    omega
  · rw [Fin.le_def, size]
    exact min_le_left _ _

end Loops

/-! ## One level of a quorum set -/

section Level

variable (nodes : Finset NodeID) (excluded : Option NodeID)

def usableValidators (validators : List NodeID) : List NodeID :=
  validators.filter (isUsable nodes excluded)

/-- The inner sets that have to be blocked, the closest first. -/
def closeSets (innerSets : List SCPQuorumSet) : List SCPQuorumSet :=
  emplaceAll (fun inner => (findClosestVBlocking nodes excluded inner).length)
    (innerSets.filter
      (fun inner => !(findClosestVBlocking nodes excluded inner).isEmpty)) []

/-- The entries that are blocked already, as far as the answers for the inner
sets tell. -/
def blockedEntries (validators : List NodeID)
    (innerSets : List SCPQuorumSet) : ℕ :=
  validators.countP (isMissing nodes excluded) +
    innerSets.countP
      (fun inner => (findClosestVBlocking nodes excluded inner).isEmpty)

variable {nodes excluded}

theorem val_itemsTillBlock {threshold : Uint32} {entries : ℕ}
    (below : threshold.val ≤ entries) (few : entries ≤ 1000) :
    (itemsTillBlock threshold entries).val =
      1 + entries - threshold.val := by
  have whole : (Fin.ofNat (2 ^ 64) (1 + entries)).val = 1 + entries :=
    Nat.mod_eq_of_lt (by omega)
  have part : (Fin.ofNat (2 ^ 64) threshold.val).val = threshold.val :=
    Nat.mod_eq_of_lt (by omega)
  unfold itemsTillBlock
  rw [Fin.sub_val_of_le, whole, part]
  rw [Fin.le_def, whole, part]
  omega

/-- The whole function, in terms of the entries of the quorum set. -/
theorem findClosestVBlocking_eq {threshold : Uint32}
    {validators : List NodeID} {innerSets : List SCPQuorumSet}
    (wellFormed : WellFormed ⟨threshold, validators, innerSets⟩)
    {needed : ℕ} (size : needed =
      1 + (validators.length + innerSets.length) - threshold.val -
        blockedEntries nodes excluded validators innerSets) :
    findClosestVBlocking nodes excluded ⟨threshold, validators, innerSets⟩ =
      (usableValidators nodes excluded validators).take needed ++
        ((closeSets nodes excluded innerSets).take (needed -
          (usableValidators nodes excluded validators).length)).flatMap
          (findClosestVBlocking nodes excluded) := by
  obtain ⟨positive, below⟩ := wellFormed.inRange.here
  simp only at positive below
  have start := val_itemsTillBlock below wellFormed.entries_le
  have answersEmpty : (innerSets.map
      (findClosestVBlocking nodes excluded)).countP List.isEmpty =
      innerSets.countP (fun inner =>
        (findClosestVBlocking nodes excluded inner).isEmpty) := by
    rw [List.countP_map]
    rfl
  have internals : emplaceAll List.length
      ((innerSets.map (findClosestVBlocking nodes excluded)).filter
        (fun answer => !answer.isEmpty)) [] =
      (closeSets nodes excluded innerSets).map
        (findClosestVBlocking nodes excluded) := by
    rw [closeSets, map_emplaceAll, List.filter_map]
    rfl
  unfold blockedEntries at size
  rw [findClosestVBlocking, innerAnswers_eq_map]
  have first := closeValidators_eq nodes excluded validators
    (itemsTillBlock threshold (validators.length + innerSets.length)) []
    (by omega)
  rw [start] at first
  rcases counted_cases first with
    ⟨done, blocked⟩ | ⟨left, going, leftValue, unblocked⟩
  · have nothing : needed = 0 := by omega
    simp [done, nothing]
  · have second := closeInnerSets_eq
      (innerSets.map (findClosestVBlocking nodes excluded)) left []
      (by omega)
    rw [answersEmpty, internals] at second
    rcases counted_cases second with
      ⟨done, blocked⟩ | ⟨remaining, goingOn, remainingValue, _⟩
    · have nothing : needed = 0 := by omega
      simp [going, done, nothing]
    · have value : remaining.val = needed := by omega
      rw [going]
      dsimp only
      rw [goingOn]
      dsimp only
      rw [getCloser_eq, value, List.nil_append, ← List.map_take,
        ← List.flatMap_def]
      rfl

theorem closeSets_perm (innerSets : List SCPQuorumSet) :
    (closeSets nodes excluded innerSets).Perm
      (innerSets.filter (fun inner =>
        !(findClosestVBlocking nodes excluded inner).isEmpty)) := by
  have inserted := emplaceAll_perm
    (fun inner => (findClosestVBlocking nodes excluded inner).length)
    (innerSets.filter (fun inner =>
      !(findClosestVBlocking nodes excluded inner).isEmpty)) []
  rwa [List.append_nil] at inserted

theorem mem_of_mem_closeSets {innerSets : List SCPQuorumSet}
    {inner : SCPQuorumSet}
    (member : inner ∈ closeSets nodes excluded innerSets) :
    inner ∈ innerSets ∧ findClosestVBlocking nodes excluded inner ≠ [] := by
  have listed := (closeSets_perm innerSets).mem_iff.mp member
  simpa using List.mem_filter.mp listed

/-- The inner sets that satisfy a test, with those whose answer is empty
counted apart. -/
theorem countP_innerSets (nodes : Finset NodeID)
    (excluded : Option NodeID) (innerSets : List SCPQuorumSet)
    (test : SCPQuorumSet → Bool) :
    innerSets.countP test =
      (innerSets.filter (fun inner =>
        (findClosestVBlocking nodes excluded inner).isEmpty)).countP test +
      (closeSets nodes excluded innerSets).countP test := by
  rw [(closeSets_perm innerSets).countP_eq]
  exact List.countP_eq_countP_filter_add innerSets test _

theorem length_closeSets (nodes : Finset NodeID)
    (excluded : Option NodeID) (innerSets : List SCPQuorumSet) :
    innerSets.countP (fun inner =>
      (findClosestVBlocking nodes excluded inner).isEmpty) +
      (closeSets nodes excluded innerSets).length = innerSets.length := by
  rw [(closeSets_perm innerSets).length_eq, ← List.countP_eq_length_filter]
  exact countP_opposite (by simp)

/-- The validators that satisfy a test, with the usable ones counted apart. -/
theorem countP_validators (nodes : Finset NodeID)
    (excluded : Option NodeID) (validators : List NodeID)
    (test : NodeID → Bool) :
    validators.countP test =
      (usableValidators nodes excluded validators).countP test +
      (validators.filter (fun validator =>
        !isUsable nodes excluded validator)).countP test :=
  List.countP_eq_countP_filter_add validators test _

theorem not_isUsable_of_isMissing {node : NodeID}
    (missing : isMissing nodes excluded node = true) :
    isUsable nodes excluded node = false := by
  simp only [isMissing, Bool.and_eq_true, decide_eq_true_eq] at missing
  simp [isUsable, missing.2]

theorem countP_isMissing (validators : List NodeID) :
    (validators.filter (fun validator =>
      !isUsable nodes excluded validator)).countP (isMissing nodes excluded) =
      validators.countP (isMissing nodes excluded) := by
  rw [List.countP_filter]
  apply List.countP_congr
  intro validator _
  simp only [Bool.and_eq_true, Bool.not_eq_true', and_iff_left_iff_imp]
  exact not_isUsable_of_isMissing

end Level

end StellarCore.Scp
