import StellarCore.Quorum.ReachedSlices

/-!
# What the intersection check answers

The check finds the sets of nodes in which every member is seen to have a
slice.  These are quorums; a quorum none of whose slices is reached for some
member is overlooked.
-/

namespace StellarCore.Quorum

open StellarCore.Lib
open StellarCore.Scp
open Enumerator

namespace InferredQuorum

/-- At most 63 nodes, each with exactly one known and sane quorum set, whose
members are among them. -/
structure Complete (iq : InferredQuorum) : Prop where
  few : iq.mPubKeys.keys.length ≤ 63
  one : (iq.mQsetHashes.map Prod.fst).Nodup
  nodes : ∀ node, node ∈ iq.mQsetHashes.map Prod.fst ↔ node ∈ iq.mPubKeys
  known : ∀ entry ∈ iq.mQsetHashes, ∃ qSet extraChecks,
    iq.mQsets.lookup entry.2 = some qSet ∧
      isQuorumSetSane qSet extraChecks = true ∧
        qSet.allNodes ⊆ iq.mPubKeys.keys

/-- A non-empty set of nodes that contains a slice for each member. -/
def IsQuorum (iq : InferredQuorum) (nodeSet : List NodeID) : Prop :=
  nodeSet ≠ [] ∧ ∀ node ∈ nodeSet, ∃ qSet, iq.qsetOf node = some qSet ∧
    isQuorumSlice qSet nodeSet = true

/-- Every two quorums share a node. -/
def Intersects (iq : InferredQuorum) : Prop :=
  ∀ left right, iq.IsQuorum left → iq.IsQuorum right →
    ∃ node ∈ left, node ∈ right

/-- A quorum that contains a reached slice for each member. -/
def IsSeen (iq : InferredQuorum) (nodeSet : List NodeID) : Prop :=
  nodeSet ≠ [] ∧ ∀ node ∈ nodeSet, ∃ qSet, iq.qsetOf node = some qSet ∧
    ∃ slice, Reached (.set qSet) slice ∧ slice ⊆ nodeSet

section Complete

variable {iq : InferredQuorum} (complete : iq.Complete)

include complete in
theorem qsetOf_of_mem {node : NodeID} (member : node ∈ iq.mPubKeys.keys) :
    ∃ qSet, iq.qsetOf node = some qSet ∧ InRange qSet ∧
      Fits iq.mPubKeys.keys qSet := by
  have listed := (complete.nodes node).mpr (AList.mem_keys.mpr member)
  obtain ⟨entry, inside, rfl⟩ := List.mem_map.mp listed
  have found : (iq.mQsetHashes.find? (fun other => other.1 = entry.1)).isSome =
      true := by
    rw [List.find?_isSome]
    exact ⟨entry, inside, decide_eq_true rfl⟩
  obtain ⟨first, isFirst⟩ := Option.isSome_iff_exists.mp found
  obtain ⟨qSet, extraChecks, known, sane, members⟩ :=
    complete.known first (List.mem_of_find?_eq_some isFirst)
  have wellFormed := wellFormed_of_sane sane
  refine ⟨qSet, ?_, wellFormed.inRange, ?_⟩
  · simp [qsetOf, isFirst, known]
  · exact fits_of_inRange (by have few := complete.few; omega)
      wellFormed.inRange wellFormed.distinct members

include complete in
theorem mem_of_qsetOf {node : NodeID} {qSet : SCPQuorumSet}
    (known : iq.qsetOf node = some qSet) : node ∈ iq.mPubKeys.keys := by
  unfold qsetOf at known
  cases found : iq.mQsetHashes.find? (fun entry => entry.1 = node) with
  | none =>
      rw [found] at known
      cases known
  | some entry =>
      have same : entry.1 = node := by
        simpa using List.find?_some found
      have listed : node ∈ iq.mQsetHashes.map Prod.fst := by
        rw [← same]
        exact List.mem_map_of_mem (List.mem_of_find?_eq_some found)
      exact AList.mem_keys.mp ((complete.nodes node).mp listed)

include complete in
theorem IsSeen.isQuorum {nodeSet : List NodeID} (seen : iq.IsSeen nodeSet) :
    iq.IsQuorum nodeSet := by
  refine ⟨seen.1, ?_⟩
  intro node member
  obtain ⟨qSet, known, slice, reached, inside⟩ := seen.2 node member
  obtain ⟨qSet', known', inRange, -⟩ :=
    qsetOf_of_mem complete (mem_of_qsetOf complete known)
  rw [known, Option.some.injEq] at known'
  subst known'
  exact ⟨qSet, known, Reached.hit reached inRange inside⟩

/-! ## The loop over slices -/

private theorem containsSlice_follows {q : Bitset} {e : Enumerator}
    {v : Bitset} {left : List Bitset} (live : isLive e = true)
    (follows : Follows Ended e v left) {fuel : ℕ}
    (enough : left.length + 1 < fuel) :
    ∃ found, containsSlice q fuel e = some found ∧
      (found = true ↔ ∃ x ∈ v :: left, q ||| x = q) := by
  induction left generalizing e v fuel with
  | nil =>
      obtain ⟨rest, rfl⟩ : ∃ rest, fuel = rest + 2 :=
        ⟨fuel - 2, by rw [List.length_nil] at enough; omega⟩
      have dead : isLive (next e) = false := (follows.2 0).1
      by_cases inside : q ||| v = q
      · exact ⟨true, by simp [containsSlice, live, follows.1, inside],
          by simp [inside]⟩
      · exact ⟨false, by simp [containsSlice, live, follows.1, inside, dead],
          by simp [inside]⟩
  | cons w left ih =>
      obtain ⟨rest, rfl⟩ : ∃ rest, fuel = rest + 1 := ⟨fuel - 1, by omega⟩
      obtain ⟨shows, stillLive, later⟩ := follows
      by_cases inside : q ||| v = q
      · exact ⟨true, by simp [containsSlice, live, shows, inside],
          by simp [inside]⟩
      · have enoughLeft : left.length + 1 < rest := by
          rw [List.length_cons] at enough
          omega
        obtain ⟨found, answer, means⟩ := ih stillLive later enoughLeft
        refine ⟨found, ?_, ?_⟩
        · rw [containsSlice, shows, if_neg inside, answer]
          simp [live]
        · rw [means, List.exists_mem_cons_iff (a := v)]
          simp [inside]

private theorem containsSlice_visits {q : Bitset} {e : Enumerator}
    {values : List Bitset} (visits : Visits Ended e values) {fuel : ℕ}
    (enough : values.length < fuel) :
    ∃ found, containsSlice q fuel e = some found ∧
      (found = true ↔ ∃ x ∈ values, q ||| x = q) := by
  cases values with
  | nil => exact absurd visits id
  | cons v left => exact containsSlice_follows visits.1 visits.2 enough

private theorem mem_columns_single {values : List Bitset}
    (some : values ≠ []) {c : Bitset} :
    c ∈ columns [values] ↔ c ∈ values := by
  cases values with
  | nil => exact absurd rfl some
  | cons v left =>
      rw [mem_columns_cons]
      have zero : ∀ b : Bitset, b ||| current ([].map wheel) = b :=
        fun b => BitVec.or_zero
      simp only [zero]
      constructor
      · rintro (⟨y, member, rfl⟩ | ⟨d, member, rfl⟩)
        · exact member
        · rw [List.mem_singleton.mp member, zero]
          exact final_mem v left
      · intro member
        exact .inl ⟨c, member, rfl⟩

/-- The number of slices that are looked at for a node. -/
def sliceCount (iq : InferredQuorum) (node : NodeID) : ℕ :=
  match iq.qsetOf node with
  | none => 0
  | some qSet => (productValues [[nodeBits iq.mPubKeys.keys node],
      qsetValues iq.mPubKeys.keys qSet]).length

include complete in
private theorem containsSlice_seen {node : NodeID} {nodeSet : List NodeID}
    (known : nodeSet ⊆ iq.mPubKeys.keys) (member : node ∈ nodeSet)
    {fuel : ℕ} (enough : iq.sliceCount node < fuel) :
    ∃ e found, iq.makeSliceEnumerator iq.mPubKeys.keys node = some e ∧
      containsSlice (bitsOf iq.mPubKeys.keys nodeSet) fuel e =
        some found ∧
      (found = true ↔ ∃ qSet, iq.qsetOf node = some qSet ∧
        ∃ slice, Reached (.set qSet) slice ∧ slice ⊆ nodeSet) := by
  have few : iq.mPubKeys.keys.length < 64 := by
    have few := complete.few
    omega
  obtain ⟨qSet, hasQset, -, fits⟩ := qsetOf_of_mem complete (known member)
  obtain ⟨self, builtSelf, listsSelf⟩ := nodeBit_lists few.le (known member)
  obtain ⟨inner, builtInner, listsInner⟩ :=
    fits.makeQsetEnumerator_lists few.le
  have lists : Lists (product [self, inner])
      (productValues [[nodeBits iq.mPubKeys.keys node],
        qsetValues iq.mPubKeys.keys qSet]) :=
    product_lists (List.cons_ne_nil _ _)
      (List.Forall₂.cons listsSelf (List.Forall₂.cons listsInner
        List.Forall₂.nil))
  have count : (productValues [[nodeBits iq.mPubKeys.keys node],
      qsetValues iq.mPubKeys.keys qSet]).length < fuel := by
    rw [sliceCount, hasQset] at enough
    exact enough
  obtain ⟨found, answer, means⟩ := containsSlice_visits lists count
  refine ⟨newProduct [self, inner], found, ?_, answer, ?_⟩
  · simp [makeSliceEnumerator, builtSelf, hasQset, builtInner]
  · have described := fits.described
    have some : qsetValues iq.mPubKeys.keys qSet ≠ [] := by
      intro empty
      have head := described.head
      rw [Entry.values, empty] at head
      cases head
    have here : bitsOf iq.mPubKeys.keys nodeSet |||
        nodeBits iq.mPubKeys.keys node =
          bitsOf iq.mPubKeys.keys nodeSet := by
      rw [← bitsOf_singleton, or_bitsOf_eq_iff few known]
      intro other isNode
      rw [List.mem_singleton.mp isNode]
      exact member
    rw [means]
    constructor
    · rintro ⟨x, listed, inside⟩
      obtain ⟨y, isSelf, c, column, rfl⟩ :=
        mem_productValues_cons.mp listed
      rw [List.mem_singleton.mp isSelf, ← BitVec.or_assoc, here] at inside
      obtain ⟨slice, reached, rfl⟩ :=
        (described.members c).mp ((mem_columns_single some).mp column)
      exact ⟨qSet, hasQset, slice, reached,
        (or_bitsOf_eq_iff few known).mp inside⟩
    · rintro ⟨qSet', hasQset', slice, reached, inside⟩
      rw [hasQset, Option.some.injEq] at hasQset'
      subst hasQset'
      refine ⟨_, mem_productValues_cons.mpr ⟨_, List.mem_singleton.mpr rfl,
        _, (mem_columns_single some).mpr
          ((described.members _).mpr ⟨slice, reached, rfl⟩), rfl⟩, ?_⟩
      rw [← BitVec.or_assoc, here]
      exact (or_bitsOf_eq_iff few known).mpr inside

/-! ## The loop over the members of a candidate -/

include complete in
private theorem isQuorumAt_seen {nodeSet : List NodeID}
    (known : nodeSet ⊆ iq.mPubKeys.keys) {fuel : ℕ}
    (enough : ∀ node ∈ nodeSet, iq.sliceCount node < fuel)
    {places : List ℕ} (below : ∀ i ∈ places, i < 64) :
    ∃ found, iq.isQuorumAt iq.mPubKeys.keys fuel
        (bitsOf iq.mPubKeys.keys nodeSet) places = some found ∧
      (found = true ↔ ∀ node ∈ nodeSet,
        iq.mPubKeys.keys.idxOf node ∈ places →
          ∃ qSet, iq.qsetOf node = some qSet ∧
            ∃ slice, Reached (.set qSet) slice ∧ slice ⊆ nodeSet) := by
  induction places with
  | nil => exact ⟨true, rfl, by simp⟩
  | cons i places ih =>
      obtain ⟨rest, answerRest, meansRest⟩ :=
        ih (fun j later => below j (List.mem_cons_of_mem i later))
      have small := below i List.mem_cons_self
      by_cases bit : (bitsOf iq.mPubKeys.keys nodeSet).getLsbD i = true
      · obtain ⟨node, member, place⟩ := (bitsOf_getLsbD nodeSet small).mp bit
        obtain ⟨e, found, built, answer, means⟩ :=
          containsSlice_seen complete known member (enough node member)
        have at_i : iq.mPubKeys.keys[i]? = some node := by
          have inside := List.idxOf_lt_length_iff.mpr (known member)
          rw [← place, List.getElem?_eq_getElem inside,
            List.getElem_idxOf inside]
        have only : ∀ other ∈ nodeSet,
            iq.mPubKeys.keys.idxOf other = i → other = node := by
          intro other there same
          exact (List.idxOf_inj (known there)).mp (same.trans place.symm)
        cases found with
        | true =>
            refine ⟨rest, ?_, ?_⟩
            · rw [isQuorumAt]
              simp [bit, at_i, built, answer, answerRest]
            · rw [meansRest]
              constructor
              · intro all other there spot
                rcases List.mem_cons.mp spot with here | later
                · rw [only other there here]
                  exact means.mp rfl
                · exact all other there later
              · intro all other there later
                exact all other there (List.mem_cons_of_mem i later)
        | false =>
            refine ⟨false, ?_, ?_⟩
            · rw [isQuorumAt]
              simp [bit, at_i, built, answer]
            · constructor
              · intro impossible
                cases impossible
              · intro all
                have here := all node member
                  (by rw [place]; exact List.mem_cons_self)
                exact means.mpr here
      · refine ⟨rest, ?_, ?_⟩
        · rw [isQuorumAt, if_neg bit, answerRest]
        · rw [meansRest]
          constructor
          · intro all other there spot
            rcases List.mem_cons.mp spot with here | later
            · exact absurd ((bitsOf_getLsbD nodeSet small).mpr
                ⟨other, there, here⟩) bit
            · exact all other there later
          · intro all other there later
            exact all other there (List.mem_cons_of_mem i later)

include complete in
private theorem isQuorum_seen {nodeSet : List NodeID}
    (known : nodeSet ⊆ iq.mPubKeys.keys) (some : nodeSet ≠ []) {fuel : ℕ}
    (enough : ∀ node ∈ nodeSet, iq.sliceCount node < fuel) :
    ∃ found, iq.isQuorum iq.mPubKeys.keys fuel
        (bitsOf iq.mPubKeys.keys nodeSet) = Option.some found ∧
      (found = true ↔ iq.IsSeen nodeSet) := by
  have few : iq.mPubKeys.keys.length < 64 := by
    have few := complete.few
    omega
  have below : ∀ i ∈ List.range 64, i < 64 :=
    fun i inside => List.mem_range.mp inside
  obtain ⟨found, answer, means⟩ :=
    isQuorumAt_seen complete known enough below
  refine ⟨found, answer, ?_⟩
  rw [means]
  constructor
  · intro all
    refine ⟨some, ?_⟩
    intro node member
    exact all node member
      (List.mem_range.mpr (List.idxOf_le_length.trans_lt few))
  · intro seen node member _
    exact seen.2 node member

/-! ## The loop over candidates -/

private theorem scanQuorums_step {nodes : List NodeID} {fuel : ℕ}
    {Found : Bitset → Prop} {e : Enumerator} {v : Bitset}
    (answers : ∃ found, iq.isQuorum nodes fuel v = some found ∧
      (found = true ↔ Found v))
    (live : isLive e = true) (shows : value e = v) (steps : ℕ)
    (allQuorums : List Bitset) :
    ∃ kept, iq.scanQuorums nodes fuel (steps + 1) e allQuorums =
        iq.scanQuorums nodes fuel steps (next e) kept ∧
      ∀ x, x ∈ kept ↔ x ∈ allQuorums ∨ (x = v ∧ Found x) := by
  obtain ⟨found, answer, means⟩ := answers
  refine ⟨if found then List.insert v allQuorums else allQuorums, ?_, ?_⟩
  · rw [scanQuorums, shows, answer]
    simp [live]
  · intro x
    cases found with
    | true =>
        have isFound := means.mp rfl
        rw [if_pos rfl, List.mem_insert_iff]
        constructor
        · rintro (rfl | before)
          · exact .inr ⟨rfl, isFound⟩
          · exact .inl before
        · rintro (before | ⟨same, -⟩)
          · exact .inr before
          · exact .inl same
    | false =>
        rw [if_neg Bool.false_ne_true]
        constructor
        · intro before
          exact .inl before
        · rintro (before | ⟨rfl, isFound⟩)
          · exact before
          · exact absurd (means.mpr isFound) Bool.false_ne_true

private theorem scanQuorums_follows {nodes : List NodeID} {fuel : ℕ}
    {Found : Bitset → Prop} {e : Enumerator} {v : Bitset}
    {left : List Bitset}
    (answers : ∀ x ∈ v :: left, ∃ found, iq.isQuorum nodes fuel x =
      some found ∧ (found = true ↔ Found x))
    (live : isLive e = true) (follows : Follows Over e v left) {steps : ℕ}
    (enough : left.length + 1 < steps) (allQuorums : List Bitset) :
    ∃ result, iq.scanQuorums nodes fuel steps e allQuorums = some result ∧
      ∀ x, x ∈ result ↔ x ∈ allQuorums ∨ (x ∈ v :: left ∧ Found x) := by
  induction left generalizing e v steps allQuorums with
  | nil =>
      obtain ⟨rest, rfl⟩ : ∃ rest, steps = rest + 2 :=
        ⟨steps - 2, by rw [List.length_nil] at enough; omega⟩
      obtain ⟨kept, step, members⟩ := scanQuorums_step
        (answers v List.mem_cons_self) live follows.1 (rest + 1) allQuorums
      have dead : isLive (next e) = false := follows.2
      refine ⟨kept, ?_, ?_⟩
      · rw [step, scanQuorums]
        simp [dead]
      · intro x
        rw [members, List.mem_singleton]
  | cons w left ih =>
      obtain ⟨rest, rfl⟩ : ∃ rest, steps = rest + 1 :=
        ⟨steps - 1, by omega⟩
      obtain ⟨shows, stillLive, later⟩ := follows
      obtain ⟨kept, step, members⟩ := scanQuorums_step
        (answers v List.mem_cons_self) live shows rest allQuorums
      have enoughLeft : left.length + 1 < rest := by
        rw [List.length_cons] at enough
        omega
      obtain ⟨result, answer, means⟩ := ih
        (fun x member => answers x (List.mem_cons_of_mem v member))
        stillLive later enoughLeft kept
      refine ⟨result, ?_, ?_⟩
      · rw [step, answer]
      · intro x
        rw [means, members, List.mem_cons (b := v), or_and_right, or_assoc]

/-! ## The candidates -/

def orBits : List ℕ → Bitset
  | [] => 0
  | i :: places => BitVec.ofNat 64 (2 ^ i) ||| orBits places

private theorem bitsOf_eq_orBits (nodes nodeSet : List NodeID) :
    bitsOf nodes nodeSet = orBits (nodeSet.map nodes.idxOf) := by
  induction nodeSet with
  | nil => rfl
  | cons node nodeSet ih =>
      rw [bitsOf, List.map_cons, orBits, ih, nodeBits]

private theorem orBits_getLsbD (places : List ℕ) {i : ℕ} (below : i < 64) :
    (orBits places).getLsbD i = true ↔ i ∈ places := by
  induction places with
  | nil => simp [orBits]
  | cons j places ih =>
      rw [orBits, BitVec.getLsbD_or, Bool.or_eq_true, ih,
        BitVec.getLsbD_ofNat, Nat.testBit_two_pow, List.mem_cons]
      simp [below, eq_comm]

private theorem orBits_congr {left right : List ℕ}
    (same : ∀ i, i ∈ left ↔ i ∈ right) : orBits left = orBits right := by
  apply BitVec.eq_of_getLsbD_eq
  intro i below
  rw [Bool.eq_iff_iff, orBits_getLsbD left below,
    orBits_getLsbD right below, same]

private theorem columns_singles (places : List ℕ) :
    columns (places.map (fun i => [BitVec.ofNat 64 (2 ^ i)])) =
      [orBits places] := by
  induction places with
  | nil => rfl
  | cons i places ih =>
      simp only [columns, List.cons.injEq] at ih
      simp only [columns, List.map_cons, wheel, current, turns, ih,
        List.map_nil, List.append_nil, orBits]

private theorem productValues_singles {places : List ℕ}
    (some : places ≠ []) :
    productValues (places.map (fun i => [BitVec.ofNat 64 (2 ^ i)])) =
      [orBits places] := by
  cases places with
  | nil => exact absurd rfl some
  | cons i places =>
      rw [List.map_cons, productValues, columns_singles]
      rfl

/-- The candidates are the unions of some of the nodes with quorum sets. -/
private theorem mem_candidates {places : List ℕ} (few : places.length < 64)
    {x : Bitset} :
    x ∈ selectionValues
        (places.map (fun i => [BitVec.ofNat 64 (2 ^ i)]))
        ((List.range' 1 (2 ^ places.length - 1)).map (BitVec.ofNat 64)) ↔
      ∃ chosen, chosen.Sublist places ∧ chosen ≠ [] ∧
        x = orBits chosen := by
  have power : 2 ^ places.length < 2 ^ 64 :=
    Nat.pow_lt_pow_right (by norm_num) few
  have shown : ∀ bits, bits ≠ 0 → bits < 2 ^ places.length →
      productValues (pick (BitVec.ofNat 64 bits).toNat
        (places.map (fun i => [BitVec.ofNat 64 (2 ^ i)]))) =
          [orBits (pick bits places)] := by
    intro bits nonzero bound
    rw [BitVec.toNat_ofNat, Nat.mod_eq_of_lt (bound.trans power), pick_map,
      productValues_singles (pick_ne_nil nonzero bound)]
  rw [selectionValues, List.mem_flatMap]
  constructor
  · rintro ⟨place, listed, member⟩
    obtain ⟨bits, inside, rfl⟩ := List.mem_map.mp listed
    rw [List.mem_range'_1] at inside
    have bound : bits < 2 ^ places.length := by omega
    rw [shown bits (by omega) bound, List.mem_singleton] at member
    exact ⟨pick bits places, pick_sublist bits places,
      pick_ne_nil (by omega) bound, member⟩
  · rintro ⟨chosen, sublist, some, rfl⟩
    obtain ⟨bits, inside, rfl⟩ := mem_pick_combinations.mpr ⟨sublist, rfl⟩
    have bound := combinations_lt inside
    have nonzero : bits ≠ 0 := by
      rintro rfl
      exact some (pick_zero places)
    refine ⟨BitVec.ofNat 64 bits, List.mem_map_of_mem ?_, ?_⟩
    · rw [List.mem_range'_1]
      omega
    · rw [shown bits nonzero bound]
      exact List.mem_singleton.mpr rfl

private theorem mapM_eq_map {α β : Type} {f : α → Option β} {g : α → β}
    {xs : List α} (all : ∀ x ∈ xs, f x = some (g x)) :
    xs.mapM f = some (xs.map g) := by
  induction xs with
  | nil => rfl
  | cons x xs ih =>
      rw [List.mapM_cons, all x List.mem_cons_self,
        ih (fun y later => all y (List.mem_cons_of_mem x later))]
      rfl

include complete in
private theorem numbers_eq :
    iq.mQsetHashes.mapM (iq.numberWithQset iq.mPubKeys.keys) =
      some (iq.mQsetHashes.map
        (fun entry => iq.mPubKeys.keys.idxOf entry.1)) := by
  apply mapM_eq_map
  intro entry member
  obtain ⟨qSet, -, known, -, -⟩ := complete.known entry member
  have node : entry.1 ∈ iq.mPubKeys.keys :=
    AList.mem_keys.mp ((complete.nodes entry.1).mp
      (List.mem_map_of_mem member))
  simp [numberWithQset, known, nodeNumber, idxOf?_of_mem node]

/-- The numbers of the nodes with quorum sets. -/
def numbers (iq : InferredQuorum) : List ℕ :=
  (iq.mQsetHashes.map
    (fun entry => iq.mPubKeys.keys.idxOf entry.1)).dedup

include complete in
private theorem mem_numbers {i : ℕ} :
    i ∈ iq.numbers ↔ ∃ node ∈ iq.mPubKeys.keys,
      iq.mPubKeys.keys.idxOf node = i := by
  rw [numbers, List.mem_dedup, List.mem_map]
  constructor
  · rintro ⟨entry, member, place⟩
    exact ⟨entry.1, AList.mem_keys.mp ((complete.nodes entry.1).mp
      (List.mem_map_of_mem member)), place⟩
  · rintro ⟨node, member, place⟩
    obtain ⟨entry, listed, rfl⟩ := List.mem_map.mp
      ((complete.nodes node).mpr (AList.mem_keys.mpr member))
    exact ⟨entry, listed, place⟩

include complete in
private theorem numbers_lt {i : ℕ} (member : i ∈ iq.numbers) :
    i < iq.mPubKeys.keys.length := by
  obtain ⟨node, inside, rfl⟩ := (mem_numbers complete).mp member
  exact List.idxOf_lt_length_iff.mpr inside

include complete in
private theorem numbers_length : iq.numbers.length < 64 := by
  have distinct : iq.numbers.Nodup := List.nodup_dedup _
  have inside : iq.numbers ⊆ List.range iq.mPubKeys.keys.length := by
    intro i member
    exact List.mem_range.mpr (numbers_lt complete member)
  have bound := (List.subperm_of_subset distinct inside).length_le
  rw [List.length_range] at bound
  have few := complete.few
  omega

include complete in
/-- The candidates are the non-empty sets of nodes. -/
private theorem mem_numbers_candidates {x : Bitset} :
    (∃ chosen, chosen.Sublist iq.numbers ∧ chosen ≠ [] ∧
        x = orBits chosen) ↔
      ∃ nodeSet, nodeSet ⊆ iq.mPubKeys.keys ∧ nodeSet ≠ [] ∧
        x = bitsOf iq.mPubKeys.keys nodeSet := by
  constructor
  · rintro ⟨chosen, sublist, some, rfl⟩
    refine ⟨iq.mPubKeys.keys.filter
      (fun node => iq.mPubKeys.keys.idxOf node ∈ chosen),
      List.filter_subset_self _, ?_, ?_⟩
    · obtain ⟨i, member⟩ := List.exists_mem_of_ne_nil chosen some
      obtain ⟨node, inside, rfl⟩ :=
        (mem_numbers complete).mp (sublist.subset member)
      exact List.ne_nil_of_mem
        (List.mem_filter.mpr ⟨inside, decide_eq_true member⟩)
    · rw [bitsOf_eq_orBits]
      apply orBits_congr
      intro i
      rw [List.mem_map]
      constructor
      · intro member
        obtain ⟨node, inside, rfl⟩ :=
          (mem_numbers complete).mp (sublist.subset member)
        exact ⟨node, List.mem_filter.mpr ⟨inside, decide_eq_true member⟩,
          rfl⟩
      · rintro ⟨node, kept, rfl⟩
        exact of_decide_eq_true (List.mem_filter.mp kept).2
  · rintro ⟨nodeSet, known, some, rfl⟩
    refine ⟨iq.numbers.filter
      (fun i => i ∈ nodeSet.map iq.mPubKeys.keys.idxOf),
      List.filter_sublist, ?_, ?_⟩
    · obtain ⟨node, member⟩ := List.exists_mem_of_ne_nil nodeSet some
      have number : iq.mPubKeys.keys.idxOf node ∈ iq.numbers :=
        (mem_numbers complete).mpr ⟨node, known member, rfl⟩
      exact List.ne_nil_of_mem (List.mem_filter.mpr
        ⟨number, decide_eq_true (List.mem_map_of_mem member)⟩)
    · rw [bitsOf_eq_orBits]
      apply orBits_congr
      intro i
      rw [List.mem_filter, decide_eq_true_eq]
      constructor
      · intro member
        obtain ⟨node, inside, rfl⟩ := List.mem_map.mp member
        exact ⟨(mem_numbers complete).mpr ⟨node, known inside, rfl⟩,
          member⟩
      · exact fun both => both.2

/-! ## The answer -/

include complete in
private theorem seen_known {nodeSet : List NodeID}
    (seen : iq.IsSeen nodeSet) : nodeSet ⊆ iq.mPubKeys.keys := by
  intro node member
  obtain ⟨qSet, hasQset, -⟩ := seen.2 node member
  exact mem_of_qsetOf complete hasQset

include complete in
private theorem seen_of_bits {nodeSet other : List NodeID}
    (known : nodeSet ⊆ iq.mPubKeys.keys) (seen : iq.IsSeen other)
    (same : bitsOf iq.mPubKeys.keys nodeSet =
      bitsOf iq.mPubKeys.keys other) : iq.IsSeen nodeSet := by
  have few : iq.mPubKeys.keys.length < 64 := by
    have few := complete.few
    omega
  have forward : other ⊆ nodeSet := by
    rw [← or_bitsOf_eq_iff few known, same, BitVec.or_self]
  have backward : nodeSet ⊆ other := by
    rw [← or_bitsOf_eq_iff few (seen_known complete seen), same,
      BitVec.or_self]
  refine ⟨?_, ?_⟩
  · obtain ⟨node, member⟩ := List.exists_mem_of_ne_nil other seen.1
    exact List.ne_nil_of_mem (forward member)
  · intro node member
    obtain ⟨qSet, hasQset, slice, reached, inside⟩ :=
      seen.2 node (backward member)
    exact ⟨qSet, hasQset, slice, reached,
      List.Subset.trans inside forward⟩

include complete in
private theorem check_eq (fuel : ℕ) :
    iq.checkQuorumIntersection fuel =
      (iq.scanQuorums iq.mPubKeys.keys fuel fuel
        (newSelection
          (powerset 1 (1 <<< UInt64.ofNat iq.numbers.length))
          (iq.numbers.map
            (fun i => constant (BitVec.ofNat 64 (2 ^ i)) false))) []).map
        (fun allQuorums => allQuorums.all (fun q =>
          allQuorums.all (fun v => q == v || q &&& v != 0))) := by
  have few := complete.few
  have enums : iq.numbers.mapM bitNumber = some (iq.numbers.map
      (fun i => constant (BitVec.ofNat 64 (2 ^ i)) false)) := by
    apply mapM_eq_map
    intro i member
    have below := numbers_lt complete member
    have small : i < 64 := by omega
    simp [bitNumber, small]
  have powers : newPowerset iq.numbers.length =
      some (powerset 1 (1 <<< UInt64.ofNat iq.numbers.length)) := by
    simp [newPowerset, numbers_length complete]
  have listed : (iq.mQsetHashes.map
      (fun entry => iq.mPubKeys.keys.idxOf entry.1)).dedup =
        iq.numbers := rfl
  rw [checkQuorumIntersection]
  simp only [numbers_eq complete, Option.bind_eq_bind, Option.bind_some,
    listed, enums, List.length_map, powers]
  rw [Option.map_eq_bind]
  rfl

include complete in
private theorem scan_seen :
    ∃ enough, ∀ fuel, enough ≤ fuel → ∃ result,
      iq.scanQuorums iq.mPubKeys.keys fuel fuel
        (newSelection
          (powerset 1 (1 <<< UInt64.ofNat iq.numbers.length))
          (iq.numbers.map
            (fun i => constant (BitVec.ofNat 64 (2 ^ i)) false))) [] =
        some result ∧
      ∀ x, x ∈ result ↔ ∃ nodeSet, iq.IsSeen nodeSet ∧
        x = bitsOf iq.mPubKeys.keys nodeSet := by
  by_cases nodes : iq.numbers = []
  · refine ⟨1, ?_⟩
    intro fuel enough
    obtain ⟨rest, rfl⟩ : ∃ rest, fuel = rest + 1 := ⟨fuel - 1, by omega⟩
    refine ⟨[], ?_, ?_⟩
    · rw [nodes]
      rfl
    · intro x
      refine ⟨fun impossible => absurd impossible List.not_mem_nil, ?_⟩
      rintro ⟨nodeSet, seen, -⟩
      obtain ⟨node, member⟩ := List.exists_mem_of_ne_nil nodeSet seen.1
      have number := (mem_numbers complete).mpr
        ⟨node, seen_known complete seen member, rfl⟩
      rw [nodes] at number
      exact absurd number List.not_mem_nil
  · have singles : List.Forall₂ Lists
        (iq.numbers.map
          (fun i => constant (BitVec.ofNat 64 (2 ^ i)) false))
        (iq.numbers.map (fun i => [BitVec.ofNat 64 (2 ^ i)])) := by
      rw [List.forall₂_map_left_iff, List.forall₂_map_right_iff,
        List.forall₂_same]
      intro i _
      exact constant_lists _ _
    have below := numbers_length complete
    have visits := selection_visits_once singles
      (powerset_visits (List.length_pos_iff.mpr nodes) below) (by
        intro bits member
        obtain ⟨place, inside, rfl⟩ := List.mem_map.mp member
        rw [List.mem_range'_1] at inside
        have power : 2 ^ iq.numbers.length < 2 ^ 64 :=
          Nat.pow_lt_pow_right (by norm_num) below
        rw [BitVec.toNat_ofNat, Nat.mod_eq_of_lt (by omega)]
        apply pick_ne_nil (by omega)
        rw [List.length_map]
        omega)
    have members : ∀ {x : Bitset}, x ∈ selectionValues _ _ ↔ _ :=
      fun {x} => (mem_candidates (x := x) below).trans
        (mem_numbers_candidates complete)
    generalize selectionValues _ _ = values at visits members
    cases values with
    | nil => exact absurd visits id
    | cons v left =>
        refine ⟨left.length + 2 +
          (iq.mPubKeys.keys.map iq.sliceCount).sum + 1, ?_⟩
        intro fuel enough
        have answers : ∀ x ∈ v :: left, ∃ found,
            iq.isQuorum iq.mPubKeys.keys fuel x = some found ∧
              (found = true ↔ ∃ nodeSet, iq.IsSeen nodeSet ∧
                x = bitsOf iq.mPubKeys.keys nodeSet) := by
          intro x member
          obtain ⟨nodeSet, known, some, rfl⟩ := members.mp member
          have slices : ∀ node ∈ nodeSet, iq.sliceCount node < fuel := by
            intro node inside
            have bound := List.le_sum_of_mem
              (List.mem_map_of_mem (f := iq.sliceCount) (known inside))
            omega
          obtain ⟨found, answer, means⟩ :=
            isQuorum_seen complete known some slices
          refine ⟨found, answer, means.trans ⟨?_, ?_⟩⟩
          · intro seen
            exact ⟨nodeSet, seen, rfl⟩
          · rintro ⟨other, seen, same⟩
            exact seen_of_bits complete known seen same
        have enoughSteps : left.length + 1 < fuel := by omega
        obtain ⟨result, answer, means⟩ := scanQuorums_follows answers
          visits.1 visits.2 enoughSteps []
        refine ⟨result, answer, ?_⟩
        intro x
        rw [means]
        constructor
        · rintro (impossible | ⟨-, found⟩)
          · exact absurd impossible List.not_mem_nil
          · exact found
        · rintro ⟨nodeSet, seen, rfl⟩
          exact .inr ⟨members.mpr
            ⟨nodeSet, seen_known complete seen, seen.1, rfl⟩,
            nodeSet, seen, rfl⟩

include complete in
private theorem all_share_iff {result : List Bitset}
    (members : ∀ x, x ∈ result ↔ ∃ nodeSet, iq.IsSeen nodeSet ∧
      x = bitsOf iq.mPubKeys.keys nodeSet) :
    (result.all (fun q => result.all
        (fun v => q == v || q &&& v != 0)) = true) ↔
      ¬ ∃ left right, iq.IsSeen left ∧ iq.IsSeen right ∧
        ∀ node ∈ left, node ∉ right := by
  have few : iq.mPubKeys.keys.length < 64 := by
    have few := complete.few
    omega
  simp only [List.all_eq_true, Bool.or_eq_true, beq_iff_eq, bne_iff_ne]
  constructor
  · rintro all ⟨left, right, leftSeen, rightSeen, disjoint⟩
    have leftKnown := seen_known complete leftSeen
    have zero := (and_bitsOf_eq_zero_iff few leftKnown).mpr disjoint
    rcases all _ ((members _).mpr ⟨left, leftSeen, rfl⟩) _
      ((members _).mpr ⟨right, rightSeen, rfl⟩) with same | nonzero
    · rw [← same, and_bitsOf_eq_zero_iff few leftKnown] at zero
      obtain ⟨node, member⟩ := List.exists_mem_of_ne_nil left leftSeen.1
      exact zero node member member
    · exact nonzero zero
  · intro none q first v second
    obtain ⟨left, leftSeen, rfl⟩ := (members q).mp first
    obtain ⟨right, rightSeen, rfl⟩ := (members v).mp second
    refine .inr ?_
    intro zero
    exact none ⟨left, right, leftSeen, rightSeen,
      (and_bitsOf_eq_zero_iff few (seen_known complete leftSeen)).mp zero⟩

include complete in
private theorem check_answers :
    ∃ answer, (∃ enough, ∀ fuel, enough ≤ fuel →
        iq.checkQuorumIntersection fuel = some answer) ∧
      (answer = true ↔ ¬ ∃ left right, iq.IsSeen left ∧
        iq.IsSeen right ∧ ∀ node ∈ left, node ∉ right) := by
  obtain ⟨enough, scan⟩ := scan_seen complete
  obtain ⟨first, -, members⟩ := scan enough (Nat.le_refl enough)
  refine ⟨_, ⟨enough, ?_⟩, all_share_iff complete members⟩
  intro fuel large
  obtain ⟨result, answer, others⟩ := scan fuel large
  rw [check_eq complete, answer, Option.map_some, Option.some.injEq,
    Bool.eq_iff_iff, all_share_iff complete others,
    all_share_iff complete members]

/-- The check is right exactly when quorums intersect, or when two quorums
without a common node are both seen. -/
theorem checkQuorumIntersection_right_iff (complete : iq.Complete) :
    ∃ answer, (∃ enough, ∀ fuel, enough ≤ fuel →
        iq.checkQuorumIntersection fuel = some answer) ∧
      ((answer = true ↔ iq.Intersects) ↔
        (iq.Intersects ∨ ∃ left right, iq.IsSeen left ∧
          iq.IsSeen right ∧ ∀ node ∈ left, node ∉ right)) := by
  obtain ⟨answer, answers, means⟩ := check_answers complete
  have sound : iq.Intersects → answer = true := by
    intro intersects
    rw [means]
    rintro ⟨left, right, leftSeen, rightSeen, disjoint⟩
    obtain ⟨node, here, there⟩ := intersects left right
      (leftSeen.isQuorum complete) (rightSeen.isQuorum complete)
    exact disjoint node here there
  refine ⟨answer, answers, ?_⟩
  constructor
  · intro right
    by_cases yes : answer = true
    · exact .inl (right.mp yes)
    · rw [means, not_not] at yes
      exact .inr yes
  · rintro (intersects | apart)
    · exact ⟨fun _ => intersects, sound⟩
    · constructor
      · intro yes
        exact absurd apart (means.mp yes)
      · exact sound

end Complete

/-- Node 0 needs itself, one of 1 and 2, and one of 3 and 4; the nodes 1 and
4 follow node 0, the nodes 2 and 3 follow node 2. -/
def forked : InferredQuorum where
  mQsets :=
    [⟨10, ⟨3, [0], [⟨1, [1, 2], []⟩, ⟨1, [3, 4], []⟩]⟩⟩,
      ⟨11, ⟨1, [1, 2], []⟩⟩, ⟨12, ⟨1, [3, 4], []⟩⟩,
      ⟨13, ⟨1, [0], []⟩⟩, ⟨14, ⟨1, [2], []⟩⟩].toAList
  mQsetHashes := [(0, 10), (1, 13), (2, 14), (3, 14), (4, 13)]
  mPubKeys := [⟨0, 6⟩, ⟨1, 3⟩, ⟨2, 5⟩, ⟨3, 3⟩, ⟨4, 3⟩].toAList

theorem forked_complete : forked.Complete where
  few := by decide +kernel
  one := by decide +kernel
  nodes := by
    intro node
    have keys : forked.mPubKeys.keys =
        forked.mQsetHashes.map Prod.fst := by
      decide +kernel
    rw [← keys]
    exact AList.mem_keys.symm
  known := by
    intro entry member
    simp only [forked, List.mem_cons, List.not_mem_nil, or_false] at member
    rcases member with rfl | rfl | rfl | rfl | rfl
    · exact ⟨_, false, rfl, by decide +kernel, by decide +kernel⟩
    · exact ⟨_, false, rfl, by decide +kernel, by decide +kernel⟩
    · exact ⟨_, false, rfl, by decide +kernel, by decide +kernel⟩
    · exact ⟨_, false, rfl, by decide +kernel, by decide +kernel⟩
    · exact ⟨_, false, rfl, by decide +kernel, by decide +kernel⟩

/-- The quorum of the nodes 0, 1 and 4 has no node in common with that of
node 2 alone. -/
theorem forked_apart : ¬ forked.Intersects := by
  intro intersects
  have first : forked.IsQuorum [0, 1, 4] := by
    refine ⟨List.cons_ne_nil _ _, ?_⟩
    intro node member
    simp only [List.mem_cons, List.not_mem_nil, or_false] at member
    rcases member with rfl | rfl | rfl
    · exact ⟨_, rfl, by decide +kernel⟩
    · exact ⟨_, rfl, by decide +kernel⟩
    · exact ⟨_, rfl, by decide +kernel⟩
  have second : forked.IsQuorum [2] := by
    refine ⟨List.cons_ne_nil _ _, ?_⟩
    intro node member
    rw [List.mem_singleton] at member
    subst member
    exact ⟨_, rfl, by decide +kernel⟩
  obtain ⟨node, here, there⟩ := intersects _ _ first second
  rw [List.mem_singleton] at there
  subst there
  exact absurd here (by decide +kernel)

theorem forked_right_iff :
    forked.Complete ∧ ∃ answer, (∃ enough, ∀ fuel, enough ≤ fuel →
        forked.checkQuorumIntersection fuel = some answer) ∧
      ((answer = true ↔ forked.Intersects) ↔
        (forked.Intersects ∨ ∃ left right, forked.IsSeen left ∧
          forked.IsSeen right ∧ ∀ node ∈ left, node ∉ right)) :=
  ⟨forked_complete, checkQuorumIntersection_right_iff forked_complete⟩

theorem forked_accepted :
    forked.Complete ∧ forked.checkQuorumIntersection 40 = some true ∧
      ¬ forked.Intersects :=
  ⟨forked_complete, by decide +kernel, forked_apart⟩

end InferredQuorum

end StellarCore.Quorum
