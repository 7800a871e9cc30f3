import Mathlib.Data.List.AList
import Mathlib.Data.Prod.Lex
import Mathlib.Data.List.Lex
import Mathlib.Data.List.Sort
import Mathlib.Data.Fin.Basic
import Mathlib.Tactic

/-!
# Data of the consensus protocol

The types of `Stellar-SCP.x`.  Machine words are `Fin` types, so arithmetic
wraps as it does in the source; opaque data is a list of bytes, ordered
lexicographically.  Statements of the nomination protocol are kept apart from
ballot statements, which is what `Slot::processEnvelope` does at run time.
-/

namespace StellarCore.Scp

abbrev Uint32 := Fin (2 ^ 32)

abbrev Uint64 := Fin (2 ^ 64)

abbrev Hash := Fin (2 ^ 256)

abbrev NodeID := Fin (2 ^ 256)

abbrev Value := List (Fin 256)

abbrev Signature := List (Fin 256)

instance uint32_neZero : NeZero (2 ^ 32) := ⟨by decide⟩

instance uint64_neZero : NeZero (2 ^ 64) := ⟨by decide⟩

instance hash_neZero : NeZero (2 ^ 256) := ⟨by decide⟩

instance byte_neZero : NeZero 256 := ⟨by decide⟩

instance nodeID_lawfulBEq : LawfulBEq NodeID := inferInstance

def uint32Max : Uint32 := 4294967295

structure SCPBallot where
  counter : Uint32
  value : Value
  deriving DecidableEq, Repr

/-- The default constructed ballot, which stands for "no ballot". -/
def SCPBallot.zero : SCPBallot := ⟨0, []⟩

/-- Ballots are ordered by counter, then by value. -/
instance : LinearOrder SCPBallot :=
  LinearOrder.lift' (fun ballot => toLex (ballot.counter, ballot.value)) (by
    rintro ⟨leftCounter, leftValue⟩ ⟨rightCounter, rightValue⟩ equality
    simpa using equality)

structure Prepare where
  quorumSetHash : Hash
  ballot : SCPBallot
  prepared : Option SCPBallot
  preparedPrime : Option SCPBallot
  nC : Uint32
  nH : Uint32
  deriving DecidableEq, Repr

structure Confirm where
  ballot : SCPBallot
  nPrepared : Uint32
  nCommit : Uint32
  nH : Uint32
  quorumSetHash : Hash
  deriving DecidableEq, Repr

structure Externalize where
  commit : SCPBallot
  nH : Uint32
  commitQuorumSetHash : Hash
  deriving DecidableEq, Repr

inductive Pledges where
  | prepare (prepare : Prepare)
  | confirm (confirm : Confirm)
  | externalize (externalize : Externalize)
  deriving DecidableEq, Repr

structure SCPStatement where
  nodeID : NodeID
  slotIndex : Uint64
  pledges : Pledges
  deriving DecidableEq, Repr

structure SCPEnvelope where
  statement : SCPStatement
  signature : Signature
  deriving DecidableEq, Repr

structure SCPQuorumSet where
  threshold : Uint32
  validators : List NodeID
  innerSets : List SCPQuorumSet

/-- Induction over the nesting of quorum sets. -/
theorem SCPQuorumSet.nested {motive : SCPQuorumSet → Prop}
    (step : ∀ threshold validators innerSets,
      (∀ inner ∈ innerSets, motive inner) →
        motive ⟨threshold, validators, innerSets⟩)
    (qSet : SCPQuorumSet) : motive qSet := by
  refine @SCPQuorumSet.rec motive
    (fun innerSets => ∀ inner ∈ innerSets, motive inner)
    (fun threshold validators innerSets inside =>
      step threshold validators innerSets inside)
    (fun inner member => absurd member List.not_mem_nil) ?_ qSet
  intro first rest firstHolds restHolds inner member
  rcases List.mem_cons.mp member with here | later
  · rw [here]
    exact firstHolds
  · exact restHolds inner later

/-- `std::map<NodeID, SCPEnvelope>`; nothing depends on its iteration order. -/
abbrev EnvelopeMap := AList (fun _ : NodeID => SCPEnvelope)

/-- The contents of a `std::set` after the insertions, in iteration order. -/
def toSet {α : Type} [LinearOrder α] (inserted : List α) : List α :=
  inserted.dedup.insertionSort (· ≤ ·)

@[simp] theorem mem_toSet {α : Type} [LinearOrder α] {item : α}
    {inserted : List α} : item ∈ toSet inserted ↔ item ∈ inserted := by
  simp [toSet]

theorem toSet_sorted {α : Type} [LinearOrder α] (inserted : List α) :
    (toSet inserted).Pairwise (· < ·) := by
  have ordered : (toSet inserted).Pairwise (· ≤ ·) :=
    List.pairwise_insertionSort _ _
  have distinct : (toSet inserted).Nodup :=
    (List.perm_insertionSort _ _).nodup_iff.mpr (List.nodup_dedup inserted)
  exact (ordered.and distinct).imp
    (fun both => lt_of_le_of_ne both.1 both.2)

namespace SCPBallot

theorem lt_iff {left right : SCPBallot} :
    left < right ↔ left.counter < right.counter ∨
      left.counter = right.counter ∧ left.value < right.value := by
  show toLex (left.counter, left.value) <
    toLex (right.counter, right.value) ↔ _
  rw [Prod.Lex.toLex_lt_toLex]

theorem le_iff {left right : SCPBallot} :
    left ≤ right ↔ left.counter < right.counter ∨
      left.counter = right.counter ∧ left.value ≤ right.value := by
  show toLex (left.counter, left.value) ≤
    toLex (right.counter, right.value) ↔ _
  rw [Prod.Lex.toLex_le_toLex]

theorem counter_le_of_le {left right : SCPBallot} (below : left ≤ right) :
    left.counter ≤ right.counter := by
  rcases le_iff.mp below with smaller | ⟨equal, _⟩
  · exact le_of_lt smaller
  · exact le_of_eq equal

theorem le_of_counter_le {left right : SCPBallot}
    (counters : left.counter ≤ right.counter)
    (values : left.value = right.value) : left ≤ right := by
  rcases lt_or_eq_of_le counters with smaller | equal
  · exact le_iff.mpr (.inl smaller)
  · exact le_iff.mpr (.inr ⟨equal, le_of_eq values⟩)

theorem zero_le (ballot : SCPBallot) : SCPBallot.zero ≤ ballot := by
  rw [le_iff]
  rcases lt_or_eq_of_le (Fin.zero_le ballot.counter) with less | equal
  · exact .inl less
  · exact .inr ⟨equal, not_lt.mp (List.not_lt_nil _)⟩

end SCPBallot

end StellarCore.Scp
