import StellarCore.Transactions.Applied
import StellarCore.Transactions.BookSettlement
import StellarCore.Transactions.EntryOperations

/-!
# Steps on single entries

The operations on single entries, applied to a running ledger: which ledger
they leave, and that nothing but an exception keeps them from returning one of
their results.
-/

namespace StellarCore.Transactions

open StellarCore.Lib

variable {ledger : LedgerState} {source : AccountEntry}

namespace LedgerState.Running

/-- What is stored for an account, and that it is there. -/
theorem stored (running : ledger.Running) {id : AccountID} {a : AccountEntry}
    (found : ledger.accounts.find? id = some a) : AccountStored id a :=
  running.valid.accounts.found found

theorem total_le (running : ledger.Running) :
    ledger.total .native ≤ int64Max := by
  have backed := running.backed
  have pool := running.pool
  have most := running.most
  unfold coins at backed
  omega

end LedgerState.Running

/-! ## Accounts -/

theorem getStartingSequenceNumber_le {header : LedgerHeader}
    (sequence : header.ledgerSeq ≤ int32Max) :
    (header.getStartingSequenceNumber : ℤ) ≤ int64Max := by
  unfold int32Max at sequence
  unfold LedgerHeader.getStartingSequenceNumber int64Max
  have small : header.ledgerSeq * 2 ^ 32 ≤ (2 ^ 31 - 1) * 2 ^ 32 :=
    Nat.mul_le_mul_right _ sequence
  rw [Nat.mod_eq_of_lt (by omega)]
  omega

namespace CreateAccountOp

variable {op : CreateAccountOp}

theorem checked_iff {sourceID : AccountID} :
    op.doCheckValid sourceID = none ↔
      0 < op.startingBalance ∧ op.destination ≠ sourceID := by
  simp only [doCheckValid, firstOf_eq_none, List.forall_mem_cons,
    List.not_mem_nil, false_implies, implies_true, and_true,
    decide_eq_false_iff_not, not_le, ne_eq]

theorem created_isValid (op : CreateAccountOp) {header : LedgerHeader}
    (sequence : header.ledgerSeq ≤ int32Max)
    (nonneg : 0 ≤ op.startingBalance) :
    (op.created header).isValid = true := by
  rw [AccountEntry.isValid_iff]
  exact {
    lastModified := Nat.zero_le _
    homeDomain := rfl
    balance := nonneg
    seqNum := getStartingSequenceNumber_le sequence
    ordered := .nil
    flags := by
      show (0 : BitVec 32) &&& ~~~maskAccountFlags = 0
      decide
    numSubEntries := Nat.zero_le _
    weights := fun _ member => absurd member List.not_mem_nil }

/-- The source after it has paid for the account. -/
def charged (op : CreateAccountOp) (source : AccountEntry) : AccountEntry :=
  { source with balance := source.balance - op.startingBalance }

/-- The ledger with the new account. -/
def addTo (op : CreateAccountOp) (source : AccountEntry)
    (ledger : LedgerState) : LedgerState :=
  (ledger.putAccount (op.charged source)).addAccount
    (op.created ledger.header)

/-- The source can pay for an account that is not there yet. -/
structure Affordable (op : CreateAccountOp) (source : AccountEntry)
    (ledger : LedgerState) : Prop where
  found : ledger.accounts.find? source.accountID = some source
  positive : 0 < op.startingBalance
  absent : ledger.accounts.find? op.destination = none
  affords : op.startingBalance ≤ source.balance

namespace Affordable

theorem storable (affordable : op.Affordable source ledger)
    (running : ledger.Running) : (op.charged source).isValid = true := by
  have affords := affordable.affords
  exact AccountEntry.isValid_balance
    (running.stored affordable.found).valid (by omega)

theorem charged_valid (affordable : op.Affordable source ledger)
    (running : ledger.Running) :
    (ledger.putAccount (op.charged source)).Valid := by
  have most := (running.stored affordable.found).most
  have positive := affordable.positive
  have counted := running.valid.counted.found affordable.found
  refine running.valid.putAccount (affordable.storable running) ?_
    (fun _ _ => rfl) counted
  show source.balance - op.startingBalance ≤ int64Max
  omega

theorem missing (affordable : op.Affordable source ledger) :
    (ledger.putAccount (op.charged source)).accounts.find?
      op.destination = none := by
  have apart : op.destination ≠ (op.charged source).accountID := by
    intro same
    have absent := affordable.absent
    rw [same] at absent
    cases absent.symm.trans affordable.found
  rw [LedgerState.putAccount, Table.find?_update, if_neg apart]
  exact affordable.absent

theorem valid (affordable : op.Affordable source ledger)
    (running : ledger.Running) : (op.addTo source ledger).Valid := by
  have most := (running.stored affordable.found).most
  exact (affordable.charged_valid running).addAccount
    (op.created_isValid running.valid.sequence affordable.positive.le)
    (affordable.affords.trans most) affordable.missing rfl

theorem applied (affordable : op.Affordable source ledger)
    (running : ledger.Running) : Applied ledger (op.addTo source ledger) := by
  have row : ledger.accounts.find? (op.charged source).accountID =
      some source := affordable.found
  refine .of_kept running (affordable.valid running) rfl running.numbers
    ?_ ?_
  · have added : (op.addTo source ledger).total .native =
        (ledger.putAccount (op.charged source)).total .native +
          op.startingBalance :=
      LedgerState.total_addAccount affordable.missing
    have moved : (ledger.putAccount (op.charged source)).total .native =
        ledger.total .native - source.balance +
          (source.balance - op.startingBalance) :=
      LedgerState.total_putAccount row
    omega
  · intro id a present
    unfold addTo LedgerState.addAccount at present
    rw [Table.find?_insert] at present
    split at present
    case isTrue =>
        cases present
        exact .inr rfl
    case isFalse =>
        exact .inl (numbers_putAccount row rfl id a present)

end Affordable

theorem doApply_ends (running : ledger.Running)
    (found : ledger.accounts.find? source.accountID = some source)
    (checked : op.doCheckValid source.accountID = none) :
    Ends (op.doApply source) ledger
      (fun result after => Concludes (result = .success) ledger after)
      (fun _ _ => False) := by
  obtain ⟨positive, apart⟩ := checked_iff.mp checked
  have stored := running.stored found
  have balance := (AccountEntry.isValid_iff.mp stored.valid).balance
  have most := stored.most
  unfold doApply
  rw [Ends.bind_iff]
  refine .of_run (running.valid.loadAccount op.destination) ?_
  cases absent : ledger.accounts.find? op.destination with
  | some _ => exact .failed (by simp) ledger
  | none =>
      simp only
      rw [Ends.bind_iff, getHeader_ends, Ends.ite_iff]
      refine ⟨fun _ => .failed (by simp) ledger, fun _ => ?_⟩
      rw [Ends.ite_iff]
      refine ⟨fun _ => .failed (by simp) ledger, fun covered => ?_⟩
      have reserve : 0 ≤ source.getMinimumBalance ledger.header :=
        Int.natCast_nonneg _
      have affordable : op.Affordable source ledger :=
        ⟨found, positive, absent, by omega⟩
      have paid : source.addBalance (-op.startingBalance) ledger =
          .ok (some (op.charged source)) ledger := by
        rw [AccountEntry.addBalance_eq balance (by omega),
          if_pos ⟨by omega, by omega⟩]
        rfl
      have present : ledger.accounts.contains
          (op.charged source).accountID = true :=
        Table.contains_eq_true.mpr ⟨source, found⟩
      have charged := running.valid.storeChangeAccount
        (affordable.storable running) present
      have added := (affordable.charged_valid running).storeAddAccount
        (op.created_isValid running.valid.sequence positive.le)
        affordable.missing
      rw [Ends.bind_iff]
      refine .of_run paid ?_
      simp only
      rw [Ends.bind_iff]
      refine .of_run charged ?_
      rw [Ends.bind_iff]
      exact .of_run added (.succeeded rfl (affordable.applied running))

end CreateAccountOp

/-! ## Merging -/

section Merging

variable {destination : AccountID} {other : AccountEntry}

theorem AccountEntry.addBalance_fits {a : AccountEntry} {delta : ℤ}
    (holds : 0 ≤ a.balance) (nonneg : 0 ≤ a.balance + delta)
    (most : a.balance + delta ≤ int64Max) :
    a.addBalance delta ledger =
      .ok (some { a with balance := a.balance + delta }) ledger := by
  by_cases zero : delta = 0
  · subst zero
    have same : Transactions.addBalance a.balance 0 int64Max ledger =
        .ok (some (a.balance + 0)) ledger := by
      apply Ends.eq_ok
      rw [addBalance_ends holds (by decide), if_pos (.inl rfl)]
      exact ⟨rfl, rfl⟩
    unfold AccountEntry.addBalance
    rw [run_bind, same]
    rfl
  · rw [AccountEntry.addBalance_eq holds zero, if_pos ⟨nonneg, most⟩]

/-- The account with the balance of the one that is merged into it. -/
def merged (source other : AccountEntry) : AccountEntry :=
  { other with balance := other.balance + source.balance }

def mergeInto (source other : AccountEntry) (ledger : LedgerState) :
    LedgerState :=
  (ledger.putAccount (merged source other)).dropAccount source.accountID

/-- Two accounts of the ledger, of which the first one owns nothing. -/
structure Mergeable (source other : AccountEntry) (destination : AccountID)
    (ledger : LedgerState) : Prop where
  found : ledger.accounts.find? source.accountID = some source
  other : ledger.accounts.find? destination = some other
  apart : source.accountID ≠ destination
  empty : source.numSubEntries = source.signers.length

namespace Mergeable

variable (mergeable : Mergeable source other destination ledger)
  (running : ledger.Running)

include mergeable running

theorem keyed : (merged source other).accountID = destination :=
  (running.stored mergeable.other).keyed

theorem balance : 0 ≤ source.balance ∧ 0 ≤ other.balance ∧
    other.balance + source.balance ≤ int64Max := by
  have mine := (AccountEntry.isValid_iff.mp
    (running.stored mergeable.found).valid).balance
  have theirs := (AccountEntry.isValid_iff.mp
    (running.stored mergeable.other).valid).balance
  have both := running.valid.holding_add_le_total mergeable.found
    mergeable.other (Ne.symm mergeable.apart)
  have most := running.total_le
  omega

theorem storable : (merged source other).isValid = true := by
  have balance := mergeable.balance running
  exact AccountEntry.isValid_balance
    (running.stored mergeable.other).valid (by omega)

theorem merged_valid :
    (ledger.putAccount (merged source other)).Valid := by
  have balance := mergeable.balance running
  have counted := running.valid.counted.found mergeable.other
  have keyed := mergeable.keyed running
  refine running.valid.putAccount (mergeable.storable running)
    balance.2.2 (fun _ _ => rfl) ?_
  rw [keyed]
  exact counted

theorem valid : (mergeInto source other ledger).Valid := by
  have counted := running.valid.counted.found mergeable.found
  have empty := mergeable.empty
  have owned : ledger.owned source.accountID = 0 := by omega
  exact (mergeable.merged_valid running).dropAccount owned

theorem row :
    (ledger.putAccount (merged source other)).accounts.find?
      source.accountID = some source := by
  have apart : source.accountID ≠ (merged source other).accountID := by
    rw [mergeable.keyed running]
    exact mergeable.apart
  rw [LedgerState.putAccount, Table.find?_update, if_neg apart]
  exact mergeable.found

theorem applied : Applied ledger (mergeInto source other ledger) := by
  have target : ledger.accounts.find? (merged source other).accountID =
      some other := by
    rw [mergeable.keyed running]
    exact mergeable.other
  refine .of_kept running (mergeable.valid running) rfl running.numbers
    ?_ ?_
  · have dropped : (mergeInto source other ledger).total .native =
        (ledger.putAccount (merged source other)).total .native -
          source.balance :=
      LedgerState.total_dropAccount (mergeable.row running)
    have moved : (ledger.putAccount (merged source other)).total .native =
        ledger.total .native - other.balance +
          (other.balance + source.balance) :=
      LedgerState.total_putAccount target
    omega
  · intro id a present
    unfold mergeInto LedgerState.dropAccount at present
    rw [Table.find?_erase] at present
    split at present
    case isTrue => cases present
    case isFalse =>
        exact .inl (numbers_putAccount target rfl id a present)

end Mergeable

theorem mergedBalance_eq (version : ledger.header.ledgerVersion = 9) :
    mergedBalance source ledger = .ok (some source.balance) ledger := by
  have header : getHeader ledger = .ok ledger.header ledger := rfl
  unfold mergedBalance
  rw [run_bind, header]
  simp only [version]
  rfl

theorem mergeDelete_eq (version : ledger.header.ledgerVersion = 9) :
    mergeDelete source ledger =
      .ok () (ledger.dropAccount source.accountID) := by
  have header : getHeader ledger = .ok ledger.header ledger := rfl
  unfold mergeDelete
  rw [run_bind, header]
  simp only [version]
  rfl

theorem mergeDoApply_ends (running : ledger.Running)
    (found : ledger.accounts.find? source.accountID = some source)
    (checked : mergeDoCheckValid destination source.accountID = none) :
    Ends (mergeDoApply destination source) ledger
      (fun result after =>
        Concludes (∃ balance, result = .success balance) ledger after)
      (fun _ _ => False) := by
  have apart : source.accountID ≠ destination := by
    simpa [mergeDoCheckValid, firstOf_eq_none] using checked
  unfold mergeDoApply
  rw [Ends.bind_iff]
  refine .of_run (running.valid.loadAccount destination) ?_
  cases target : ledger.accounts.find? destination with
  | none => exact .failed (by simp) ledger
  | some other =>
      simp only
      rw [Ends.bind_iff]
      refine .of_run (mergedBalance_eq running.version) ?_
      simp only
      rw [Ends.ite_iff]
      refine ⟨fun _ => .failed (by simp) ledger, fun _ => ?_⟩
      rw [Ends.ite_iff]
      refine ⟨fun _ => .failed (by simp) ledger, fun none => ?_⟩
      have mergeable : Mergeable source other destination ledger :=
        ⟨found, target, apart, not_not.mp none⟩
      have balance := mergeable.balance running
      have keyed := mergeable.keyed running
      have present : ledger.accounts.contains
          (merged source other).accountID = true :=
        Table.contains_eq_true.mpr ⟨other, keyed.symm ▸ target⟩
      have version : (ledger.putAccount
          (merged source other)).header.ledgerVersion = 9 :=
        running.version
      rw [Ends.bind_iff]
      refine .of_run (AccountEntry.addBalance_fits balance.2.1 (by omega)
        balance.2.2) ?_
      simp only
      rw [Ends.bind_iff]
      refine .of_run (running.valid.storeChangeAccount
        (mergeable.storable running) present) ?_
      rw [Ends.bind_iff]
      exact .of_run (mergeDelete_eq version)
        (.succeeded ⟨_, rfl⟩ (mergeable.applied running))

end Merging

end StellarCore.Transactions
