import StellarCore.Herder.ChargedFees
import StellarCore.Transactions.AppliedTransactions

/-!
# Runs of ledger closes

A ledger is closed with a set that was checked against the last one: first all
fees are taken, then the transactions are applied.  No transaction is taken
twice, in one set or in different ones, although accounts may be merged and
created again.
-/

namespace StellarCore.Herder

open StellarCore.Lib
open StellarCore.Transactions

section Closes

variable {ledger middle after : LedgerState} {txs : List Transaction}

/-! ## Numbers that are used -/

/-- The numbers of all accounts are those of ledgers up to this one. -/
def Numbered (ledger : LedgerState) : Prop :=
  ∀ id a, ledger.accounts.find? id = some a →
    a.seqNum ≤ ledger.header.ledgerSeq * 2 ^ 32

/-- No transaction of the account may have the number again, not even if the
account is created anew in a later ledger. -/
def Spent (ledger : LedgerState) (used : AccountID × ℕ) : Prop :=
  used.2 ≤ ledger.header.ledgerSeq * 2 ^ 32 ∧
    ∀ a, ledger.accounts.find? used.1 = some a → used.2 ≤ a.seqNum

/-- The source of a transaction and its number. -/
def numberOf (tx : Transaction) : AccountID × ℕ :=
  (tx.sourceAccount, tx.seqNum)

theorem Consecutive.follows {seqNum : ℕ}
    (consecutive : Consecutive seqNum txs) :
    txs.Pairwise (fun tx1 tx2 => tx1.seqNum < tx2.seqNum) ∧
      ∀ tx ∈ txs, seqNum < tx.seqNum := by
  induction consecutive with
  | nil => exact ⟨.nil, fun _ member => by cases member⟩
  | @cons seqNum tx rest follows later ih =>
      refine ⟨List.pairwise_cons.mpr ⟨ih.2, ih.1⟩, ?_⟩
      intro other member
      rcases List.mem_cons.mp member with rfl | member
      · omega
      · have further := ih.2 other member
        omega

/-- Within a set every account has different numbers. -/
theorem numbers_nodup
    (due : ∀ id, Due ledger id (ofAccount id txs)) :
    (txs.map numberOf).Nodup := by
  refine List.pairwise_map.mpr (List.pairwise_iff_forall_sublist.mpr ?_)
  intro tx1 tx2 sublist same
  have source : tx2.sourceAccount = tx1.sourceAccount :=
    (congrArg Prod.fst same).symm
  have number : tx1.seqNum = tx2.seqNum := congrArg Prod.snd same
  have both : ofAccount tx1.sourceAccount [tx1, tx2] = [tx1, tx2] := by
    simp [ofAccount, source]
  have own := sublist.filter
    (fun tx => decide (tx.sourceAccount = tx1.sourceAccount))
  change (ofAccount tx1.sourceAccount [tx1, tx2]).Sublist
    (ofAccount tx1.sourceAccount txs) at own
  rw [both] at own
  rcases due tx1.sourceAccount with none | ⟨a, _, consecutive, _⟩
  · rw [none] at own
    cases own
  · have less := List.pairwise_iff_forall_sublist.mp consecutive.follows.1 own
    omega

/-- A transaction that is due has a number that was not used. -/
theorem not_spent (due : ∀ id, Due ledger id (ofAccount id txs))
    {tx : Transaction} (member : tx ∈ txs) :
    ¬ Spent ledger (numberOf tx) := by
  rintro ⟨_, used⟩
  have own : tx ∈ ofAccount tx.sourceAccount txs :=
    mem_ofAccount.mpr ⟨member, rfl⟩
  rcases due tx.sourceAccount with none | ⟨a, found, consecutive, _⟩
  · rw [none] at own
    cases own
  · have late := used a found
    have early := consecutive.follows.2 tx own
    exact absurd late (not_le.mpr early)

/-! ## Fees -/

theorem paid_seqNum (ledgerSeq : ℕ) (a : AccountEntry) :
    (paid ledgerSeq txs a).seqNum = a.seqNum + txs.length := by
  unfold paid
  split
  · next none =>
      rw [none]
      rfl
  · rfl

theorem Charged.found (charged : Charged txs ledger middle)
    {id : AccountID} {a : AccountEntry}
    (found : middle.accounts.find? id = some a) :
    ∃ b, ledger.accounts.find? id = some b ∧
      a.seqNum = b.seqNum + (ofAccount id txs).length := by
  rw [charged.accounts] at found
  obtain ⟨b, stored, rfl⟩ := Option.map_eq_some_iff.mp found
  exact ⟨b, stored, paid_seqNum _ b⟩

/-- Taking the fees keeps what a ledger satisfies. -/
theorem Charged.running (charged : Charged txs ledger middle)
    (running : ledger.Running) (valid : middle.Valid) : middle.Running := by
  have header := charged.header
  have fees := totalFee_nonneg txs
  have pool := running.pool
  exact {
    valid
    pool := by
      rw [header]
      show 0 ≤ ledger.header.feePool + totalFee txs
      omega
    backed := by
      rw [charged.coins, header]
      exact running.backed
    most := by
      rw [header]
      exact running.most
    version := by
      rw [header]
      exact running.version
    numbers := by
      rw [header]
      exact running.numbers
    timely := by
      rw [header]
      exact running.timely
    paced := by
      rw [header]
      exact running.paced
    minted := by
      rw [header]
      exact running.minted }

theorem nextLedger_running (running : ledger.Running) {closeTime : ℕ}
    (last : ledger.header.ledgerSeq < int32Max)
    (timely : closeTime ≤ horizon) :
    (nextLedger ledger closeTime).Running :=
  { running with
    valid := nextLedger_valid running.valid closeTime last
    timely }

/-! ## A checked set -/

/-- The numbers that a checked chain asks for do not overflow. -/
theorem Chain.small {crypto : Crypto} {account : AccountEntry} {current : ℕ}
    (chain : Chain crypto ledger account current txs)
    (room : followed account current + txs.length ≤ 2 ^ 63 - 1) :
    ∀ tx ∈ txs, (tx.seqNum : ℤ) ≤ int64Max := by
  induction chain with
  | nil => exact fun _ member => by cases member
  | @cons current tx rest accepted later ih =>
      have sequence := accepted.follows
      rw [List.length_cons] at room
      have follows : (followed account current + 1) % 2 ^ 64 =
          tx.seqNum := by
        unfold Transaction.badSeq at sequence
        simpa [followed] using sequence
      rw [Nat.mod_eq_of_lt (by omega)] at follows
      have last : followed account tx.seqNum = tx.seqNum :=
        if_neg (by omega)
      rw [last] at ih
      intro other member
      rcases List.mem_cons.mp member with rfl | member
      · unfold int64Max
        omega
      · exact ih (by omega) other member

/-- What a ledger is closed with: a set, and of the agreed value the hash of
the set and the close time. -/
structure LedgerCloseData where
  txSet : TxSetFrame
  txSetHash : Hash
  closeTime : ℕ

/-- The set was checked against the last closed ledger, and it is the one that
was agreed on. -/
structure Closable (sorter : Sorter) (crypto : Crypto) (lclHash : Hash)
    (data : LedgerCloseData) (ledger : LedgerState) : Prop where
  checked : data.txSet.checkValid sorter crypto lclHash ledger =
    .ok true ledger
  agreed : data.txSet.contentsHash = data.txSetHash
  few : data.txSet.transactions.length < 2 ^ 31
  quiet : ∀ tx ∈ data.txSet.transactions, tx.offMarket = true
  last : ledger.header.ledgerSeq < int32Max
  timely : data.closeTime ≤ horizon

variable {sorter : Sorter} {crypto : Crypto} {lclHash : Hash}
  {data : LedgerCloseData}

theorem previousLedgerHash_eq {txSet : TxSetFrame}
    (checked : txSet.checkValid sorter crypto lclHash ledger =
      .ok true ledger) : txSet.previousLedgerHash = lclHash := by
  have header : getHeader ledger = .ok ledger.header ledger := rfl
  unfold TxSetFrame.checkValid at checked
  rw [run_bind, header] at checked
  dsimp only at checked
  split at checked
  next => cases checked
  next same => exact (not_not.mp same).symm

theorem length_ofAccount_le (sorter : Sorter) (txSet : TxSetFrame)
    (id : AccountID) :
    (ofAccount id (txSet.sortForApply sorter)).length ≤
      txSet.transactions.length :=
  (List.length_filter_le _ _).trans
    (sortForApply_perm sorter txSet).length_eq.le

theorem Closable.settled
    (closable : Closable sorter crypto lclHash data ledger)
    (valid : ledger.Valid) (id : AccountID) :
    Settled crypto ledger id
      (ofAccount id (data.txSet.sortForApply sorter)) := by
  have fit : BalancesFit ledger :=
    fun row member => (valid.accounts row member).most
  exact settled_sortForApply sorter fit closable.few closable.checked id

theorem Closable.due
    (closable : Closable sorter crypto lclHash data ledger)
    (valid : ledger.Valid) (numbered : Numbered ledger) (id : AccountID) :
    Due ledger id (ofAccount id (data.txSet.sortForApply sorter)) := by
  have settled := closable.settled valid id
  refine settled.due valid ?_
  rcases settled.chained with none | ⟨account, chain, loads, _⟩
  · rw [none]
    exact fun _ member => by cases member
  · have found : ledger.accounts.find? id = some account :=
      (EStateM.Result.ok.inj ((valid.loadAccount id).symm.trans loads)).1
    have number := numbered id account found
    have last := closable.last
    have few := closable.few
    have own := length_ofAccount_le sorter data.txSet id
    have start : followed account 0 = account.seqNum := if_pos rfl
    unfold int32Max at last
    refine chain.small ?_
    rw [start]
    omega

theorem Closable.small
    (closable : Closable sorter crypto lclHash data ledger)
    (valid : ledger.Valid) (numbered : Numbered ledger) :
    ∀ tx ∈ data.txSet.sortForApply sorter, (tx.seqNum : ℤ) ≤ int64Max := by
  intro tx member
  have own := mem_ofAccount.mpr ⟨member, rfl⟩
  rcases closable.due valid numbered tx.sourceAccount with
    none | ⟨a, found, consecutive, _⟩
  · rw [none] at own
    cases own
  · have number := numbered _ a found
    have bound := consecutive.le tx own
    have last := closable.last
    have few := closable.few
    have length := length_ofAccount_le sorter data.txSet tx.sourceAccount
    unfold int32Max at last
    unfold int64Max
    omega

/-! ## Closing a ledger -/

/-- First the fees are charged, then the transactions are applied.  There are
no upgrades. -/
def closeLedger (sorter : Sorter) (crypto : Crypto)
    (computePrice : Price → ℚ) (lclHash : Hash) (data : LedgerCloseData) :
    Ledger (List TransactionResult) := do
  if data.txSet.previousLedgerHash ≠ lclHash then
    throw (.runtimeError "txset mismatch")
  else if data.txSet.contentsHash ≠ data.txSetHash then
    throw (.runtimeError "corrupt transaction set")
  else
    modify (fun ledger => nextLedger ledger data.closeTime)
    let txs := data.txSet.sortForApply sorter
    let _ ← processFeesSeqNums txs
    applyTransactions crypto computePrice txs

/-- Inflation has run so many times, and no other coin was made. -/
def Minted (before after : LedgerState) : Prop :=
  ∃ k, after.header.inflationSeq = before.header.inflationSeq + k ∧
    after.coins = inflated^[k] before.coins

theorem Minted.refl (ledger : LedgerState) : Minted ledger ledger :=
  ⟨0, rfl, rfl⟩

theorem Minted.trans (first : Minted ledger middle)
    (second : Minted middle after) : Minted ledger after := by
  obtain ⟨k, passed, made⟩ := first
  obtain ⟨l, later, more⟩ := second
  refine ⟨l + k, by omega, ?_⟩
  rw [more, made, Function.iterate_add_apply]

/-- The next ledger, and where the numbers of its accounts come from: an
account is created with a number that no account had before. -/
structure Advanced (txs : List Transaction) (before after : LedgerState) :
    Prop where
  running : after.Running
  ledgerSeq : after.header.ledgerSeq = before.header.ledgerSeq + 1
  numbers : ∀ id a, after.accounts.find? id = some a →
    (∃ b, before.accounts.find? id = some b ∧
      a.seqNum = b.seqNum + (ofAccount id txs).length) ∨
        a.seqNum = after.header.ledgerSeq * 2 ^ 32
  minted : Minted before after

namespace Advanced

theorem numbered (advanced : Advanced txs ledger after)
    (numbered : Numbered ledger) (few : txs.length < 2 ^ 31) :
    Numbered after := by
  intro id a found
  rcases advanced.numbers id a found with ⟨b, stored, sum⟩ | new
  · have old := numbered id b stored
    have own : (ofAccount id txs).length ≤ txs.length :=
      List.length_filter_le _ _
    rw [advanced.ledgerSeq, sum]
    omega
  · exact new.le

theorem spent (advanced : Advanced txs ledger after)
    (numbered : Numbered ledger) (few : txs.length < 2 ^ 31)
    (due : ∀ id, Due ledger id (ofAccount id txs))
    {tx : Transaction} (member : tx ∈ txs) :
    Spent after (numberOf tx) := by
  have own : tx ∈ ofAccount tx.sourceAccount txs :=
    mem_ofAccount.mpr ⟨member, rfl⟩
  rcases due tx.sourceAccount with none | ⟨b, found, consecutive, _⟩
  · rw [none] at own
    cases own
  · have bound : tx.seqNum ≤
        b.seqNum + (ofAccount tx.sourceAccount txs).length :=
      consecutive.le tx own
    have old := numbered _ b found
    have less : (ofAccount tx.sourceAccount txs).length ≤ txs.length :=
      List.length_filter_le _ _
    have late : tx.seqNum ≤ after.header.ledgerSeq * 2 ^ 32 := by
      rw [advanced.ledgerSeq]
      omega
    refine ⟨late, fun a present => ?_⟩
    show tx.seqNum ≤ a.seqNum
    rcases advanced.numbers _ a present with ⟨c, stored, sum⟩ | new
    · cases found.symm.trans stored
      rw [sum]
      exact bound
    · rw [new]
      exact late

/-- What is spent stays spent. -/
theorem kept (advanced : Advanced txs ledger after)
    {used : AccountID × ℕ} (spent : Spent ledger used) :
    Spent after used := by
  have late : used.2 ≤ after.header.ledgerSeq * 2 ^ 32 := by
    rw [advanced.ledgerSeq]
    exact spent.1.trans (Nat.mul_le_mul_right _ (Nat.le_succ _))
  refine ⟨late, fun a present => ?_⟩
  rcases advanced.numbers _ a present with ⟨b, stored, sum⟩ | new
  · have old := spent.2 b stored
    omega
  -- merged and created again: the new number is above all that are spent
  · rw [new]
    exact late

end Advanced

theorem Charged.advanced {closeTime : ℕ}
    (charged : Charged txs (nextLedger ledger closeTime) middle)
    (last : ledger.header.ledgerSeq < int32Max)
    (running : middle.Running) (applied : Applied middle after) :
    Advanced txs ledger after := by
  have header := congrArg LedgerHeader.ledgerSeq charged.header
  have fixed := congrArg LedgerHeader.ledgerSeq applied.fixed
  have ledgerSeq : after.header.ledgerSeq = ledger.header.ledgerSeq + 1 :=
    fixed.trans header
  have minted : Minted ledger after := by
    obtain ⟨k, passed, made⟩ := applied.coins
    have inflationSeq := congrArg LedgerHeader.inflationSeq charged.header
    refine ⟨k, passed.trans (congrArg (· + k) inflationSeq), ?_⟩
    have coins : middle.coins = ledger.coins := charged.coins
    rw [applied.running.backed, made, ← running.backed, coins]
  refine ⟨applied.running, ledgerSeq, fun id a found => ?_, minted⟩
  rcases applied.numbers id a found with ⟨b, stored, same⟩ | new
  · obtain ⟨c, present, sum⟩ := charged.found stored
    exact .inl ⟨c, present, same.trans sum⟩
  · refine .inr (new.trans ?_)
    unfold LedgerHeader.getStartingSequenceNumber
    unfold int32Max at last
    have same : middle.header.ledgerSeq = after.header.ledgerSeq :=
      fixed.symm
    rw [same, ledgerSeq]
    exact Nat.mod_eq_of_lt (by omega)

theorem closeLedger_advanced (computePrice : Price → ℚ)
    (closable : Closable sorter crypto lclHash data ledger)
    (running : ledger.Running) (numbered : Numbered ledger) :
    ∃ results after,
      closeLedger sorter crypto computePrice lclHash data ledger =
        .ok results after ∧
      Advanced (data.txSet.sortForApply sorter) ledger after := by
  have perm := sortForApply_perm sorter data.txSet
  have next := nextLedger_running running closable.last closable.timely
  have quiet : ∀ tx ∈ data.txSet.sortForApply sorter, tx.offMarket = true :=
    fun tx member => closable.quiet tx (perm.subset member)
  obtain ⟨middle, fees, charged, valid⟩ :=
    processFeesSeqNums_run next.valid next.pool
      (next.backed.trans_le next.most)
      (closable.small running.valid numbered)
      (closable.due running.valid numbered)
  have between := charged.running next valid
  obtain ⟨results, after, run, applied⟩ :=
    applyTransactions_applies crypto computePrice quiet between
  refine ⟨results, after, ?_, charged.advanced closable.last between applied⟩
  have start : (modify (fun ledger => nextLedger ledger data.closeTime) :
      Ledger PUnit) ledger = .ok ⟨⟩ (nextLedger ledger data.closeTime) := rfl
  have same := previousLedgerHash_eq closable.checked
  unfold closeLedger
  rw [if_neg (not_not.mpr same), if_neg (not_not.mpr closable.agreed),
    run_bind, start]
  simp only
  rw [run_bind, fees]
  exact run

/-! ## Runs -/

/-- Ledgers are closed one after the other, each with a set that was checked
against the one before. -/
inductive Closes (sorter : Sorter) (crypto : Crypto)
    (computePrice : Price → ℚ) :
    LedgerState → List LedgerCloseData → LedgerState → Prop
  | nil {ledger : LedgerState} :
      Closes sorter crypto computePrice ledger [] ledger
  | cons {ledger middle last : LedgerState} {lclHash : Hash}
      {data : LedgerCloseData} {later : List LedgerCloseData}
      {results : List TransactionResult}
      (closable : Closable sorter crypto lclHash data ledger)
      (closed : closeLedger sorter crypto computePrice lclHash data ledger =
        .ok results middle)
      (rest : Closes sorter crypto computePrice middle later last) :
      Closes sorter crypto computePrice ledger (data :: later) last

/-- The numbers that the sets use, set by set. -/
def numbersOf (closed : List LedgerCloseData) : List (AccountID × ℕ) :=
  closed.flatMap (fun data => data.txSet.transactions.map numberOf)

/-- What holds after a run: nothing that was used before is used in it, and
nothing is used in it twice. -/
structure Fresh (before : LedgerState) (closed : List LedgerCloseData)
    (last : LedgerState) : Prop where
  running : last.Running
  numbered : Numbered last
  unused : ∀ used ∈ numbersOf closed, ¬ Spent before used
  distinct : (numbersOf closed).Nodup
  minted : Minted before last

theorem Closes.fresh {computePrice : Price → ℚ}
    {closed : List LedgerCloseData} {last : LedgerState}
    (closes : Closes sorter crypto computePrice ledger closed last)
    (running : ledger.Running) (numbered : Numbered ledger) :
    Fresh ledger closed last := by
  induction closes with
  | nil =>
      exact
        { running
          numbered
          unused := fun _ member => by cases member
          distinct := List.nodup_nil
          minted := .refl _ }
  | @cons ledger middle last lclHash data later results closable closed _
      ih =>
      obtain ⟨results', middle', run, advanced⟩ :=
        closeLedger_advanced computePrice closable running numbered
      cases closed.symm.trans run
      have perm := sortForApply_perm sorter data.txSet
      have few : (data.txSet.sortForApply sorter).length < 2 ^ 31 :=
        perm.length_eq.trans_lt closable.few
      have due := closable.due running.valid numbered
      have rest := ih advanced.running (advanced.numbered numbered few)
      have split : numbersOf (data :: later) =
          data.txSet.transactions.map numberOf ++ numbersOf later :=
        List.flatMap_cons
      refine ⟨rest.running, rest.numbered, ?_, ?_,
        advanced.minted.trans rest.minted⟩
      · intro used member spent
        rw [split] at member
        rcases List.mem_append.mp member with here | after
        · obtain ⟨tx, listed, rfl⟩ := List.mem_map.mp here
          exact not_spent due (perm.symm.subset listed) spent
        -- otherwise a later set would use a number that is still spent
        · exact rest.unused used after (advanced.kept spent)
      · have own : (data.txSet.transactions.map numberOf).Nodup :=
          (perm.map numberOf).nodup_iff.mp (numbers_nodup due)
        rw [split]
        refine List.nodup_append'.mpr ⟨own, rest.distinct, ?_⟩
        intro used here after
        obtain ⟨tx, member, rfl⟩ := List.mem_map.mp here
        exact rest.unused _ after
          (advanced.spent numbered few due (perm.symm.subset member))

end Closes

/-- However often ledgers are closed, no transaction is applied twice, coins
are made by inflation only, and the next ledger can be closed with every set
that passes its check. -/
theorem closes_once (sorter : Sorter) (crypto : Crypto)
    (computePrice : Price → ℚ) (ledger last : LedgerState)
    (closed : List LedgerCloseData) (running : ledger.Running)
    (numbered : Numbered ledger)
    (closes : Closes sorter crypto computePrice ledger closed last) :
    (numbersOf closed).Nodup ∧ last.Running ∧ Minted ledger last ∧
      ∀ lclHash data, Closable sorter crypto lclHash data last →
        ∃ results after,
          closeLedger sorter crypto computePrice lclHash data last =
            .ok results after := by
  have fresh := closes.fresh running numbered
  refine ⟨fresh.distinct, fresh.running, fresh.minted,
    fun lclHash data closable => ?_⟩
  obtain ⟨results, after, run, _⟩ :=
    closeLedger_advanced computePrice closable fresh.running fresh.numbered
  exact ⟨results, after, run⟩

def firstClose : LedgerCloseData :=
  { txSet := twoTransactions, txSetHash := 0, closeTime := 9 }

/-- The next transaction of the same account. -/
def secondClose : LedgerCloseData :=
  { txSet :=
      { previousLedgerHash := 8
        transactions := [inflationTransaction 3 4]
        contentsHash := 3 }
    txSetHash := 3
    closeTime := 14 }

def finalState : EStateM.Result Failure LedgerState (List TransactionResult) →
    LedgerState
  | .ok _ ledger => ledger
  | .error _ ledger => ledger

def closedOnce : LedgerState :=
  finalState (closeLedger Sorter.insertion trustingCrypto (fun _ => 0) 7
    firstClose roomyLedger)

theorem closes_once_twice :
    ∃ last, Closes Sorter.insertion trustingCrypto (fun _ => 0) roomyLedger
        [firstClose, secondClose] last ∧
      Minted roomyLedger last := by
  have running : roomyLedger.Running :=
    { valid := by decide +kernel
      pool := by decide
      backed := by decide +kernel
      most := by decide
      version := rfl
      numbers := by decide
      timely := by decide +kernel
      paced := by decide
      minted := by decide +kernel }
  have numbered : Numbered roomyLedger := by
    intro id a found
    have row : (id, a) ∈ roomyLedger.accounts.rows :=
      Table.find?_eq_some.mp found
    cases List.mem_singleton.mp row
    decide
  have first : Closable Sorter.insertion trustingCrypto 7 firstClose
      roomyLedger :=
    { checked := twoTransactions_checkValid
      agreed := rfl
      few := by decide
      quiet := by decide +kernel
      last := by decide
      timely := by decide +kernel }
  obtain ⟨-, -, -, closing⟩ := closes_once Sorter.insertion trustingCrypto
    (fun _ => 0) roomyLedger roomyLedger [] running numbered .nil
  obtain ⟨results, middle, closed⟩ := closing 7 firstClose first
  obtain rfl : closedOnce = middle := congrArg finalState closed
  have second : Closable Sorter.insertion trustingCrypto 8 secondClose
      closedOnce :=
    { checked := checkValid_of_accepts (by decide +kernel)
      agreed := rfl
      few := by decide
      quiet := by decide +kernel
      last := by decide +kernel
      timely := by decide +kernel }
  obtain ⟨-, -, -, closing⟩ := closes_once Sorter.insertion trustingCrypto
    (fun _ => 0) roomyLedger closedOnce [firstClose] running numbered
    (.cons first closed .nil)
  obtain ⟨results, last, closed'⟩ := closing 8 secondClose second
  have closes := Closes.cons first closed (.cons second closed' .nil)
  obtain ⟨-, -, minted, -⟩ := closes_once Sorter.insertion trustingCrypto
    (fun _ => 0) roomyLedger last [firstClose, secondClose] running
    numbered closes
  exact ⟨last, closes, minted⟩

end StellarCore.Herder
