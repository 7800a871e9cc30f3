import StellarCore.Herder.ProposedSet
import StellarCore.Transactions.Coins

/-!
# Charged fees

Fees are taken when a ledger is closed, from the accounts as they are then and
in the order of application.  A set that was checked against the last closed
ledger lists for every account its next transactions, which the account can
pay for; so every fee is taken in full.
-/

namespace StellarCore.Herder

open StellarCore.Lib
open StellarCore.Transactions

/-- The ledger that is being closed starts with the entries of the last
one. -/
def nextLedger (ledger : LedgerState) (closeTime : ℕ) : LedgerState :=
  { ledger with
    header :=
      { ledger.header with
        ledgerSeq := ledger.header.ledgerSeq + 1, closeTime } }

/-! ## What is due -/

/-- The sequence numbers follow each other. -/
inductive Consecutive : ℕ → List Transaction → Prop
  | nil {seqNum : ℕ} : Consecutive seqNum []
  | cons {seqNum : ℕ} {tx : Transaction} {rest : List Transaction}
      (follows : tx.seqNum = seqNum + 1)
      (later : Consecutive tx.seqNum rest) : Consecutive seqNum (tx :: rest)

theorem Consecutive.le {seqNum : ℕ} {txs : List Transaction}
    (consecutive : Consecutive seqNum txs) :
    ∀ tx ∈ txs, tx.seqNum ≤ seqNum + txs.length := by
  induction consecutive with
  | nil =>
      intro tx member
      cases member
  | @cons seqNum first rest follows later ih =>
      intro tx member
      rw [List.length_cons]
      rcases List.mem_cons.mp member with rfl | member
      · omega
      · have bound := ih tx member
        omega

/-- The transactions are the next ones of the account, which can pay for
them. -/
def Due (ledger : LedgerState) (accountID : AccountID)
    (txs : List Transaction) : Prop :=
  txs = [] ∨ ∃ a, ledger.accounts.find? accountID = some a ∧
    Consecutive a.seqNum txs ∧ totalFee txs ≤ a.balance

/-- An account after the fees of its transactions were taken. -/
def paid (ledgerSeq : ℕ) (txs : List Transaction) (a : AccountEntry) :
    AccountEntry :=
  if txs = [] then a
  else
    { a with
      balance := a.balance - totalFee txs
      seqNum := a.seqNum + txs.length
      lastModified := ledgerSeq }

theorem totalFee_append (first second : List Transaction) :
    totalFee (first ++ second) = totalFee first + totalFee second := by
  simp [totalFee]

theorem paid_append (ledgerSeq : ℕ) (first second : List Transaction)
    (a : AccountEntry) :
    paid ledgerSeq second (paid ledgerSeq first a) =
      paid ledgerSeq (first ++ second) a := by
  unfold paid
  by_cases none : first = []
  · simp [none]
  · by_cases last : second = []
    · simp [none, last]
    · simp [none, last, totalFee_append, add_assoc, sub_sub]

/-- The fees of the transactions were taken, and nothing else happened. -/
structure Charged (txs : List Transaction) (before after : LedgerState) :
    Prop where
  accounts : ∀ accountID, after.accounts.find? accountID =
    (before.accounts.find? accountID).map
      (paid before.header.ledgerSeq (ofAccount accountID txs))
  coins : after.coins = before.coins
  trustLines : after.trustLines = before.trustLines
  offers : after.offers = before.offers
  data : after.data = before.data
  header : after.header = { before.header with
    feePool := before.header.feePool + totalFee txs }

theorem Charged.nil (ledger : LedgerState) : Charged [] ledger ledger where
  accounts accountID := by
    have same : paid ledger.header.ledgerSeq (ofAccount accountID []) =
        id := by
      funext a
      rfl
    rw [same, Option.map_id]
    rfl
  coins := rfl
  trustLines := rfl
  offers := rfl
  data := rfl
  header := by
    rw [totalFee_nil, add_zero]

theorem Charged.append {first second : List Transaction}
    {before middle after : LedgerState} (one : Charged first before middle)
    (two : Charged second middle after) :
    Charged (first ++ second) before after where
  accounts accountID := by
    rw [two.accounts, one.accounts, one.header, Option.map_map,
      ofAccount_append]
    congr 1
    funext a
    exact paid_append _ _ _ a
  coins := two.coins.trans one.coins
  trustLines := two.trustLines.trans one.trustLines
  offers := two.offers.trans one.offers
  data := two.data.trans one.data
  header := by
    rw [two.header, one.header, totalFee_append, add_assoc]

/-- The order in which the fees are taken makes no difference. -/
theorem Charged.perm {first second : List Transaction}
    {before after : LedgerState} (perm : first.Perm second)
    (charged : Charged first before after) : Charged second before after where
  accounts accountID := by
    have own := ofAccount_perm perm accountID
    have same : paid before.header.ledgerSeq (ofAccount accountID first) =
        paid before.header.ledgerSeq (ofAccount accountID second) := by
      funext a
      unfold paid
      rw [totalFee_perm own, own.length_eq]
      by_cases none : ofAccount accountID first = []
      · have other : ofAccount accountID second = [] := by
          rw [none] at own
          exact List.nil_perm.mp own
        rw [if_pos none, if_pos other]
      · have other : ofAccount accountID second ≠ [] := by
          intro none'
          rw [none'] at own
          exact none (List.perm_nil.mp own)
        rw [if_neg none, if_neg other]
    rw [charged.accounts, same]
  coins := charged.coins
  trustLines := charged.trustLines
  offers := charged.offers
  data := charged.data
  header := by
    rw [charged.header, totalFee_perm perm]

/-! ## Taking the fees -/

section Taking

variable {ledger : LedgerState}

theorem Due.chargeable {tx : Transaction} {rest : List Transaction}
    (due : Due ledger tx.sourceAccount (tx :: rest))
    (small : (tx.seqNum : ℤ) ≤ int64Max) :
    ∃ a, tx.Chargeable a ledger ∧ Consecutive tx.seqNum rest ∧
      totalFee (tx :: rest) ≤ a.balance := by
  rcases due with none | ⟨a, found, consecutive, affords⟩
  · cases none
  · cases consecutive with
    | cons follows later =>
        have others := totalFee_nonneg rest
        have fees := affords
        rw [totalFee_cons] at fees
        exact ⟨a, ⟨found, follows, small, by omega⟩, later, affords⟩

theorem charged_charge {tx : Transaction} {a : AccountEntry}
    (chargeable : tx.Chargeable a ledger) (valid : ledger.Valid) :
    Charged [tx] ledger (tx.charge a ledger) where
  accounts accountID := by
    rw [Transaction.find?_charge chargeable valid]
    split
    next same =>
      subst same
      rw [chargeable.found, ofAccount_cons_of_eq rfl, ofAccount_nil,
        Option.map_some]
      simp [paid, Transaction.charged, chargeable.follows]
    next other =>
      rw [ofAccount_cons_of_ne (Ne.symm other), ofAccount_nil]
      have same : paid ledger.header.ledgerSeq [] = id := by
        funext a
        rfl
      rw [same, Option.map_id]
      rfl
  coins := Transaction.coins_charge chargeable valid
  trustLines := rfl
  offers := rfl
  data := rfl
  header := by
    rw [totalFee_cons, totalFee_nil, add_zero]
    rfl

theorem processFeesSeqNums_run {txs : List Transaction}
    (valid : ledger.Valid) (pool : 0 ≤ ledger.header.feePool)
    (most : ledger.coins ≤ int64Max)
    (small : ∀ tx ∈ txs, (tx.seqNum : ℤ) ≤ int64Max)
    (due : ∀ accountID, Due ledger accountID (ofAccount accountID txs)) :
    ∃ after, processFeesSeqNums txs ledger =
        .ok (txs.map (fun tx => (tx.fee : ℤ))) after ∧
      Charged txs ledger after ∧ after.Valid := by
  induction txs generalizing ledger with
  | nil => exact ⟨ledger, rfl, Charged.nil ledger, valid⟩
  | cons tx rest ih =>
      have here := due tx.sourceAccount
      rw [ofAccount_cons_of_eq rfl] at here
      obtain ⟨a, chargeable, later, affords⟩ :=
        here.chargeable (small tx List.mem_cons_self)
      have one := charged_charge chargeable valid
      have nextDue : ∀ accountID, Due (tx.charge a ledger) accountID
          (ofAccount accountID rest) := by
        intro accountID
        by_cases same : accountID = tx.sourceAccount
        · subst same
          refine .inr ⟨_, (Transaction.find?_charge chargeable valid _).trans
            (if_pos rfl), later, ?_⟩
          show totalFee _ ≤ a.balance - tx.fee
          rw [totalFee_cons] at affords
          omega
        · have other := due accountID
          rw [ofAccount_cons_of_ne (Ne.symm same)] at other
          unfold Due
          rw [Transaction.find?_charge chargeable valid, if_neg same]
          exact other
      obtain ⟨after, run, charged, kept⟩ :=
        ih
          (Transaction.charge_valid chargeable valid)
          (by
            show 0 ≤ ledger.header.feePool + tx.fee
            omega)
          (by rw [one.coins]; exact most)
          (fun other member => small other (List.mem_cons_of_mem tx member))
          nextDue
      refine ⟨after, ?_, one.append charged, kept⟩
      rw [processFeesSeqNums, run_bind,
        Transaction.processFeeSeqNum_eq chargeable valid pool most]
      simp only
      rw [run_bind, run]
      rfl

end Taking

/-! ## What a checked set owes -/

section Checked

variable {crypto : Crypto} {ledger : LedgerState} {accountID : AccountID}

/-- The loop of the check accepts a chain that the account can pay for. -/
theorem chain_of_checkAccount {current : ℕ} {totFee : ℤ}
    {lastTx : Option AccountEntry} {txs : List Transaction}
    (sources : ∀ tx ∈ txs, tx.sourceAccount = accountID)
    (loaded : ∀ account, lastTx = some account →
      Loads ledger accountID account)
    (run : TxSetFrame.checkAccount crypto current totFee lastTx txs ledger =
      .ok true ledger) :
    (lastTx = none ∧ txs = []) ∨ ∃ account,
      Loads ledger accountID account ∧
      Chain crypto ledger account current txs ∧
      account.getMinimumBalance ledger.header ≤
        wrap64 (account.balance - feeSum totFee txs) := by
  induction txs generalizing current totFee lastTx with
  | nil =>
      cases lastTx with
      | none => exact .inl ⟨rfl, rfl⟩
      | some account =>
          refine .inr ⟨account, loaded account rfl, .nil, ?_⟩
          have header : getHeader ledger = .ok ledger.header ledger := rfl
          unfold TxSetFrame.checkAccount at run
          dsimp only at run
          rw [run_bind, header] at run
          have enough := (EStateM.Result.ok.inj run).1
          show _ ≤ wrap64 (account.balance - totFee)
          simpa using enough
  | cons tx rest ih =>
      have source := sources tx List.mem_cons_self
      unfold TxSetFrame.checkAccount at run
      rw [run_bind] at run
      rcases (checkValid_reads crypto tx current).cases ledger with
        ⟨validity, checked⟩ | ⟨reason, failed, _⟩
      · rw [checked] at run
        dsimp only at run
        split at run
        next => cases run
        next passed =>
          have succeeded : validity.code = .txSuccess := not_not.mp passed
          obtain ⟨account, accepted⟩ :=
            accepted_of_checkValid checked succeeded
          obtain ⟨validity', checked', _, signing⟩ := accepted.checked
          cases checked.symm.trans checked'
          have loads : Loads ledger accountID account :=
            source ▸ accepted.loads
          have later := ih
            (fun other member =>
              sources other (List.mem_cons_of_mem tx member))
            (by
              intro other same
              rw [signing] at same
              cases same
              exact loads)
            run
          rcases later with ⟨none, _⟩ | ⟨other, loads', chain, funds⟩
          · rw [signing] at none
            cases none
          · cases loads'.unique loads
            exact .inr ⟨account, loads, .cons accepted chain, funds⟩
      · rw [failed] at run
        cases run

theorem checkAccount_reads (crypto : Crypto) (current : ℕ) (totFee : ℤ)
    (lastTx : Option AccountEntry) (txs : List Transaction) :
    Reads AccountFailure
      (TxSetFrame.checkAccount crypto current totFee lastTx txs) := by
  induction txs generalizing current totFee lastTx with
  | nil =>
      cases lastTx with
      | none => exact Reads.pure _
      | some account => exact getHeader_reads.bind (fun _ => Reads.pure _)
  | cons tx rest ih =>
      refine (checkValid_reads crypto tx current).bind ?_
      intro validity
      exact Reads.ite (Reads.pure _) (ih _ _ _)

theorem checkAccounts_each (sorter : Sorter)
    {groups : List (AccountID × List Transaction)}
    (run : TxSetFrame.checkAccounts sorter crypto groups ledger =
      .ok true ledger)
    {group : AccountID × List Transaction} (member : group ∈ groups) :
    TxSetFrame.checkAccount crypto 0 0 none
        (sorter.sort seqSorter group.2) ledger = .ok true ledger := by
  induction groups with
  | nil => cases member
  | cons first groups ih =>
      unfold TxSetFrame.checkAccounts at run
      rw [run_bind] at run
      rcases (checkAccount_reads crypto 0 0 none
        (sorter.sort seqSorter first.2)).cases ledger with
        ⟨passed, checked⟩ | ⟨reason, failed, _⟩
      · rw [checked] at run
        cases passed with
        | false => cases run
        | true =>
            rcases List.mem_cons.mp member with rfl | member
            · exact checked
            · exact ih run member
      · rw [failed] at run
        cases run

theorem checkAccounts_reads (sorter : Sorter) (crypto : Crypto)
    (groups : List (AccountID × List Transaction)) :
    Reads AccountFailure
      (TxSetFrame.checkAccounts sorter crypto groups) := by
  induction groups with
  | nil => exact Reads.pure _
  | cons group groups ih =>
      refine (checkAccount_reads crypto 0 0 none _).bind ?_
      intro passed
      exact Reads.ite ih (Reads.pure _)

theorem TxSetFrame.checkValid_reads (sorter : Sorter) (crypto : Crypto)
    (set : TxSetFrame) (lclHash : Hash) :
    Reads AccountFailure (set.checkValid sorter crypto lclHash) := by
  refine getHeader_reads.bind ?_
  intro header
  refine Reads.ite (Reads.pure _) (Reads.ite (Reads.pure _) ?_)
  exact Reads.ite (Reads.pure _) (checkAccounts_reads sorter crypto _)

/-- In a set that passes its check every account has a settled list. -/
theorem settled_of_checkValid (sorter : Sorter) {set : TxSetFrame}
    {lclHash : Hash} (fit : BalancesFit ledger)
    (few : set.transactions.length < 2 ^ 31)
    (run : set.checkValid sorter crypto lclHash ledger = .ok true ledger)
    (accountID : AccountID) : SettledIn crypto ledger set accountID := by
  have groups := groupsOf_accountTxMap set.transactions
  have checked : TxSetFrame.checkAccounts sorter crypto
      (TxSetFrame.accountTxMap set.transactions) ledger = .ok true ledger := by
    have header : getHeader ledger = .ok ledger.header ledger := rfl
    unfold TxSetFrame.checkValid at run
    rw [run_bind, header] at run
    dsimp only at run
    split at run
    next => cases run
    next =>
      split at run
      next => cases run
      next =>
        split at run
        next => cases run
        next => exact run
  by_cases none : ofAccount accountID set.transactions = []
  · exact .of_nil none
  · have listed : (accountID, ofAccount accountID set.transactions) ∈
        TxSetFrame.accountTxMap set.transactions := by
      have found := groups.looked accountID
      rw [if_neg none] at found
      exact (Table.lookup_eq_some groups.ascending.nodup).mp found
    have each := checkAccounts_each sorter checked listed
    have perm := sorter.perm seqSorter (ofAccount accountID set.transactions)
    have sources : ∀ tx ∈ sorter.sort seqSorter
        (ofAccount accountID set.transactions),
        tx.sourceAccount = accountID :=
      fun tx member => (mem_ofAccount.mp (perm.subset member)).2
    have length : (ofAccount accountID set.transactions).length < 2 ^ 31 :=
      (List.length_filter_le _ _).trans_lt few
    have fees := totalFee_lt length
    rw [← totalFee_perm perm] at fees
    refine ⟨_, perm.symm, ?_⟩
    exact {
      sources
      sorted := sorter.sorted Transaction.seqNum _
      chained := by
        rcases chain_of_checkAccount sources (by simp) each with
          ⟨_, empty⟩ | ⟨account, loads, chain, funds⟩
        · exact .inl empty
        · have lower := (Loads.balance_le fit loads).1
          have upper := (Loads.balance_le fit loads).2
          have positive := totalFee_nonneg (sorter.sort seqSorter
            (ofAccount accountID set.transactions))
          unfold int64Max at upper
          rw [feeSum_eq le_rfl (by omega), zero_add,
            wrap64_eq (by omega) (by omega)] at funds
          exact .inr ⟨account, chain, loads, funds⟩ }

end Checked

/-! ## The fees of a checked set -/

section Closing

variable {crypto : Crypto} {ledger : LedgerState}

theorem Chain.consecutive {account : AccountEntry} {current : ℕ}
    {txs : List Transaction}
    (chain : Chain crypto ledger account current txs)
    (small : ∀ tx ∈ txs, (tx.seqNum : ℤ) ≤ int64Max)
    (start : (followed account current : ℤ) ≤ int64Max) :
    Consecutive (followed account current) txs := by
  induction chain with
  | nil => exact .nil
  | @cons current tx rest accepted later ih =>
      have sequence := accepted.follows
      have here := small tx List.mem_cons_self
      unfold int64Max at start here
      have follows : (followed account current + 1) % 2 ^ 64 =
          tx.seqNum := by
        unfold Transaction.badSeq at sequence
        simpa [followed] using sequence
      rw [Nat.mod_eq_of_lt (by omega)] at follows
      have last : followed account tx.seqNum = tx.seqNum :=
        if_neg (by omega)
      rw [last] at ih
      exact .cons follows.symm
        (ih (fun other member => small other (List.mem_cons_of_mem tx member))
          here)

theorem Settled.due {accountID : AccountID} {txs : List Transaction}
    (settled : Settled crypto ledger accountID txs) (valid : ledger.Valid)
    (small : ∀ tx ∈ txs, (tx.seqNum : ℤ) ≤ int64Max) :
    Due ledger accountID txs := by
  rcases settled.chained with none | ⟨account, chain, loads, funds⟩
  · exact .inl none
  · have found : ledger.accounts.find? accountID = some account := by
      have same := (valid.loadAccount accountID).symm.trans loads
      exact (EStateM.Result.ok.inj same).1
    have entry := AccountEntry.isValid_iff.mp
      (valid.accounts.found found).valid
    have reserve : 0 ≤ account.getMinimumBalance ledger.header :=
      Int.natCast_nonneg _
    exact .inr ⟨account, found, chain.consecutive small entry.seqNum,
      by omega⟩

/-- In the order of application the list of every account is settled. -/
theorem settled_sortForApply (sorter : Sorter) {set : TxSetFrame}
    {lclHash : Hash} (fit : BalancesFit ledger)
    (few : set.transactions.length < 2 ^ 31)
    (checked : set.checkValid sorter crypto lclHash ledger = .ok true ledger)
    (accountID : AccountID) :
    Settled crypto ledger accountID
      (ofAccount accountID (set.sortForApply sorter)) := by
  obtain ⟨txs, has, settled⟩ :=
    settled_of_checkValid sorter fit few checked accountID
  have perm := sortForApply_perm sorter set
  have same : ofAccount accountID (set.sortForApply sorter) = txs := by
    refine eq_of_strict ((ofAccount_perm perm accountID).trans has) ?_
      settled.strict
    rw [ofAccount_sortForApply]
    exact (sorter.sorted Transaction.seqNum set.transactions).filter _
  rw [same]
  exact settled

theorem nextLedger_valid (valid : ledger.Valid) (closeTime : ℕ)
    (last : ledger.header.ledgerSeq < int32Max) :
    (nextLedger ledger closeTime).Valid :=
  valid.withHeader le_rfl (Nat.succ_ne_zero _) last

end Closing

/-- Closing a ledger takes the fees of a set that was checked against the last
one in full, and every account is left at the number of its last
transaction. -/
theorem processFeesSeqNums_exact (sorter : Sorter) (crypto : Crypto)
    (ledger : LedgerState) (set : TxSetFrame) (lclHash : Hash)
    (closeTime : ℕ) (sound : ledger.Sound)
    (last : ledger.header.ledgerSeq < int32Max)
    (few : set.transactions.length < 2 ^ 31)
    (small : ∀ tx ∈ set.transactions, (tx.seqNum : ℤ) ≤ int64Max)
    (checked : set.checkValid sorter crypto lclHash ledger =
      .ok true ledger) :
    ∃ after, processFeesSeqNums (set.sortForApply sorter)
        (nextLedger ledger closeTime) =
          .ok ((set.sortForApply sorter).map (fun tx => (tx.fee : ℤ))) after ∧
      Charged set.transactions (nextLedger ledger closeTime) after ∧
      after.Sound ∧
      (∀ accountID a, after.accounts.find? accountID = some a →
        ∀ tx ∈ ofAccount accountID set.transactions,
          tx.seqNum ≤ a.seqNum) := by
  have valid := sound.valid
  have fit : BalancesFit ledger :=
    fun row member => (valid.accounts row member).most
  have perm := sortForApply_perm sorter set
  have due : ∀ accountID, Due (nextLedger ledger closeTime) accountID
      (ofAccount accountID (set.sortForApply sorter)) := by
    intro accountID
    have settled := settled_sortForApply sorter fit few checked accountID
    refine settled.due valid ?_
    intro tx member
    exact small tx (perm.subset (mem_ofAccount.mp member).1)
  obtain ⟨after, run, charged, kept⟩ :=
    processFeesSeqNums_run (nextLedger_valid valid closeTime last) sound.pool
      (sound.backed.trans_le sound.most)
      (fun tx member => small tx (perm.subset member)) due
  have total := charged.perm perm
  have fees := totalFee_nonneg set.transactions
  have pool := sound.pool
  refine ⟨after, run, total, ?_, ?_⟩
  · refine ⟨kept, ?_, ?_, ?_⟩
    · rw [total.header]
      show 0 ≤ ledger.header.feePool + totalFee set.transactions
      omega
    · rw [total.coins, total.header]
      exact sound.backed
    · rw [total.header]
      exact sound.most
  · intro accountID a found tx member
    rw [charged.accounts] at found
    obtain ⟨before, stored, same⟩ := Option.map_eq_some_iff.mp found
    have own := (ofAccount_perm perm accountID).symm.subset member
    rcases due accountID with none | ⟨other, stored', consecutive, _⟩
    · rw [none] at own
      cases own
    · rw [stored] at stored'
      cases stored'
      have some : ofAccount accountID (set.sortForApply sorter) ≠ [] :=
        List.ne_nil_of_mem own
      rw [← same, paid, if_neg some]
      exact consecutive.le tx own

/-- Two transactions of an account, which can pay for both. -/
def twoTransactions : TxSetFrame :=
  { previousLedgerHash := 7
    transactions := [inflationTransaction 2 5, inflationTransaction 1 6]
    contentsHash := 0 }

def roomyLedger : LedgerState :=
  { payerLedger with header := { payerLedger.header with maxTxSetSize := 9 } }

def accepts : EStateM.Result Failure LedgerState Bool → Bool
  | .ok passed _ => passed
  | .error _ _ => false

theorem checkValid_of_accepts {sorter : Sorter} {crypto : Crypto}
    {set : TxSetFrame} {lclHash : Hash} {ledger : LedgerState}
    (passed : accepts (set.checkValid sorter crypto lclHash ledger) = true) :
    set.checkValid sorter crypto lclHash ledger = .ok true ledger := by
  rcases (TxSetFrame.checkValid_reads sorter crypto set lclHash).cases ledger
    with ⟨result, run⟩ | ⟨reason, failed, _⟩
  · rw [run] at passed ⊢
    exact congrArg (fun result => EStateM.Result.ok result ledger) passed
  · rw [failed] at passed
    cases passed

theorem twoTransactions_checkValid :
    twoTransactions.checkValid Sorter.insertion trustingCrypto 7
      roomyLedger = .ok true roomyLedger :=
  checkValid_of_accepts (by decide +kernel)

theorem processFeesSeqNums_exact_two :
    ∃ after, processFeesSeqNums
        (twoTransactions.sortForApply Sorter.insertion)
        (nextLedger roomyLedger 9) = .ok [100, 100] after ∧
      after.header.feePool = 200 := by
  have sound : roomyLedger.Sound :=
    ⟨by decide +kernel, by decide, by decide +kernel, by decide⟩
  have applied : (twoTransactions.sortForApply Sorter.insertion).map
      (fun tx => (tx.fee : ℤ)) = [100, 100] := by
    decide +kernel
  obtain ⟨after, run, charged, -⟩ := processFeesSeqNums_exact
    Sorter.insertion trustingCrypto roomyLedger twoTransactions 7 9 sound
    (by decide) (by decide) (by decide) twoTransactions_checkValid
  refine ⟨after, ?_, ?_⟩
  · rw [run, applied]
  · rw [charged.header]
    decide

end StellarCore.Herder
