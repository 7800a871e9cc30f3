import StellarCore.Herder.ApplyOrder
import StellarCore.Transactions.TransactionChecks

/-!
# Trimmed sets

What `trimInvalid` leaves of the transactions of an account: a list in which
every transaction is valid after the one before it, and whose fees the account
can pay.
-/

namespace StellarCore.Herder

open StellarCore.Lib
open StellarCore.Transactions

/-! ## The transactions of one account -/

def totalFee (txs : List Transaction) : ℤ :=
  (txs.map (fun tx => (tx.fee : ℤ))).sum

@[simp] theorem totalFee_nil : totalFee [] = 0 :=
  rfl

@[simp] theorem totalFee_cons (tx : Transaction) (txs : List Transaction) :
    totalFee (tx :: txs) = tx.fee + totalFee txs := by
  simp [totalFee]

theorem totalFee_nonneg (txs : List Transaction) : 0 ≤ totalFee txs := by
  induction txs with
  | nil => exact le_rfl
  | cons tx txs ih =>
      rw [totalFee_cons]
      omega

theorem totalFee_le {few many : List Transaction}
    (sublist : few.Sublist many) : totalFee few ≤ totalFee many := by
  induction sublist with
  | slnil => exact le_rfl
  | cons tx _ ih =>
      rw [totalFee_cons]
      omega
  | cons_cons tx _ ih =>
      rw [totalFee_cons, totalFee_cons]
      omega

theorem totalFee_perm {first second : List Transaction}
    (perm : first.Perm second) : totalFee first = totalFee second :=
  (perm.map _).sum_eq

section Chains

variable {crypto : Crypto} {ledger : LedgerState} {account : AccountEntry}

variable (crypto ledger account) in
/-- Every transaction is valid after the one before it. -/
inductive Chain : ℕ → List Transaction → Prop
  | nil {current : ℕ} : Chain current []
  | cons {current : ℕ} {tx : Transaction} {rest : List Transaction}
      (accepted : Accepted crypto ledger tx current account)
      (later : Chain tx.seqNum rest) : Chain current (tx :: rest)

theorem Chain.take {current : ℕ} {first second : List Transaction}
    (chain : Chain crypto ledger account current (first ++ second)) :
    Chain crypto ledger account current first := by
  induction first generalizing current with
  | nil => exact .nil
  | cons tx first ih =>
      cases chain with
      | cons accepted later => exact .cons accepted (ih later)

/-- The number that the next one has to follow. -/
def followed (account : AccountEntry) (current : ℕ) : ℕ :=
  if current = 0 then account.seqNum else current

/-- In a sorted chain no two numbers are equal: the number of an account is
far below the number that wraps around. -/
theorem Chain.strict {current : ℕ} {txs : List Transaction}
    (chain : Chain crypto ledger account current txs)
    (valid : account.seqNum < 2 ^ 63)
    (sorted : txs.Pairwise (fun tx1 tx2 => tx1.seqNum ≤ tx2.seqNum))
    (after : ∀ tx ∈ txs, current ≤ tx.seqNum) (bound : current < 2 ^ 64) :
    txs.Pairwise (fun tx1 tx2 => tx1.seqNum < tx2.seqNum) ∧
      ∀ tx ∈ txs, followed account current < tx.seqNum := by
  induction chain with
  | nil =>
      refine ⟨List.Pairwise.nil, ?_⟩
      intro tx member
      cases member
  | @cons current tx rest accepted later ih =>
      have ⟨first, sortedRest⟩ := List.pairwise_cons.mp sorted
      have here := after tx List.mem_cons_self
      have follows : (followed account current + 1) % 2 ^ 64 = tx.seqNum := by
        have sequence := accepted.follows
        unfold Transaction.badSeq at sequence
        simpa [followed] using sequence
      have more : followed account current < tx.seqNum := by
        unfold followed at follows ⊢
        split at follows
        next zero =>
          rw [if_pos zero]
          omega
        next some =>
          rw [if_neg some]
          omega
      obtain ⟨strict, above⟩ := ih sortedRest first tx.seqNum_lt
      have positive : tx.seqNum ≠ 0 := by omega
      have last : followed account tx.seqNum = tx.seqNum := if_neg positive
      rw [last] at above
      refine ⟨List.pairwise_cons.mpr ⟨above, strict⟩, ?_⟩
      intro other member
      rcases List.mem_cons.mp member with rfl | member
      · exact more
      · exact more.trans (above other member)

end Chains

/-- The transactions of an account as a valid set may hold them. -/
structure Settled (crypto : Crypto) (ledger : LedgerState)
    (accountID : AccountID) (txs : List Transaction) : Prop where
  sources : ∀ tx ∈ txs, tx.sourceAccount = accountID
  sorted : txs.Pairwise (fun tx1 tx2 => tx1.seqNum ≤ tx2.seqNum)
  chained : txs = [] ∨ ∃ account, Chain crypto ledger account 0 txs ∧
    Loads ledger accountID account ∧
    account.getMinimumBalance ledger.header ≤
      account.balance - totalFee txs

theorem Settled.nil {crypto : Crypto} {ledger : LedgerState}
    {accountID : AccountID} : Settled crypto ledger accountID [] where
  sources _ member := by cases member
  sorted := List.Pairwise.nil
  chained := .inl rfl

theorem Settled.take {crypto : Crypto} {ledger : LedgerState}
    {accountID : AccountID} {first second : List Transaction}
    (settled : Settled crypto ledger accountID (first ++ second)) :
    Settled crypto ledger accountID first where
  sources tx member := settled.sources tx (List.mem_append_left _ member)
  sorted := (List.pairwise_append.mp settled.sorted).1
  chained := by
    rcases settled.chained with none | ⟨account, chain, loads, funds⟩
    · exact .inl (List.append_eq_nil_iff.mp none).1
    · refine .inr ⟨account, chain.take, loads, ?_⟩
      have fewer := totalFee_le (List.sublist_append_left first second)
      omega

theorem Settled.strict {crypto : Crypto} {ledger : LedgerState}
    {accountID : AccountID} {txs : List Transaction}
    (settled : Settled crypto ledger accountID txs) :
    txs.Pairwise (fun tx1 tx2 => tx1.seqNum < tx2.seqNum) := by
  rcases settled.chained with rfl | ⟨account, chain, loads, _⟩
  · exact List.Pairwise.nil
  · have valid := AccountEntry.isValid_iff.mp loads.isValid
    have most := valid.seqNum
    unfold int64Max at most
    exact (chain.strict (by omega) settled.sorted
      (fun _ _ => Nat.zero_le _) (by norm_num)).1

/-! ## Removal -/

theorem ofAccount_erase_of_eq {accountID : AccountID} {tx : Transaction}
    (same : tx.sourceAccount = accountID) (txs : List Transaction) :
    ofAccount accountID (txs.erase tx) = (ofAccount accountID txs).erase tx := by
  induction txs with
  | nil => rfl
  | cons other txs ih =>
      by_cases found : other = tx
      · subst found
        rw [List.erase_cons_head, ofAccount_cons_of_eq same,
          List.erase_cons_head]
      · rw [List.erase_cons_tail (by simpa using found)]
        by_cases here : other.sourceAccount = accountID
        · rw [ofAccount_cons_of_eq here, ofAccount_cons_of_eq here,
            List.erase_cons_tail (by simpa using found), ih]
        · rw [ofAccount_cons_of_ne here, ofAccount_cons_of_ne here, ih]

theorem ofAccount_erase_of_ne {accountID : AccountID} {tx : Transaction}
    (differs : tx.sourceAccount ≠ accountID) (txs : List Transaction) :
    ofAccount accountID (txs.erase tx) = ofAccount accountID txs := by
  induction txs with
  | nil => rfl
  | cons other txs ih =>
      by_cases found : other = tx
      · subst found
        rw [List.erase_cons_head, ofAccount_cons_of_ne differs]
      · rw [List.erase_cons_tail (by simpa using found)]
        by_cases here : other.sourceAccount = accountID
        · rw [ofAccount_cons_of_eq here, ofAccount_cons_of_eq here, ih]
        · rw [ofAccount_cons_of_ne here, ofAccount_cons_of_ne here, ih]

/-- Only transactions of the account were removed from the set. -/
structure Removes (accountID : AccountID) (before after : TxSetFrame) :
    Prop where
  sublist : after.transactions.Sublist before.transactions
  others : ∀ other, other ≠ accountID →
    ofAccount other after.transactions = ofAccount other before.transactions
  previous : after.previousLedgerHash = before.previousLedgerHash

theorem Removes.refl (accountID : AccountID) (set : TxSetFrame) :
    Removes accountID set set where
  sublist := List.Sublist.refl _
  others _ _ := rfl
  previous := rfl

theorem Removes.trans {accountID : AccountID} {first second third : TxSetFrame}
    (one : Removes accountID first second)
    (two : Removes accountID second third) :
    Removes accountID first third where
  sublist := two.sublist.trans one.sublist
  others other differs :=
    (two.others other differs).trans (one.others other differs)
  previous := two.previous.trans one.previous

theorem removes_removeTx {accountID : AccountID} {tx : Transaction}
    (source : tx.sourceAccount = accountID) (set : TxSetFrame) :
    Removes accountID set (set.removeTx tx) where
  sublist := List.erase_sublist
  others _ differs :=
    ofAccount_erase_of_ne (fun same => differs (same.symm.trans source)) _
  previous := rfl

/-- The account has these transactions in the set. -/
def Has (set : TxSetFrame) (accountID : AccountID)
    (txs : List Transaction) : Prop :=
  (ofAccount accountID set.transactions).Perm txs

theorem Has.remove {set : TxSetFrame} {accountID : AccountID}
    {tx : Transaction} {before rest : List Transaction}
    (has : Has set accountID (before ++ tx :: rest))
    (source : tx.sourceAccount = accountID) :
    Has (set.removeTx tx) accountID (before ++ rest) := by
  unfold Has TxSetFrame.removeTx at *
  rw [ofAccount_erase_of_eq source]
  have moved := (has.trans List.perm_middle).erase tx
  rwa [List.erase_cons_head] at moved

/-! ## The loop over the transactions of an account -/

/-- The sum that `totFee` is for the transactions. -/
def feeSum (totFee : ℤ) (txs : List Transaction) : ℤ :=
  txs.foldl (fun totFee tx => wrap64 (totFee + tx.fee)) totFee

theorem wrap64_eq {value : ℤ} (lower : -2 ^ 63 ≤ value)
    (upper : value < 2 ^ 63) : wrap64 value = value := by
  unfold wrap64
  apply Int.bmod_eq_of_le
  · omega
  · omega

theorem feeSum_eq {totFee : ℤ} {txs : List Transaction}
    (positive : 0 ≤ totFee) (bound : totFee + totalFee txs < 2 ^ 63) :
    feeSum totFee txs = totFee + totalFee txs := by
  induction txs generalizing totFee with
  | nil => exact (add_zero totFee).symm
  | cons tx txs ih =>
      have rest := totalFee_nonneg txs
      rw [totalFee_cons] at bound
      have first : wrap64 (totFee + tx.fee) = totFee + tx.fee :=
        wrap64_eq (by omega) (by omega)
      have step : feeSum totFee (tx :: txs) =
          feeSum (wrap64 (totFee + tx.fee)) txs := rfl
      rw [step, first, ih (by omega) (by omega), totalFee_cons]
      omega

/-- What the loop has kept. -/
structure Kept (crypto : Crypto) (ledger : LedgerState)
    (accountID : AccountID) (txs : List Transaction)
    (before after : TxSetFrame.TrimState) (kept : List Transaction) :
    Prop where
  sublist : kept.Sublist txs
  removes : Removes accountID before.set after.set
  has : ∀ earlier, Has before.set accountID (earlier ++ txs) →
    Has after.set accountID (earlier ++ kept)
  fees : after.totFee = feeSum before.totFee kept
  last : (kept = [] ∧ after.lastTx = before.lastTx) ∨
    ∃ account, after.lastTx = some account ∧
      Loads ledger accountID account ∧
      Chain crypto ledger account before.lastSeq kept

section Loop

variable (crypto : Crypto) {ledger : LedgerState} {accountID : AccountID}

theorem trimLoop_kept {txs : List Transaction}
    (sources : ∀ tx ∈ txs, tx.sourceAccount = accountID)
    (state : TxSetFrame.TrimState) :
    Ends (TxSetFrame.trimLoop crypto txs state) ledger
      (fun after finish => finish = ledger ∧
        ∃ kept, Kept crypto ledger accountID txs state after kept)
      (fun reason finish => AccountFailure reason ∧ finish = ledger) := by
  induction txs generalizing state with
  | nil =>
      refine ⟨rfl, [], ?_⟩
      exact {
        sublist := List.Sublist.refl _
        removes := Removes.refl _ _
        has := fun _ has => has
        fees := rfl
        last := .inl ⟨rfl, rfl⟩ }
  | cons tx rest ih =>
      have source := sources tx List.mem_cons_self
      have later : ∀ other ∈ rest, other.sourceAccount = accountID :=
        fun other member => sources other (List.mem_cons_of_mem tx member)
      rw [TxSetFrame.trimLoop, Ends.bind_iff]
      rcases (checkValid_reads crypto tx state.lastSeq).cases ledger with
        ⟨validity, checked⟩ | ⟨reason, failed, known⟩
      · rw [Ends.run_iff checked, Ends.ite_iff]
        constructor
        · -- the transaction is removed
          intro _
          refine (ih later (state.remove tx)).mono ?_ (fun _ _ same => same)
          rintro after finish ⟨same, kept, spec⟩
          refine ⟨same, kept, ?_⟩
          exact {
            sublist := spec.sublist.cons tx
            removes := (removes_removeTx source state.set).trans spec.removes
            has := fun earlier has => spec.has earlier (has.remove source)
            fees := spec.fees
            last := spec.last }
        · intro passed
          have succeeded : validity.code = .txSuccess := not_not.mp passed
          obtain ⟨account, accepted⟩ :=
            accepted_of_checkValid checked succeeded
          have signing : validity.signingAccount = some account := by
            obtain ⟨validity', checked', _, signing⟩ := accepted.checked
            have same := checked.symm.trans checked'
            cases same
            exact signing
          have loads : Loads ledger accountID account :=
            source ▸ accepted.loads
          refine (ih later _).mono ?_ (fun _ _ same => same)
          rintro after finish ⟨same, kept, spec⟩
          refine ⟨same, tx :: kept, ?_⟩
          have extended : ∀ earlier,
              Has state.set accountID (earlier ++ tx :: rest) →
                Has after.set accountID (earlier ++ tx :: kept) := by
            intro earlier has
            have moved := spec.has (earlier ++ [tx])
              (by rw [List.append_assoc]; exact has)
            rwa [List.append_assoc] at moved
          refine {
            sublist := spec.sublist.cons_cons tx
            removes := spec.removes
            has := extended
            fees := spec.fees
            last := ?_ }
          rcases spec.last with ⟨rfl, last⟩ | ⟨other, last, loads', chain⟩
          · exact .inr ⟨account, last.trans signing, loads,
              .cons accepted .nil⟩
          · rw [loads'.unique loads] at last chain
            exact .inr ⟨account, last, loads, .cons accepted chain⟩
      · exact (Ends.run_error_iff failed).mpr ⟨known, rfl⟩

/-- Removing all transactions of the account, of which some are gone. -/
theorem removeAll_has {txs kept : List Transaction}
    (sources : ∀ tx ∈ txs, tx.sourceAccount = accountID)
    (sublist : kept.Sublist txs) (state : TxSetFrame.TrimState)
    (has : Has state.set accountID kept) :
    Removes accountID state.set
        (txs.foldl TxSetFrame.TrimState.remove state).set ∧
      Has (txs.foldl TxSetFrame.TrimState.remove state).set accountID [] := by
  induction txs generalizing kept state with
  | nil =>
      rw [List.sublist_nil.mp sublist] at has
      exact ⟨Removes.refl _ _, has⟩
  | cons tx rest ih =>
      have source := sources tx List.mem_cons_self
      have later : ∀ other ∈ rest, other.sourceAccount = accountID :=
        fun other member => sources other (List.mem_cons_of_mem tx member)
      have first := removes_removeTx source state.set
      rw [List.foldl_cons]
      have left : Has (state.set.removeTx tx) accountID (kept.erase tx) := by
        unfold Has TxSetFrame.removeTx at *
        rw [ofAccount_erase_of_eq source]
        exact has.erase tx
      have fewer : (kept.erase tx).Sublist rest := by
        have erased := sublist.erase tx
        rwa [List.erase_cons_head] at erased
      obtain ⟨removes, none⟩ :=
        ih later fewer (state.remove tx) left
      exact ⟨first.trans removes, none⟩

/-- The transactions of the account are settled. -/
def SettledIn (crypto : Crypto) (ledger : LedgerState) (set : TxSetFrame)
    (accountID : AccountID) : Prop :=
  ∃ txs, Has set accountID txs ∧ Settled crypto ledger accountID txs

/-- The balances of the ledger are 64-bit numbers. -/
def BalancesFit (ledger : LedgerState) : Prop :=
  ledger.accounts.All (fun _ account => account.balance ≤ int64Max)

theorem Loads.balance_le {account : AccountEntry}
    (fit : BalancesFit ledger)
    (loads : Loads ledger accountID account) :
    0 ≤ account.balance ∧ account.balance ≤ int64Max := by
  have valid := AccountEntry.isValid_iff.mp (Loads.isValid loads)
  refine ⟨valid.balance, ?_⟩
  have ends : Ends (loadAccount accountID) ledger
      (fun loaded _ => ∀ account, loaded = some account →
        account.balance ≤ int64Max) (fun _ _ => True) := by
    rw [loadAccount_ends]
    refine ⟨?_, ?_⟩
    · intro _ _ impossible
      cases impossible
    · intro row found
      refine ⟨?_, fun _ => trivial⟩
      intro _ _ same
      cases same
      exact fit (accountID, row) (Table.find?_eq_some.mp found)
  exact ends.of_ok loads account rfl

theorem trimAccount_settled {txs : List Transaction}
    (sources : ∀ tx ∈ txs, tx.sourceAccount = accountID)
    (sorted : txs.Pairwise (fun tx1 tx2 => tx1.seqNum ≤ tx2.seqNum))
    (fit : BalancesFit ledger) (fees : totalFee txs < 2 ^ 63)
    (state : TxSetFrame.TrimState) (has : Has state.set accountID txs) :
    Ends (TxSetFrame.trimAccount crypto txs state) ledger
      (fun after finish => finish = ledger ∧
        Removes accountID state.set after.set ∧
        SettledIn crypto ledger after.set accountID)
      (fun reason finish => AccountFailure reason ∧ finish = ledger) := by
  unfold TxSetFrame.trimAccount
  rw [Ends.bind_iff]
  refine (trimLoop_kept crypto sources _).mono ?_ (fun _ _ same => same)
  rintro after finish ⟨rfl, kept, spec⟩
  have left : Has after.set accountID kept := spec.has [] has
  have lower := totalFee_nonneg kept
  have upper := totalFee_le spec.sublist
  have sum : after.totFee = totalFee kept := by
    rw [spec.fees, feeSum_eq le_rfl (by omega)]
    exact zero_add _
  rcases spec.last with ⟨rfl, last⟩ | ⟨account, last, loads, chain⟩
  · rw [last]
    exact ⟨rfl, spec.removes, [], left, Settled.nil⟩
  · rw [last]
    dsimp only
    have ⟨positive, most⟩ := Loads.balance_le fit loads
    unfold int64Max at most
    rw [Ends.bind_iff, getHeader_ends, sum,
      wrap64_eq (by omega) (by omega), Ends.ite_iff]
    constructor
    · intro _
      obtain ⟨removes, none⟩ :=
        removeAll_has sources spec.sublist after left
      exact ⟨rfl, spec.removes.trans removes, [], none, Settled.nil⟩
    · intro enough
      refine ⟨rfl, spec.removes, kept, left, ?_⟩
      exact {
        sources := fun tx member => sources tx (spec.sublist.subset member)
        sorted := sorted.sublist spec.sublist
        chained := .inr ⟨account, chain, loads, not_lt.mp enough⟩ }

end Loop

end StellarCore.Herder
