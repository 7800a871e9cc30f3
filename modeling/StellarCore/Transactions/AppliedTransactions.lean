import Mathlib.Data.List.Sort
import StellarCore.Transactions.InflationSteps
import StellarCore.Transactions.OptionSteps
import StellarCore.Transactions.SubEntrySteps
import StellarCore.Transactions.TransactionApply
import StellarCore.Transactions.TransactionChecks

/-!
# Transactions that are applied one after the other

Of the operations these are the ones that neither pay nor trade: they create,
change and delete accounts, trust lines and data entries, set options and run
inflation.  Whatever such transactions are and whether they succeed, the
process does not end, and coins are made by inflation only.
-/

namespace StellarCore.Transactions

open StellarCore.Lib

variable {ledger : LedgerState}

/-- Wherever it is started, the program keeps what a ledger satisfies, or it
ends with such a failure. -/
def Applies {α : Type} (fails : Failure → Prop) (program : Ledger α) :
    Prop :=
  ∀ ledger : LedgerState, ledger.Running →
    Ends program ledger (fun _ after => Applied ledger after)
      (fun failure _ => fails failure)

namespace Applies

variable {α β : Type} {fails : Failure → Prop} {program : Ledger α}

theorem pure (value : α) : Applies fails (Pure.pure value : Ledger α) :=
  fun _ running => .refl running

theorem bind {next : α → Ledger β} (first : Applies fails program)
    (later : ∀ value, Applies fails (next value)) :
    Applies fails (program >>= next) := by
  intro ledger running
  rw [Ends.bind_iff]
  refine (first ledger running).mono ?_ (fun _ _ failed => failed)
  intro value middle reached
  exact (later value middle reached.running).mono
    (fun _ _ further => reached.trans further) (fun _ _ failed => failed)

end Applies

/-- An exception, which does not end the process. -/
def Raised (failure : Failure) : Prop :=
  ∃ what, failure = .runtimeError what

/-! ## Operations -/

/-- The operations that neither pay nor trade; a limit is a number of 64
bits, and the weight of a signer a byte. -/
def OperationBody.offMarket : OperationBody → Bool
  | .createAccount _ => true
  | .setOptions op => op.byteWeight
  | .changeTrust op => op.limit ≤ int64Max
  | .allowTrust _ => true
  | .accountMerge _ => true
  | .inflation => true
  | .manageData _ => true
  | _ => false

section Operations

variable {source : AccountEntry} (crypto : Crypto)
  (computePrice : Price → ℚ)

/-- What `doApply` of an operation returns is packed in a result. -/
theorem applies_packed {α : Type} {program : Ledger α}
    {pack : α → OperationResult} {failed : Failure → LedgerState → Prop}
    (ends : Ends program ledger (fun _ after => Applied ledger after) failed)
    (raised : ∀ failure after, failed failure after → Raised failure) :
    Ends (program >>= fun result => pure (pack result)) ledger
      (fun _ after => Applied ledger after)
      (fun failure _ => Raised failure) := by
  rw [Ends.bind_iff]
  exact ends.mono (fun _ _ applied => applied) raised

theorem Concludes.applies {α : Type} {program : Ledger α}
    {success : α → Prop} {failed : Failure → LedgerState → Prop}
    (running : ledger.Running)
    (ends : Ends program ledger
      (fun result after => Concludes (success result) ledger after) failed) :
    Ends program ledger (fun _ after => Applied ledger after) failed :=
  ends.mono (fun _ _ concludes => concludes.outcome running)
    (fun _ _ failed => failed)

attribute [local irreducible] inflationDoApply

theorem OperationBody.doApply_applies (running : ledger.Running)
    (found : ledger.accounts.find? source.accountID = some source)
    {body : OperationBody} (quiet : body.offMarket = true)
    (checked : body.doCheckValid source.accountID 9 = none) :
    Ends (body.doApply computePrice source) ledger
      (fun _ after => Applied ledger after)
      (fun failure _ => Raised failure) := by
  have never : ∀ (failure : Failure) (after : LedgerState),
      False → Raised failure := fun _ _ impossible => impossible.elim
  cases body with
  | createAccount op =>
      have passed := Option.map_eq_none_iff.mp checked
      exact applies_packed (Concludes.applies running
        (CreateAccountOp.doApply_ends running found passed)) never
  | setOptions op =>
      have passed := Option.map_eq_none_iff.mp checked
      exact applies_packed (Concludes.applies running
        (SetOptionsOp.doApply_ends running found passed quiet))
          (fun _ _ raised => raised)
  | changeTrust op =>
      have passed := Option.map_eq_none_iff.mp checked
      exact applies_packed (Concludes.applies running
        (ChangeTrustOp.doApply_ends running found passed
          (of_decide_eq_true quiet))) (fun _ _ raised => raised)
  | allowTrust op =>
      have passed := Option.map_eq_none_iff.mp checked
      exact applies_packed (Concludes.applies running
        (AllowTrustOp.doApply_ends running passed)) never
  | accountMerge destination =>
      have passed := Option.map_eq_none_iff.mp checked
      exact applies_packed (Concludes.applies running
        (mergeDoApply_ends running found passed)) never
  | inflation =>
      exact applies_packed (inflationDoApply_ends running) never
  | manageData op =>
      have passed := Option.map_eq_none_iff.mp checked
      exact applies_packed (Concludes.applies running
        (ManageDataOp.doApply_ends running found passed))
          (fun _ _ raised => raised)
  | _ => cases quiet

/-- The source of an operation that passes its check is the account that is
stored, and its body passes too. -/
def Passes (ledger : LedgerState) (op : Operation)
    (checked : Option OperationResult × AccountEntry × SignatureChecker) :
    Prop :=
  checked.1 = none →
    ledger.accounts.find? checked.2.1.accountID = some checked.2.1 ∧
      op.body.doCheckValid checked.2.1.accountID 9 = none

theorem operation_checkValid_passes (running : ledger.Running)
    (op : Operation) (tx : Transaction) (checker : SignatureChecker) :
    Ends (op.checkValid crypto tx checker true) ledger
      (fun checked after => after = ledger ∧ Passes ledger op checked)
      (fun _ _ => False) := by
  unfold Operation.checkValid
  rw [Ends.bind_iff, getHeader_ends, Ends.bind_iff]
  refine .of_run (running.valid.loadAccount _) ?_
  cases found : ledger.accounts.find? (op.getSourceID tx) with
  | none => exact ⟨rfl, fun impossible => by cases impossible⟩
  | some account =>
      have keyed := (running.stored found).keyed
      rw [Ends.ite_iff]
      refine ⟨fun absent => by simp at absent, fun _ => ?_⟩
      rw [Ends.ite_iff]
      refine ⟨fun _ => ⟨rfl, fun impossible => by cases impossible⟩,
        fun _ => ⟨rfl, fun passed => ?_⟩⟩
      rw [running.version] at passed
      show ledger.accounts.find? account.accountID = some account ∧
        op.body.doCheckValid account.accountID 9 = none
      rw [keyed]
      exact ⟨found, passed⟩

theorem Operation.apply_applies {op : Operation}
    (quiet : op.body.offMarket = true) (tx : Transaction)
    (checker : SignatureChecker) :
    Applies Raised (op.apply crypto computePrice tx checker) := by
  intro ledger running
  unfold Operation.apply
  rw [Ends.bind_iff]
  refine (operation_checkValid_passes crypto running op tx checker).mono ?_
    (fun _ _ impossible => impossible.elim)
  rintro ⟨failure, source, checker⟩ _ ⟨rfl, passes⟩
  cases failure with
  | some result => exact .refl running
  | none =>
      obtain ⟨found, checked⟩ := passes rfl
      simp only
      rw [Ends.bind_iff]
      exact OperationBody.doApply_applies computePrice running found quiet
        checked

end Operations

/-! ## One-time signers -/

section Signers

variable {account : AccountEntry} {signerKey : SignerKey}

def AccountEntry.isSigner (account : AccountEntry) (signerKey : SignerKey) :
    Prop :=
  account.signers.any (fun signer => signer.key = signerKey) = true

/-- The account without one of its signers. -/
def AccountEntry.without (account : AccountEntry) (signerKey : SignerKey) :
    AccountEntry :=
  { account with
    numSubEntries := account.numSubEntries - 1
    signers := account.signers.eraseP
      (fun signer => signer.key = signerKey) }

theorem length_without (listed : account.isSigner signerKey) :
    (account.without signerKey).signers.length + 1 =
      account.signers.length := by
  obtain ⟨signer, member, same⟩ := List.any_eq_true.mp listed
  have erased : (account.without signerKey).signers.length =
      account.signers.length - 1 :=
    List.length_eraseP_of_mem member same
  have positive := List.length_pos_of_mem member
  omega

/-- The signers of a valid account are in order already. -/
theorem normalize_eq (valid : account.isValid = true) :
    account.normalize = account := by
  have trans : IsTrans Signer (fun s1 s2 => s1.key < s2.key) :=
    ⟨fun _ _ _ => lt_trans⟩
  have ordered := List.isChain_iff_pairwise.mp
    (AccountEntry.isValid_iff.mp valid).ordered
  have sorted : account.signers.insertionSort
      (fun s1 s2 => s1.key ≤ s2.key) = account.signers :=
    (ordered.imp (fun less => le_of_lt less)).insertionSort_eq
  unfold AccountEntry.normalize
  rw [sorted]

theorem without_isValid (valid : account.isValid = true) :
    (account.without signerKey).isValid = true := by
  have trans : IsTrans Signer (fun s1 s2 => s1.key < s2.key) :=
    ⟨fun _ _ _ => lt_trans⟩
  have holds := AccountEntry.isValid_iff.mp valid
  have less : (account.without signerKey).signers.Sublist account.signers :=
    List.eraseP_sublist
  rw [AccountEntry.isValid_iff]
  exact { holds with
    ordered := List.isChain_iff_pairwise.mpr
      ((List.isChain_iff_pairwise.mp holds.ordered).sublist less)
    numSubEntries := (Nat.sub_le _ _).trans holds.numSubEntries
    weights := fun signer member =>
      holds.weights signer (less.subset member) }

/-- The account that is left if one of the keys is a signer. -/
def LosesSigner (account : AccountEntry) (changed : Option AccountEntry) :
    Prop :=
  ∀ a, changed = some a →
    ∃ signerKey, account.isSigner signerKey ∧ a = account.without signerKey

theorem losesSigner_none : LosesSigner account none := by
  intro a impossible
  cases impossible

attribute [local irreducible] AccountEntry.addNumEntries

theorem removeAccountSigner_ends (valid : account.isValid = true)
    (counted : account.signers.length ≤ account.numSubEntries) :
    Ends (removeAccountSigner account signerKey) ledger
      (fun changed after => after = ledger ∧ LosesSigner account changed)
      (fun _ _ => False) := by
  unfold removeAccountSigner
  rw [Ends.ite_iff]
  refine ⟨fun listed => ?_, fun _ => ⟨rfl, losesSigner_none⟩⟩
  have positive := length_without listed
  rw [Ends.bind_iff]
  refine .of_run (AccountEntry.addNumEntries_pred valid (by omega)) ?_
  refine ⟨rfl, fun a same => ?_⟩
  cases same
  exact ⟨signerKey, listed, rfl⟩

theorem removeFirstSigner_ends (valid : account.isValid = true)
    (counted : account.signers.length ≤ account.numSubEntries)
    (keys : List SignerKey) :
    Ends (removeFirstSigner account keys) ledger
      (fun changed after => after = ledger ∧ LosesSigner account changed)
      (fun _ _ => False) := by
  induction keys with
  | nil => exact ⟨rfl, losesSigner_none⟩
  | cons signerKey rest ih =>
      unfold removeFirstSigner
      rw [Ends.bind_iff]
      refine (removeAccountSigner_ends valid counted).mono ?_
        (fun _ _ impossible => impossible)
      rintro changed _ ⟨rfl, loses⟩
      cases changed with
      | none => exact ih
      | some a => exact ⟨rfl, loses⟩

/-- A signer is a sub-entry of its account. -/
theorem LedgerState.Valid.signers_le (valid : ledger.Valid)
    {id : AccountID} (found : ledger.accounts.find? id = some account) :
    account.signers.length ≤ account.numSubEntries := by
  have counted := valid.counted.found found
  have nonneg := ledger.owned_nonneg id
  omega

theorem LedgerState.Running.withoutSigner (running : ledger.Running)
    (found : ledger.accounts.find? account.accountID = some account)
    (listed : account.isSigner signerKey) :
    Applied ledger
      (ledger.putAccount (account.without signerKey)) := by
  have stored := running.stored found
  have counted := running.valid.counted.found found
  have few := running.valid.signers_le found
  have less := length_without listed
  have numSubEntries : (account.without signerKey).numSubEntries + 1 =
      account.numSubEntries := by
    show account.numSubEntries - 1 + 1 = account.numSubEntries
    omega
  have valid : (ledger.putAccount (account.without signerKey)).Valid := by
    refine running.valid.putAccount (without_isValid stored.valid)
      stored.most (fun _ _ => rfl) ?_
    show ((account.without signerKey).numSubEntries : ℤ) + 0 =
      (account.without signerKey).signers.length +
        ledger.owned account.accountID
    omega
  have row : ledger.accounts.find? (account.without signerKey).accountID =
      some account := found
  exact .of_account running valid row rfl rfl rfl rfl

theorem removeUsedOneTimeSignerKeysOf_applies {fails : Failure → Prop}
    (accountID : AccountID) (keys : List SignerKey) :
    Applies fails (removeUsedOneTimeSignerKeysOf accountID keys) := by
  intro ledger running
  unfold removeUsedOneTimeSignerKeysOf
  rw [Ends.bind_iff]
  refine .of_run (running.valid.loadAccount accountID) ?_
  cases found : ledger.accounts.find? accountID with
  | none => exact .refl running
  | some account =>
      have stored := running.stored found
      simp only
      rw [Ends.bind_iff]
      refine (removeFirstSigner_ends stored.valid
        (running.valid.signers_le found) keys).mono ?_
          (fun _ _ impossible => impossible.elim)
      rintro changed middle ⟨rfl, loses⟩
      cases changed with
      | none => exact .refl running
      | some a =>
          obtain ⟨signerKey, listed, rfl⟩ := loses a rfl
          have storable := @without_isValid account signerKey
            stored.valid
          have row := stored.keyed.symm ▸ found
          have present : middle.accounts.contains
              (account.without signerKey).accountID = true :=
            Table.contains_eq_true.mpr ⟨account, row⟩
          simp only
          rw [normalize_eq storable, Ends.bind_iff]
          exact .of_run (running.valid.storeChangeAccount storable present)
            (running.withoutSigner row listed)

theorem removeUsedOneTimeSignerKeys_applies {fails : Failure → Prop}
    (used : List (AccountID × List SignerKey)) :
    Applies fails (removeUsedOneTimeSignerKeys used) := by
  induction used with
  | nil => exact .pure ()
  | cons row rest ih =>
      exact (removeUsedOneTimeSignerKeysOf_applies row.1 row.2).bind
        (fun _ => ih)

end Signers

/-! ## Transactions -/

namespace Transaction

variable (crypto : Crypto) (computePrice : Price → ℚ) (tx : Transaction)

/-- No operation of the transaction pays or trades. -/
def offMarket (tx : Transaction) : Bool :=
  tx.operations.all (fun op => op.body.offMarket)

theorem applyOperations_applies {operations : List Operation}
    (quiet : ∀ op ∈ operations, op.body.offMarket = true)
    (checker : SignatureChecker) :
    Applies Raised
      (tx.applyOperations crypto computePrice checker operations) := by
  induction operations generalizing checker with
  | nil => exact .pure _
  | cons op rest ih =>
      have first := quiet op List.mem_cons_self
      have others : ∀ op ∈ rest, op.body.offMarket = true :=
        fun op member => quiet op (List.mem_cons_of_mem _ member)
      refine (Operation.apply_applies crypto computePrice first tx
        checker).bind ?_
      rintro ⟨result, checker⟩
      refine (ih others checker).bind ?_
      rintro ⟨results, checker⟩
      exact .pure _

theorem commonValid_kept (valid : ledger.Valid)
    (checker : SignatureChecker) (applying : Bool) (current : ℕ) :
    Ends (tx.commonValid crypto checker applying current) ledger
      (fun _ after => after = ledger) (fun _ _ => False) := by
  unfold commonValid
  rw [Ends.bind_iff, getHeader_ends, Ends.ite_iff]
  refine ⟨fun _ => rfl, fun _ => ?_⟩
  cases tx.outsideTimeBounds ledger.header.closeTime with
  | some code => exact rfl
  | none =>
      simp only
      rw [Ends.ite_iff]
      refine ⟨fun _ => rfl, fun _ => ?_⟩
      rw [Ends.bind_iff]
      refine .of_run (valid.loadAccount tx.sourceAccount) ?_
      cases ledger.accounts.find? tx.sourceAccount with
      | none => exact rfl
      | some account =>
          simp only
          rw [Ends.ite_iff]
          refine ⟨fun _ => rfl, fun _ => ?_⟩
          rw [Ends.ite_iff]
          refine ⟨fun _ => rfl, fun _ => ?_⟩
          rw [Ends.ite_iff]
          exact ⟨fun _ => rfl, fun _ => rfl⟩

/-- What the operations did is kept or put back as a whole. -/
theorem finish_applies {before after : LedgerState}
    (running : before.Running) (done : Applied before after)
    (results : List OperationResult) (checker : SignatureChecker) :
    Ends (finish before results checker) after
      (fun _ last => Applied before last) (fun failure _ => Raised failure)
      := by
  have back : Applied before before := .refl running
  unfold finish
  rw [Ends.ite_iff]
  refine ⟨fun _ => ?_, fun _ => back⟩
  rw [Ends.ite_iff]
  refine ⟨fun _ => back, fun _ => ?_⟩
  rw [Ends.bind_iff]
  exact (removeUsedOneTimeSignerKeys_applies checker.usedOneTimeSignerKeys
    after done.running).mono (fun _ _ further => done.trans further)
      (fun _ _ failed => failed)

theorem apply_applies (quiet : tx.offMarket = true) :
    Applies Raised (tx.apply crypto computePrice) := by
  intro ledger running
  have operations : ∀ op ∈ tx.operations, op.body.offMarket = true :=
    List.all_eq_true.mp quiet
  unfold apply
  rw [Ends.bind_iff, getHeader_ends, Ends.bind_iff]
  refine (commonValid_kept crypto tx running.valid _ true 0).mono ?_
    (fun _ _ impossible => impossible.elim)
  rintro validity _ rfl
  rw [Ends.ite_iff]
  refine ⟨fun _ => .refl running, fun _ => ?_⟩
  rw [Ends.bind_iff, Ends.get_iff, Ends.bind_iff]
  refine (applyOperations_applies crypto computePrice tx operations
    validity.checker _ running).mono ?_ (fun _ _ raised => raised)
  rintro ⟨results, checker⟩ after done
  exact finish_applies running done results checker

theorem applyCaught_applies {fails : Failure → Prop}
    (quiet : tx.offMarket = true) :
    Applies fails (tx.applyCaught crypto computePrice) := by
  intro ledger running
  have ends := apply_applies crypto computePrice tx quiet ledger running
  unfold Ends applyCaught
  cases result : tx.apply crypto computePrice ledger with
  | ok value after => exact ends.of_ok result
  | error failure after =>
      obtain ⟨what, rfl⟩ := ends.of_error result
      exact .refl running

end Transaction

theorem applyTransactions_applies (crypto : Crypto)
    (computePrice : Price → ℚ) {txs : List Transaction}
    (quiet : ∀ tx ∈ txs, tx.offMarket = true) (running : ledger.Running) :
    ∃ results after,
      applyTransactions crypto computePrice txs ledger = .ok results after ∧
        Applied ledger after := by
  have applies : Applies (fun _ => False)
      (applyTransactions crypto computePrice txs) := by
    induction txs with
    | nil => exact .pure _
    | cons tx rest ih =>
        have first := quiet tx List.mem_cons_self
        have others : ∀ tx ∈ rest, tx.offMarket = true :=
          fun tx member => quiet tx (List.mem_cons_of_mem _ member)
        refine (tx.applyCaught_applies crypto computePrice first).bind ?_
        intro result
        exact (ih others).bind (fun results => .pure _)
  have ends := applies ledger running
  unfold Ends at ends
  cases run : applyTransactions crypto computePrice txs ledger with
  | error failure after =>
      rw [run] at ends
      exact ends.elim
  | ok results after =>
      rw [run] at ends
      exact ⟨results, after, rfl, ends⟩

/-- The transactions are all applied and none of them ends the process.  The
coins are as many as before unless inflation has run. -/
theorem applyTransactions_applied (crypto : Crypto)
    (computePrice : Price → ℚ) (ledger : LedgerState)
    (txs : List Transaction) (quiet : ∀ tx ∈ txs, tx.offMarket = true)
    (running : ledger.Running) :
    ∃ results after,
      applyTransactions crypto computePrice txs ledger = .ok results after ∧
        Applied ledger after ∧
        (after.header.inflationSeq = ledger.header.inflationSeq →
          after.coins = ledger.coins) := by
  obtain ⟨results, after, run, applied⟩ :=
    applyTransactions_applies crypto computePrice quiet running
  exact ⟨results, after, run, applied, applied.coins_eq running⟩

/-- Every signature is accepted. -/
def acceptingCrypto : Crypto where
  verifySig _ _ _ := true
  sha256 _ := 0

/-- Inflation is due, and the only account votes for itself. -/
def dueLedger : LedgerState :=
  { accounts :=
      { rows := [(1, { AccountEntry.fresh 1 with
          balance := 1000000000, inflationDest := some 1 })]
        distinct := by decide }
    trustLines := .empty
    offers := .empty
    data := .empty
    header :=
      { ledgerVersion := 9, closeTime := inflationStartTime, ledgerSeq := 2
        totalCoins := 1000000000, feePool := 0, inflationSeq := 0
        idPool := 0, baseFee := 100, baseReserve := 100000000
        maxTxSetSize := 1 } }

theorem twoFees_small : 200 < 2 ^ 32 := by
  decide

theorem firstSeq_small : 1 < 2 ^ 64 := by
  decide

def quietTransaction (bodies : List OperationBody) : Transaction where
  sourceAccount := 1
  fee := 200
  fee_lt := twoFees_small
  seqNum := 1
  seqNum_lt := firstSeq_small
  timeBounds := none
  operations := bodies.map (fun body => { sourceAccount := none, body })
  signatures := [{ hint := 1, signature := [] }]
  contentsHash := 0
  fullHash := 0

/-- The second transaction asks for more than there is. -/
def quietTransactions : List Transaction :=
  [quietTransaction [.inflation,
      .createAccount { destination := 2, startingBalance := 500000000 }],
    quietTransaction [
      .createAccount { destination := 3, startingBalance := 10000000000 }]]

def codesAndCoins :
    EStateM.Result Failure LedgerState (List TransactionResult) →
      Option (List TransactionResultCode × ℤ)
  | .ok results after =>
      some (results.map TransactionResult.code, after.coins)
  | .error _ _ => none

theorem applyTransactions_applied_two :
    ∃ results after,
      applyTransactions acceptingCrypto (fun _ => 0) quietTransactions
        dueLedger = .ok results after ∧
      results.map TransactionResult.code = [.txSuccess, .txFailed] ∧
      after.coins = 1000190721 := by
  have running : dueLedger.Running :=
    { valid := by decide +kernel
      pool := by decide
      backed := by decide +kernel
      most := by decide
      version := rfl
      numbers := by decide
      timely := by decide +kernel
      paced := by decide
      minted := by decide +kernel }
  obtain ⟨results, after, run, -, -⟩ := applyTransactions_applied
    acceptingCrypto (fun _ => 0) dueLedger quietTransactions
    (by decide +kernel) running
  have summary : codesAndCoins (applyTransactions acceptingCrypto
      (fun _ => 0) quietTransactions dueLedger) =
        some ([.txSuccess, .txFailed], 1000190721) := by
    decide +kernel
  rw [run] at summary
  have same := Option.some.inj summary
  exact ⟨results, after, run, congrArg Prod.fst same,
    congrArg Prod.snd same⟩

end StellarCore.Transactions
