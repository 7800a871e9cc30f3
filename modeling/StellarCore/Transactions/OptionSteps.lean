import Mathlib.Data.List.Sort
import StellarCore.Lib.Attempt
import StellarCore.Transactions.SubEntrySteps

/-!
# Options of an account

`SetOptionsOpFrame` reads the ledger, changes the source and stores it at the
end.  Its signers stay in order, each of them counted once.
-/

namespace StellarCore.Transactions

open StellarCore.Lib

variable {ledger : LedgerState} {source account : AccountEntry}

/-! ## Signers -/

/-- The order of the signers is made up for by `normalize`. -/
theorem normalize_isValid (valid : account.isValid = true)
    {signers : List Signer} {numSubEntries : ℕ}
    (few : numSubEntries ≤ int32Max)
    (distinct : (signers.map Signer.key).Nodup)
    (weights : ∀ s ∈ signers, s.weight ≤ 255 ∧ s.weight ≠ 0) :
    ({ account with signers, numSubEntries } : AccountEntry).normalize.isValid
      = true := by
  have total : Std.Total (fun s1 s2 : Signer => s1.key ≤ s2.key) :=
    ⟨fun s1 s2 => le_total s1.key s2.key⟩
  have trans : IsTrans Signer (fun s1 s2 => s1.key ≤ s2.key) :=
    ⟨fun _ _ _ => le_trans⟩
  have strict : IsTrans Signer (fun s1 s2 => s1.key < s2.key) :=
    ⟨fun _ _ _ => lt_trans⟩
  have perm := List.perm_insertionSort (fun s1 s2 : Signer => s1.key ≤ s2.key)
    signers
  have sorted := List.pairwise_insertionSort
    (fun s1 s2 : Signer => s1.key ≤ s2.key) signers
  have apart : (signers.insertionSort
      (fun s1 s2 => s1.key ≤ s2.key)).Pairwise
        (fun s1 s2 => s1.key ≠ s2.key) :=
    List.pairwise_map.mp ((perm.map Signer.key).nodup_iff.mpr distinct)
  rw [AccountEntry.isValid_iff] at valid ⊢
  exact { valid with
    ordered := List.isChain_iff_pairwise.mpr
      ((sorted.and apart).imp (fun both => lt_of_le_of_ne both.1 both.2))
    numSubEntries := few
    weights := fun s member => weights s (perm.subset member) }

theorem keys_nodup (valid : account.isValid = true) :
    (account.signers.map Signer.key).Nodup := by
  have strict : IsTrans Signer (fun s1 s2 => s1.key < s2.key) :=
    ⟨fun _ _ _ => lt_trans⟩
  have ordered := List.isChain_iff_pairwise.mp
    (AccountEntry.isValid_iff.mp valid).ordered
  exact List.pairwise_map.mpr (ordered.imp (fun less => less.ne))

/-! ## The account as it is changed -/

/-- The source with other options: the same coins, and the sub-entries
counted as far as they are signers. -/
structure Optioned (source account : AccountEntry) : Prop where
  keyed : account.accountID = source.accountID
  balance : account.balance = source.balance
  seqNum : account.seqNum = source.seqNum
  counted : account.numSubEntries + source.signers.length =
    source.numSubEntries + account.signers.length
  valid : account.isValid = true

theorem Optioned.refl (valid : source.isValid = true) :
    Optioned source source where
  keyed := rfl
  balance := rfl
  seqNum := rfl
  counted := rfl
  valid := valid

/-- Other signers, each of them counted once. -/
theorem Optioned.withSigners (optioned : Optioned source account)
    {signers : List Signer} {numSubEntries : ℕ}
    (counted : numSubEntries + account.signers.length =
      account.numSubEntries + signers.length)
    (few : numSubEntries ≤ int32Max)
    (distinct : (signers.map Signer.key).Nodup)
    (weights : ∀ s ∈ signers, s.weight ≤ 255 ∧ s.weight ≠ 0) :
    Optioned source
      ({ account with signers, numSubEntries } : AccountEntry).normalize where
  keyed := optioned.keyed
  balance := optioned.balance
  seqNum := optioned.seqNum
  counted := by
    have before := optioned.counted
    show numSubEntries + source.signers.length = source.numSubEntries +
      (signers.insertionSort (fun s1 s2 => s1.key ≤ s2.key)).length
    rw [List.length_insertionSort]
    omega
  valid := normalize_isValid optioned.valid few distinct weights

/-- A program that changes the account and nothing else. -/
def Changes (source : AccountEntry) (ledger : LedgerState)
    (program : Applying SetOptionsResult AccountEntry) : Prop :=
  Attempts program ledger
    (fun account after => after = ledger ∧ Optioned source account)
    (fun result after => after = ledger ∧ result ≠ .success)
    (fun failure _ => ∃ what, failure = .runtimeError what)

theorem Changes.bind {program : Applying SetOptionsResult AccountEntry}
    {next : AccountEntry → Applying SetOptionsResult AccountEntry}
    (first : Changes source ledger program)
    (later : ∀ account, Optioned source account →
      Changes source ledger (next account)) :
    Changes source ledger (program >>= next) := by
  unfold Changes
  rw [Attempts.bind_iff]
  refine Attempts.mono first ?_ (fun _ _ rejected => rejected)
    (fun _ _ failed => failed)
  rintro account _ ⟨rfl, optioned⟩
  exact later account optioned

theorem Changes.pure (optioned : Optioned source account) :
    Changes source ledger (Pure.pure account) := by
  unfold Changes
  rw [Attempts.pure_iff]
  exact ⟨rfl, optioned⟩

theorem Changes.reject {result : SetOptionsResult}
    (fails : result ≠ .success) :
    Changes source ledger (Lib.reject result) := by
  unfold Changes
  rw [Attempts.reject_iff]
  exact ⟨rfl, fails⟩

theorem Changes.ite {condition : Prop} [Decidable condition]
    {program other : Applying SetOptionsResult AccountEntry}
    (first : condition → Changes source ledger program)
    (second : ¬ condition → Changes source ledger other) :
    Changes source ledger (if condition then program else other) := by
  by_cases holds : condition
  · rw [if_pos holds]
    exact first holds
  · rw [if_neg holds]
    exact second holds

namespace SetOptionsOp

variable {op : SetOptionsOp}

/-- The weight of the signer is a byte, which `doCheckValid` does not check. -/
def byteWeight (op : SetOptionsOp) : Bool :=
  match op.signer with
  | none => true
  | some signer => signer.weight ≤ 255

/-- What `doCheckValid` promises, and the weight. -/
structure Checked (op : SetOptionsOp) : Prop where
  setFlags : ∀ flags, op.setFlags = some flags →
    flags &&& ~~~maskAccountFlags = 0
  homeDomain : ∀ homeDomain, op.homeDomain = some homeDomain →
    isString32Valid homeDomain = true
  weight : ∀ signer, op.signer = some signer → signer.weight ≤ 255

theorem Checked.of_doCheckValid {sourceID : AccountID}
    (passed : op.doCheckValid sourceID 9 = none)
    (byte : op.byteWeight = true) : op.Checked := by
  have checks := firstOf_eq_none.mp passed
  refine ⟨?_, ?_, ?_⟩
  · intro flags known
    have unknown := checks (unknownFlags op.setFlags, .unknownFlag) (by simp)
    rw [known] at unknown
    simpa [unknownFlags] using unknown
  · intro homeDomain given
    have bad := checks (op.badHomeDomain, .invalidHomeDomain) (by simp)
    unfold badHomeDomain at bad
    rw [given] at bad
    simpa using bad
  · intro signer given
    unfold byteWeight at byte
    rw [given] at byte
    exact of_decide_eq_true byte

theorem setInflationDest_changes (valid : ledger.Valid)
    (optioned : Optioned source account) :
    Changes source ledger (op.setInflationDest account) := by
  unfold setInflationDest
  cases op.inflationDest with
  | none => exact .pure optioned
  | some inflationID =>
      unfold Changes
      simp only
      rw [Attempts.bind_iff, Attempts.lift_iff]
      refine .of_run (valid.loadAccount inflationID) ?_
      have holds := AccountEntry.isValid_iff.mp optioned.valid
      cases ledger.accounts.find? inflationID with
      | none => exact Changes.reject (by simp)
      | some _ =>
          exact Changes.pure { optioned with
            valid := AccountEntry.isValid_iff.mpr { holds with } }

theorem changeClearFlags_changes (optioned : Optioned source account) :
    Changes source ledger (op.changeClearFlags account) := by
  unfold changeClearFlags
  cases op.clearFlags with
  | none => exact .pure optioned
  | some clearFlags =>
      have holds := AccountEntry.isValid_iff.mp optioned.valid
      have flags : account.flags &&& ~~~clearFlags &&& ~~~maskAccountFlags =
          0 := by
        rw [BitVec.and_assoc, BitVec.and_comm (~~~clearFlags),
          ← BitVec.and_assoc, holds.flags]
        exact BitVec.zero_and
      exact .ite (fun _ => .reject (by simp)) (fun _ => .pure { optioned with
        valid := AccountEntry.isValid_iff.mpr { holds with flags } })

theorem changeSetFlags_changes (checked : op.Checked)
    (optioned : Optioned source account) :
    Changes source ledger (op.changeSetFlags account) := by
  unfold changeSetFlags
  cases known : op.setFlags with
  | none => exact .pure optioned
  | some setFlags =>
      have holds := AccountEntry.isValid_iff.mp optioned.valid
      have flags : (account.flags ||| setFlags) &&& ~~~maskAccountFlags =
          0 := by
        rw [BitVec.and_or_distrib_right, holds.flags,
          checked.setFlags setFlags known]
        exact BitVec.zero_or
      exact .ite (fun _ => .reject (by simp)) (fun _ => .pure { optioned with
        valid := AccountEntry.isValid_iff.mpr { holds with flags } })

theorem setThresholds_optioned (checked : op.Checked)
    (optioned : Optioned source account) :
    Optioned source (op.setThresholds account) := by
  have holds := AccountEntry.isValid_iff.mp optioned.valid
  have homeDomain :
      isString32Valid (op.homeDomain.getD account.homeDomain) = true := by
    cases given : op.homeDomain with
    | none => exact holds.homeDomain
    | some homeDomain => exact checked.homeDomain homeDomain given
  exact { optioned with
    valid := AccountEntry.isValid_iff.mpr { holds with homeDomain } }

/-! ## Adding and deleting signers -/

theorem map_key_reweigh (signer : Signer) (signers : List Signer) :
    (reweigh signer signers).map Signer.key = signers.map Signer.key := by
  unfold reweigh
  rw [List.map_map]
  apply List.map_congr_left
  intro oldSigner _
  by_cases same : oldSigner.key = signer.key
  · simp [same]
  · simp [same]

theorem weights_reweigh {signer : Signer} {signers : List Signer}
    (weight : signer.weight ≤ 255 ∧ signer.weight ≠ 0)
    (weights : ∀ s ∈ signers, s.weight ≤ 255 ∧ s.weight ≠ 0) :
    ∀ s ∈ reweigh signer signers, s.weight ≤ 255 ∧ s.weight ≠ 0 := by
  intro s member
  obtain ⟨oldSigner, listed, rfl⟩ := List.mem_map.mp member
  by_cases same : oldSigner.key = signer.key
  · rw [if_pos same]
    exact weight
  · rw [if_neg same]
    exact weights oldSigner listed

theorem key_notMem {key : SignerKey} {signers : List Signer}
    (absent : ¬ hasSigner key signers = true) :
    key ∉ signers.map Signer.key := by
  intro member
  obtain ⟨oldSigner, listed, same⟩ := List.mem_map.mp member
  exact absent (List.any_eq_true.mpr
    ⟨oldSigner, listed, decide_eq_true same⟩)

attribute [local irreducible] AccountEntry.addNumEntries

theorem addSigner_changes {signer : Signer}
    (weight : signer.weight ≤ 255 ∧ signer.weight ≠ 0)
    (optioned : Optioned source account) :
    Changes source ledger (do
      let account ← addSigner signer account
      return account.normalize) := by
  have holds := AccountEntry.isValid_iff.mp optioned.valid
  have distinct := keys_nodup optioned.valid
  unfold Changes addSigner
  rw [Attempts.bind_iff, Attempts.ite_iff]
  refine ⟨fun _ => ?_, fun absent => ?_⟩
  · refine ⟨rfl, optioned.withSigners ?_ holds.numSubEntries ?_
      (weights_reweigh weight holds.weights)⟩
    · unfold reweigh
      rw [List.length_map]
    · rw [map_key_reweigh]
      exact distinct
  · rw [Attempts.ite_iff]
    refine ⟨fun _ => ⟨rfl, by simp⟩, fun _ => ?_⟩
    rw [Attempts.bind_iff, Attempts.lift_iff]
    refine addNumEntries_succ rfl holds.numSubEntries ⟨rfl, by simp⟩
      fun few => ?_
    have other := key_notMem absent
    have fresh : ((account.signers ++ [signer]).map Signer.key).Nodup := by
      rw [List.map_append, List.map_singleton, List.nodup_append]
      refine ⟨distinct, List.nodup_singleton _, ?_⟩
      intro key listed last new same
      rw [same, List.mem_singleton.mp new] at listed
      exact other listed
    refine ⟨rfl, optioned.withSigners ?_ few fresh ?_⟩
    · show account.numSubEntries + 1 + account.signers.length =
        account.numSubEntries + (account.signers ++ [signer]).length
      rw [List.length_append, List.length_singleton]
      omega
    · intro s member
      rcases List.mem_append.mp member with old | new
      · exact holds.weights s old
      · rw [List.mem_singleton.mp new]
        exact weight

/-- The signers that are left of a list, and the count without the others. -/
structure Erased (key : SignerKey) (account : AccountEntry)
    (signers : List Signer) (left : AccountEntry) : Prop where
  rest : left = { account with
    signers := left.signers, numSubEntries := left.numSubEntries }
  kept : left.signers = signers.filter (fun s => s.key ≠ key)
  counted : left.numSubEntries + signers.length =
    account.numSubEntries + left.signers.length

theorem eraseSigner_ends (key : SignerKey) {signers : List Signer}
    (valid : account.isValid = true)
    (few : signers.length ≤ account.numSubEntries) :
    Ends (eraseSigner key account signers) ledger
      (fun left after => after = ledger ∧ Erased key account signers left)
      (fun _ _ => False) := by
  induction signers generalizing account with
  | nil => exact ⟨rfl, rfl, rfl, rfl⟩
  | cons oldSigner signers ih =>
      have length : signers.length + 1 ≤ account.numSubEntries := few
      unfold eraseSigner
      rw [Ends.ite_iff]
      refine ⟨fun same => ?_, fun other => ?_⟩
      · have holds := AccountEntry.isValid_iff.mp valid
        have small : account.numSubEntries - 1 ≤ int32Max :=
          (Nat.sub_le _ _).trans holds.numSubEntries
        rw [Ends.bind_iff]
        refine .of_run (AccountEntry.addNumEntries_pred valid (by omega)) ?_
        refine (ih (AccountEntry.isValid_count valid small)
          (by show _ ≤ account.numSubEntries - 1; omega)).mono ?_
            (fun _ _ impossible => impossible)
        rintro left _ ⟨rfl, erased⟩
        refine ⟨rfl, erased.rest, ?_, ?_⟩
        · rw [erased.kept, List.filter_cons_of_neg (by simpa using same)]
        · have counted : left.numSubEntries + signers.length =
              account.numSubEntries - 1 + left.signers.length :=
            erased.counted
          rw [List.length_cons]
          omega
      · rw [Ends.bind_iff]
        refine (ih valid (by omega)).mono ?_
          (fun _ _ impossible => impossible)
        rintro left _ ⟨rfl, erased⟩
        have counted := erased.counted
        refine ⟨rfl, ?_, ?_, ?_⟩
        · rw [erased.rest]
        · rw [List.filter_cons_of_pos (by simpa using other),
            erased.kept]
        · show left.numSubEntries + (signers.length + 1) =
            account.numSubEntries + (left.signers.length + 1)
          omega

theorem eraseSigner_changes (key : SignerKey)
    (optioned : Optioned source account)
    (few : account.signers.length ≤ account.numSubEntries) :
    Changes source ledger (do
      let account ← eraseSigner key account account.signers
      return account.normalize) := by
  have holds := AccountEntry.isValid_iff.mp optioned.valid
  unfold Changes
  rw [Attempts.bind_iff, Attempts.lift_iff]
  refine (eraseSigner_ends key optioned.valid few).mono ?_
    (fun _ _ impossible => impossible.elim)
  rintro left _ ⟨rfl, erased⟩
  have counted := erased.counted
  have less : left.signers.Sublist account.signers := by
    rw [erased.kept]
    exact List.filter_sublist
  have shorter := less.length_le
  refine ⟨rfl, ?_⟩
  rw [erased.rest]
  exact optioned.withSigners counted
    (le_trans (by omega) holds.numSubEntries)
    ((less.map Signer.key).nodup (keys_nodup optioned.valid))
    (fun s member => holds.weights s (less.subset member))

/-! ## The operation -/

theorem setSigner_changes (checked : op.Checked)
    (optioned : Optioned source account)
    (few : account.signers.length ≤ account.numSubEntries) :
    Changes source ledger (op.setSigner account) := by
  unfold setSigner
  cases given : op.signer with
  | none => exact .pure optioned
  | some signer =>
      have byte := checked.weight signer given
      exact .ite (fun weight => addSigner_changes ⟨byte, weight⟩ optioned)
        (fun _ => eraseSigner_changes signer.key optioned few)

theorem options_changes (running : ledger.Running)
    (found : ledger.accounts.find? source.accountID = some source)
    (checked : op.Checked) : Changes source ledger (op.options source) := by
  have stored := running.stored found
  have counted := running.valid.counted.found found
  have nonneg := ledger.owned_nonneg source.accountID
  refine (setInflationDest_changes running.valid
    (.refl stored.valid)).bind ?_
  intro account optioned
  refine (changeClearFlags_changes optioned).bind ?_
  intro account optioned
  refine (changeSetFlags_changes checked optioned).bind ?_
  intro account optioned
  have thresholds := setThresholds_optioned checked optioned
  have signers := thresholds.counted
  exact setSigner_changes checked thresholds (by omega)

theorem stored_applied (running : ledger.Running)
    (found : ledger.accounts.find? source.accountID = some source)
    (optioned : Optioned source account) :
    Applied ledger (ledger.putAccount account) := by
  have stored := running.stored found
  have counted := running.valid.counted.found found
  have signers := optioned.counted
  have row : ledger.accounts.find? account.accountID = some source := by
    rw [optioned.keyed]
    exact found
  have most : account.balance ≤ int64Max := by
    rw [optioned.balance]
    exact stored.most
  have valid : (ledger.putAccount account).Valid := by
    refine running.valid.putAccount optioned.valid most (fun _ _ => rfl) ?_
    rw [optioned.keyed]
    omega
  exact .of_account running valid row optioned.balance optioned.seqNum rfl rfl

theorem settle_attempts (running : ledger.Running)
    (found : ledger.accounts.find? source.accountID = some source)
    (checked : op.Checked) :
    Attempts (op.settle source) ledger
      (fun _ after => Applied ledger after)
      (fun result after => after = ledger ∧ result ≠ .success)
      (fun failure _ => ∃ what, failure = .runtimeError what) := by
  unfold settle
  rw [Attempts.bind_iff]
  refine Attempts.mono (options_changes running found checked) ?_
    (fun _ _ rejected => rejected) (fun _ _ failed => failed)
  rintro account ledger ⟨rfl, optioned⟩
  have present : ledger.accounts.contains account.accountID = true := by
    rw [optioned.keyed]
    exact Table.contains_eq_true.mpr ⟨source, found⟩
  rw [Attempts.bind_iff, Attempts.lift_iff]
  exact .of_run (running.valid.storeChangeAccount optioned.valid present)
    (stored_applied running found optioned)

theorem doApply_ends (running : ledger.Running)
    (found : ledger.accounts.find? source.accountID = some source)
    (passed : op.doCheckValid source.accountID 9 = none)
    (byte : op.byteWeight = true) :
    Ends (op.doApply source) ledger
      (fun result after => Concludes (result = .success) ledger after)
      (fun failure _ => ∃ what, failure = .runtimeError what) := by
  have checked := Checked.of_doCheckValid passed byte
  have attempts := settle_attempts running found checked
  unfold doApply
  rw [Ends.bind_iff]
  refine Ends.mono attempts ?_ (fun _ _ failed => failed)
  intro outcome after reached
  cases outcome with
  | ok _ => exact .succeeded rfl reached
  | error result =>
      obtain ⟨rfl, fails⟩ := reached
      exact .failed fails _

end SetOptionsOp

end StellarCore.Transactions
