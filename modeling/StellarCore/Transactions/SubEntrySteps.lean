import StellarCore.Transactions.EntryOperationSteps

/-!
# Steps on sub-entries

Trust lines and data entries are added, changed and deleted, and the source
counts them.
-/

namespace StellarCore.Transactions

open StellarCore.Lib

variable {ledger : LedgerState} {source : AccountEntry}
  {off : AccountID → ℤ}

/-- A program that has raised an exception. -/
theorem ends_raised {α : Type} {program : Ledger α} {after : LedgerState}
    {done : α → LedgerState → Prop} {what : String}
    (run : program ledger = .error (.runtimeError what) after) :
    Ends program ledger done
      (fun failure _ => ∃ what, failure = .runtimeError what) :=
  (Ends.run_error_iff run).mpr ⟨what, rfl⟩

/-! ## Counting -/

/-- The source with another count of its sub-entries. -/
def AccountEntry.counting (a : AccountEntry) (numSubEntries : ℕ) :
    AccountEntry :=
  { a with numSubEntries }

/-- One entry more is counted, or the reserve is too low for it, or there is
no room for the count. -/
theorem addNumEntries_succ {k : ℤ} (increment : k = 1)
    (small : source.numSubEntries ≤ int32Max)
    {done : Option AccountEntry → LedgerState → Prop} (low : done none ledger)
    (counted : source.numSubEntries < int32Max →
      done (some (source.counting (source.numSubEntries + 1))) ledger) :
    Ends (source.addNumEntries k) ledger done
      (fun failure _ => ∃ what, failure = .runtimeError what) := by
  rcases small.lt_or_eq with few | full
  · have sum : source.numSubEntries + k = (source.numSubEntries + 1 : ℕ) := by
      rw [increment, Nat.cast_succ]
    rw [Ends.run_iff (addNumEntries_eq (Nat.succ_le_of_lt few)
      (increment ▸ one_pos) sum)]
    split
    · exact counted few
    · exact low
  · have negative : (source.numSubEntries + k).bmod (2 ^ 32) = -2 ^ 31 := by
      rw [full, increment]
      decide
    have header : getHeader ledger = .ok ledger.header ledger := rfl
    have run : source.addNumEntries k ledger =
        .error (.runtimeError "invalid account state") ledger := by
      unfold AccountEntry.addNumEntries
      simp only [negative]
      rw [run_bind, header]
      rfl
    exact ends_raised run

attribute [local irreducible] AccountEntry.addNumEntries

/-- A sub-entry was added or deleted, and then its owner was stored with the
count that is right. -/
theorem LedgerState.ValidUpTo.recount (valid : ledger.ValidUpTo off)
    (found : ledger.accounts.find? source.accountID = some source)
    (others : ∀ id, id ≠ source.accountID → off id = 0)
    {numSubEntries : ℕ} (few : numSubEntries ≤ int32Max)
    (counted : (numSubEntries : ℤ) =
      source.numSubEntries + off source.accountID) :
    (ledger.putAccount (source.counting numSubEntries)).Valid := by
  have stored := valid.accounts.found found
  have counts := valid.counted.found found
  refine valid.putAccount (AccountEntry.isValid_count stored.valid few)
    stored.most (fun id other => (others id other).symm) ?_
  show (numSubEntries : ℤ) + 0 =
    source.signers.length + ledger.owned source.accountID
  omega

theorem one_other {owner id : AccountID} (other : id ≠ owner) :
    LedgerState.one owner id = 0 :=
  if_neg (Ne.symm other)

theorem one_self (id : AccountID) : LedgerState.one id id = 1 :=
  if_pos rfl

/-! ## Trust lines -/

section Lines

variable {line : TrustLineEntry}

theorem LedgerState.ValidUpTo.storeAddTrust (valid : ledger.ValidUpTo off)
    (storable : line.isValid = true)
    (holder : line.accountID ≠ line.asset.getIssuer)
    (absent : ledger.trustLines.find? (line.accountID, line.asset) = none) :
    Transactions.storeAddTrust ⟨line, false⟩ ledger =
      .ok ⟨{ line with lastModified := ledger.header.ledgerSeq }, false⟩
        (ledger.addLine line) := by
  have missing : ledger.trustLines.contains (line.accountID, line.asset) =
      false := by
    rw [Table.contains, absent]
    rfl
  apply Ends.eq_ok
  unfold Transactions.storeAddTrust checkKeyFields
  rw [if_pos storable]
  simp only [Bool.false_eq_true, ↓reduceIte]
  rw [Ends.bind_iff, touch_ends]
  refine ⟨fun _ => ?_, fun zero => absurd zero valid.started⟩
  simp only [if_neg holder]
  rw [Ends.bind_iff, Ends.pure_iff, Ends.bind_iff, Ends.get_iff, missing]
  exact ⟨rfl, rfl⟩

theorem storeDeleteTrust_eq
    (holder : line.accountID ≠ line.asset.getIssuer) :
    storeDeleteTrust line ledger =
      .ok () (ledger.dropLine (line.accountID, line.asset)) := by
  unfold storeDeleteTrust checkKeyFields
  rw [if_neg holder]
  rfl

end Lines

namespace ChangeTrustOp

variable {op : ChangeTrustOp}

theorem checked_iff :
    op.doCheckValid = none ↔
      0 ≤ op.limit ∧ op.line.isAssetValid = true := by
  simp only [doCheckValid, firstOf_eq_none, List.forall_mem_cons,
    List.not_mem_nil, false_implies, implies_true, and_true,
    decide_eq_false_iff_not, not_lt, Bool.not_eq_false']

/-- The source does not trust itself, and the bounds of the operation. -/
structure Trusting (op : ChangeTrustOp) (source : AccountEntry)
    (ledger : LedgerState) : Prop where
  running : ledger.Running
  found : ledger.accounts.find? source.accountID = some source
  credit : op.line ≠ .native
  holder : source.accountID ≠ op.line.getIssuer
  asset : op.line.isAssetValid = true
  limit : 0 ≤ op.limit ∧ op.limit ≤ int64Max

/-- The deleted line, with the source that counts one less. -/
def dropFrom (op : ChangeTrustOp) (source : AccountEntry)
    (ledger : LedgerState) : LedgerState :=
  (ledger.dropLine (source.accountID, op.line)).putAccount
    (source.counting (source.numSubEntries - 1))

/-- What an issuer asks for. -/
def lineFrom (op : ChangeTrustOp) (sourceID : AccountID)
    (issuer : AccountEntry) : TrustLineEntry :=
  (op.newLine sourceID issuer).line

def addTo (op : ChangeTrustOp) (source issuer : AccountEntry)
    (ledger : LedgerState) : LedgerState :=
  (ledger.putAccount (source.counting (source.numSubEntries + 1))).addLine
    (op.lineFrom source.accountID issuer)

theorem lineFrom_flags (sourceID : AccountID) (issuer : AccountEntry) :
    (op.lineFrom sourceID issuer).flags &&& ~~~maskTrustLineFlags = 0 := by
  unfold lineFrom newLine TrustFrame.setAuthorized
  cases issuer.isAuthRequired with
  | false =>
      show (0 ||| authorizedFlag) &&& ~~~maskTrustLineFlags = 0
      decide
  | true =>
      show (0 &&& ~~~authorizedFlag) &&& ~~~maskTrustLineFlags = 0
      decide

namespace Trusting

variable (trusting : op.Trusting source ledger)

include trusting

theorem lineOf_eq :
    ledger.lineOf source.accountID op.line =
      (ledger.trustLines.find? (source.accountID, op.line)).map
        (fun line => ⟨line, false⟩) :=
  if_neg trusting.holder

theorem drop_pos {line : TrustLineEntry}
    (found : ledger.trustLines.find? (source.accountID, op.line) =
      some line) : 0 < source.numSubEntries := by
  have counted := trusting.running.valid.counted.found trusting.found
  have less := LedgerState.owned_dropLine found source.accountID
  have nonneg := (ledger.dropLine (source.accountID, op.line)).owned_nonneg
    source.accountID
  rw [one_self] at less
  omega

theorem drop_applied {line : TrustLineEntry}
    (found : ledger.trustLines.find? (source.accountID, op.line) =
      some line) : Applied ledger (op.dropFrom source ledger) := by
  have positive := trusting.drop_pos found
  have small := (AccountEntry.isValid_iff.mp
    (trusting.running.stored trusting.found).valid).numSubEntries
  have dropped := trusting.running.valid.dropLine found
  have valid : (op.dropFrom source ledger).Valid := by
    refine dropped.recount trusting.found ?_ (by omega) ?_
    · intro id other
      rw [one_other other, sub_zero]
    · rw [one_self]
      omega
  have row : ledger.accounts.find?
      (source.counting (source.numSubEntries - 1)).accountID = some source :=
    trusting.found
  exact .of_account trusting.running valid row rfl rfl rfl rfl

theorem line_valid (positive : 0 < op.limit) (issuer : AccountEntry) :
    (op.lineFrom source.accountID issuer).isValid = true := by
  rw [TrustLineEntry.isValid_iff]
  exact {
    lastModified := Nat.zero_le _
    credit := trusting.credit
    asset := trusting.asset
    balance := le_refl 0
    limit := positive
    within := positive.le
    flags := lineFrom_flags _ _ }

theorem counted_valid (few : source.numSubEntries < int32Max) :
    (ledger.putAccount
      (source.counting (source.numSubEntries + 1))).ValidUpTo
        (fun id => -LedgerState.one source.accountID id) := by
  have stored := trusting.running.stored trusting.found
  have counted := trusting.running.valid.counted.found trusting.found
  refine trusting.running.valid.putAccount
    (AccountEntry.isValid_count stored.valid few) stored.most ?_ ?_
  · intro id other
    have apart : id ≠ source.accountID := other
    show -LedgerState.one source.accountID id = 0
    rw [one_other apart, neg_zero]
  · show ((source.numSubEntries + 1 : ℕ) : ℤ) +
      -LedgerState.one source.accountID source.accountID =
        source.signers.length + ledger.owned source.accountID
    rw [one_self]
    push_cast
    omega

theorem add_applied {issuer : AccountEntry} (positive : 0 < op.limit)
    (few : source.numSubEntries < int32Max)
    (absent : ledger.trustLines.find? (source.accountID, op.line) = none) :
    Applied ledger (op.addTo source issuer ledger) := by
  have present : (ledger.putAccount (source.counting
      (source.numSubEntries + 1))).accounts.contains source.accountID =
        true := by
    rw [LedgerState.contains_putAccount]
    exact Table.contains_eq_true.mpr ⟨source, trusting.found⟩
  have missing : (ledger.putAccount (source.counting
      (source.numSubEntries + 1))).trustLines.find?
        ((op.lineFrom source.accountID issuer).accountID,
          (op.lineFrom source.accountID issuer).asset) = none := absent
  have added := (trusting.counted_valid few).addLine missing
    (trusting.line_valid positive issuer) trusting.limit.2 trusting.holder
    present
  have valid : (op.addTo source issuer ledger).Valid := by
    have zero : (fun id => -LedgerState.one source.accountID id +
        LedgerState.one source.accountID id) = fun _ => 0 := by
      funext id
      omega
    show (op.addTo source issuer ledger).ValidUpTo (fun _ => 0)
    rw [← zero]
    exact added
  have row : ledger.accounts.find?
      (source.counting (source.numSubEntries + 1)).accountID = some source :=
    trusting.found
  exact .of_account trusting.running valid row rfl rfl rfl rfl

end Trusting

theorem changeOld_ends (trusting : op.Trusting source ledger)
    {line : TrustLineEntry} (issuer : Option AccountEntry)
    (found : ledger.trustLines.find? (source.accountID, op.line) =
      some line) :
    Ends (op.changeOld source ⟨line, false⟩ issuer) ledger
      (fun result after => Concludes (result = .success) ledger after)
      (fun _ _ => False) := by
  have valid := trusting.running.valid
  have stored := valid.trustLines.found found
  have entry := TrustLineEntry.isValid_iff.mp stored.valid
  have holder : line.accountID = source.accountID :=
    congrArg Prod.fst stored.keyed
  have held : line.asset = op.line := congrArg Prod.snd stored.keyed
  have balance : (TrustFrame.mk line false).getBalance ledger =
      .ok line.balance ledger := by
    unfold TrustFrame.getBalance
    rw [if_pos stored.valid]
    rfl
  unfold changeOld
  rw [Ends.bind_iff]
  refine .of_run balance ?_
  rw [Ends.ite_iff]
  refine ⟨fun _ => .failed (by simp) ledger, fun above => ?_⟩
  rw [Ends.ite_iff]
  constructor
  · intro zero
    have positive := trusting.drop_pos found
    have account := trusting.running.stored trusting.found
    have small := (AccountEntry.isValid_iff.mp account.valid).numSubEntries
    have dropped := valid.dropLine found
    have storable := AccountEntry.isValid_count account.valid
      (show source.numSubEntries - 1 ≤ int32Max by omega)
    have present : (ledger.dropLine (source.accountID,
        op.line)).accounts.contains source.accountID = true :=
      Table.contains_eq_true.mpr ⟨source, trusting.found⟩
    have deleted : storeDeleteTrust line ledger = _ :=
      storeDeleteTrust_eq stored.holder
    rw [holder, held] at deleted
    rw [Ends.bind_iff]
    refine .of_run deleted ?_
    rw [Ends.bind_iff]
    refine .of_run (AccountEntry.addNumEntries_pred account.valid positive)
      ?_
    rw [Ends.bind_iff]
    exact .of_run (dropped.storeChangeAccount storable present)
      (.succeeded rfl (trusting.drop_applied found))
  · intro nonzero
    have nonneg := trusting.limit.1
    rw [Ends.ite_iff]
    refine ⟨fun _ => .failed (by simp) ledger, fun _ => ?_⟩
    let changed : TrustLineEntry := { line with limit := op.limit }
    have storable : changed.isValid = true := by
      rw [TrustLineEntry.isValid_iff]
      exact { entry with
        limit := by
          show 0 < op.limit
          omega
        within := not_lt.mp above }
    have present : ledger.trustLines.contains
        (changed.accountID, changed.asset) = true := by
      show ledger.trustLines.contains (line.accountID, line.asset) = true
      rw [stored.keyed]
      exact Table.contains_eq_true.mpr ⟨line, found⟩
    have kept := valid.putLine storable trusting.limit.2 stored.holder
    rw [Ends.bind_iff]
    exact .of_run (valid.storeChangeTrust storable stored.holder present)
      (.succeeded rfl (.of_entries trusting.running kept rfl rfl))

theorem addNew_ends (trusting : op.Trusting source ledger)
    (issuer : Option AccountEntry)
    (absent : ledger.trustLines.find? (source.accountID, op.line) = none) :
    Ends (op.addNew source issuer) ledger
      (fun result after => Concludes (result = .success) ledger after)
      (fun failure _ => ∃ what, failure = .runtimeError what) := by
  have running := trusting.running
  have nonneg := trusting.limit.1
  unfold addNew
  rw [Ends.ite_iff]
  refine ⟨fun _ => .failed (by simp) ledger, fun nonzero => ?_⟩
  cases issuer with
  | none => exact .failed (by simp) ledger
  | some issuer =>
      simp only
      rw [Ends.bind_iff]
      have small := (AccountEntry.isValid_iff.mp
        (running.stored trusting.found).valid).numSubEntries
      refine addNumEntries_succ rfl small (.failed (by simp) ledger)
        fun few => ?_
      have positive : 0 < op.limit := by omega
      have storable := AccountEntry.isValid_count
        (running.stored trusting.found).valid few
      have present : ledger.accounts.contains source.accountID = true :=
        Table.contains_eq_true.mpr ⟨source, trusting.found⟩
      have missing : (ledger.putAccount (source.counting
          (source.numSubEntries + 1))).trustLines.find?
            ((op.lineFrom source.accountID issuer).accountID,
              (op.lineFrom source.accountID issuer).asset) = none := absent
      have added := (trusting.counted_valid few).storeAddTrust
        (trusting.line_valid positive issuer) trusting.holder missing
      simp only
      rw [Ends.bind_iff]
      refine .of_run (running.valid.storeChangeAccount storable present) ?_
      rw [Ends.bind_iff]
      exact .of_run added
        (.succeeded rfl (trusting.add_applied positive few absent))

/-- An account that issues the asset exists, as it is the source. -/
theorem trustsSelf_of_issuer
    (found : ledger.accounts.find? source.accountID = some source)
    (issuer : source.accountID = op.line.getIssuer) :
    trustsSelf (ledger.accounts.find? op.line.getIssuer) source = true := by
  rw [← issuer, found]
  simp [trustsSelf]

theorem doApply_ends (running : ledger.Running)
    (found : ledger.accounts.find? source.accountID = some source)
    (checked : op.doCheckValid = none) (most : op.limit ≤ int64Max) :
    Ends (op.doApply source) ledger
      (fun result after => Concludes (result = .success) ledger after)
      (fun failure _ => ∃ what, failure = .runtimeError what) := by
  obtain ⟨nonneg, asset⟩ := checked_iff.mp checked
  unfold doApply
  rw [Ends.bind_iff]
  by_cases native : op.line = .native
  · have failed : loadTrustLineIssuer source.accountID op.line ledger =
        .error (.runtimeError "XLM TrustLine?") ledger := by
      unfold loadTrustLineIssuer loadTrustLine
      rw [if_pos native]
      rfl
    exact ends_raised failed
  · refine .of_run
      (running.valid.loadTrustLineIssuer source.accountID native) ?_
    simp only
    rw [Ends.bind_iff, getHeader_ends, running.version]
    have newer : decide (9 > 2) = true := by decide
    rw [newer, Bool.true_and, Ends.ite_iff]
    refine ⟨fun _ => .failed (by simp) ledger, fun others => ?_⟩
    have holder : source.accountID ≠ op.line.getIssuer := by
      intro issuer
      exact others (trustsSelf_of_issuer found issuer)
    have trusting : op.Trusting source ledger :=
      ⟨running, found, native, holder, asset, nonneg, most⟩
    rw [trusting.lineOf_eq]
    cases held : ledger.trustLines.find? (source.accountID, op.line) with
    | none => exact addNew_ends trusting _ held
    | some line =>
        exact (changeOld_ends trusting _ held).mono (fun _ _ => id)
          (fun _ _ impossible => impossible.elim)

end ChangeTrustOp

namespace AllowTrustOp

variable {op : AllowTrustOp}

theorem toAsset_issuer (op : AllowTrustOp) (sourceID : AccountID)
    (credit : op.toAsset sourceID ≠ .native) :
    (op.toAsset sourceID).getIssuer = sourceID := by
  unfold toAsset at credit ⊢
  cases asset : op.asset with
  | native =>
      rw [asset] at credit
      exact absurd rfl credit
  | assetCode4 _ => rfl
  | assetCode12 _ => rfl

/-- The two ways of setting a flag keep to the known ones. -/
theorem setAuthorized_flags {frame : TrustFrame} (authorize : Bool)
    (known : frame.line.flags &&& ~~~maskTrustLineFlags = 0) :
    (frame.setAuthorized authorize).line.flags &&& ~~~maskTrustLineFlags =
      0 := by
  have own : authorizedFlag &&& ~~~maskTrustLineFlags = 0 := by decide
  unfold TrustFrame.setAuthorized
  cases authorize with
  | false =>
      show frame.line.flags &&& ~~~authorizedFlag &&&
        ~~~maskTrustLineFlags = 0
      rw [BitVec.and_assoc, BitVec.and_comm (~~~authorizedFlag),
        ← BitVec.and_assoc, known]
      exact BitVec.zero_and
  | true =>
      show (frame.line.flags ||| authorizedFlag) &&&
        ~~~maskTrustLineFlags = 0
      rw [BitVec.and_or_distrib_right, known, own]
      rfl

theorem doApply_ends (running : ledger.Running)
    (checked : op.doCheckValid source.accountID = none) :
    Ends (op.doApply source) ledger
      (fun result after => Concludes (result = .success) ledger after)
      (fun _ _ => False) := by
  have credit : op.toAsset source.accountID ≠ .native := by
    have checks := firstOf_eq_none.mp checked
    simpa using checks _ List.mem_cons_self
  have issuer := toAsset_issuer op source.accountID credit
  unfold doApply
  rw [Ends.bind_iff, getHeader_ends, running.version]
  have newer : decide (9 > 2) = true := by decide
  rw [newer, Bool.true_and, Ends.ite_iff]
  refine ⟨fun _ => .failed (by simp) ledger, fun other => ?_⟩
  have holder : op.trustor ≠ (op.toAsset source.accountID).getIssuer := by
    rw [issuer]
    simpa using other
  rw [Ends.ite_iff]
  refine ⟨fun _ => .failed (by simp) ledger, fun _ => ?_⟩
  rw [Ends.ite_iff]
  refine ⟨fun _ => .failed (by simp) ledger, fun _ => ?_⟩
  rw [Ends.bind_iff]
  refine .of_run (running.valid.loadTrustLine op.trustor credit) ?_
  rw [LedgerState.lineOf, if_neg holder]
  cases found : ledger.trustLines.find?
      (op.trustor, op.toAsset source.accountID) with
  | none => exact .failed (by simp) ledger
  | some line =>
      have stored := running.valid.trustLines.found found
      have entry := TrustLineEntry.isValid_iff.mp stored.valid
      let changed : TrustLineEntry :=
        (TrustFrame.setAuthorized ⟨line, false⟩ op.authorize).line
      have storable : changed.isValid = true := by
        rw [TrustLineEntry.isValid_iff]
        exact { entry with
          flags := setAuthorized_flags op.authorize entry.flags }
      have present : ledger.trustLines.contains
          (changed.accountID, changed.asset) = true := by
        show ledger.trustLines.contains (line.accountID, line.asset) = true
        rw [stored.keyed]
        exact Table.contains_eq_true.mpr ⟨line, found⟩
      have kept := running.valid.putLine storable stored.most stored.holder
      simp only [Option.map_some]
      rw [Ends.bind_iff]
      exact .of_run
        (running.valid.storeChangeTrust storable stored.holder present)
        (.succeeded rfl (.of_entries running kept rfl rfl))

end AllowTrustOp

/-! ## Data -/

section Data

theorem LedgerState.Valid.loadData (valid : ledger.Valid) (id : AccountID)
    (dataName : List UInt8) :
    Transactions.loadData id dataName ledger =
      .ok (ledger.data.find? (id, dataName)) ledger := by
  apply Ends.eq_ok
  unfold Transactions.loadData
  rw [Ends.bind_iff, Ends.get_iff]
  cases found : ledger.data.find? (id, dataName) with
  | none => exact ⟨rfl, rfl⟩
  | some row =>
      have stored := valid.data.found found
      have holder : row.accountID = id := congrArg Prod.fst stored.keyed
      have named : row.dataName = dataName :=
        congrArg Prod.snd stored.keyed
      have same : { row with accountID := id, dataName } = row := by
        rw [← holder, ← named]
      simp only [same]
      rw [if_pos stored.valid]
      exact ⟨rfl, rfl⟩

variable {entry : DataEntry}

theorem LedgerState.ValidUpTo.storeAddData (valid : ledger.ValidUpTo off)
    (storable : entry.isValid = true)
    (absent : ledger.data.find? (entry.accountID, entry.dataName) = none) :
    Transactions.storeAddData entry ledger =
      .ok { entry with lastModified := ledger.header.ledgerSeq }
        (ledger.addData entry) := by
  have missing : ledger.data.contains (entry.accountID, entry.dataName) =
      false := by
    rw [Table.contains, absent]
    rfl
  apply Ends.eq_ok
  unfold Transactions.storeAddData
  rw [if_pos storable, Ends.bind_iff, touch_ends]
  refine ⟨fun _ => ?_, fun zero => absurd zero valid.started⟩
  simp only
  rw [Ends.bind_iff, Ends.get_iff, missing]
  exact ⟨rfl, rfl⟩

theorem LedgerState.ValidUpTo.storeChangeData
    (valid : ledger.ValidUpTo off) (storable : entry.isValid = true)
    (present : ledger.data.contains (entry.accountID, entry.dataName) =
      true) :
    Transactions.storeChangeData entry ledger =
      .ok { entry with lastModified := ledger.header.ledgerSeq }
        (ledger.putData entry) := by
  apply Ends.eq_ok
  unfold Transactions.storeChangeData
  rw [if_pos storable, Ends.bind_iff, touch_ends]
  refine ⟨fun _ => ?_, fun zero => absurd zero valid.started⟩
  simp only
  rw [Ends.bind_iff, Ends.get_iff, present]
  exact ⟨rfl, rfl⟩

end Data

namespace ManageDataOp

variable {op : ManageDataOp}

theorem checked_iff :
    op.doCheckValid 9 = none ↔
      0 < op.dataName.length ∧ isString32Valid op.dataName = true := by
  simp only [doCheckValid, firstOf_eq_none, List.forall_mem_cons,
    List.not_mem_nil, false_implies, implies_true, and_true,
    Bool.or_eq_false_iff, decide_eq_false_iff_not, not_lt,
    Bool.not_eq_false']
  constructor
  · intro checks
    exact checks.2
  · intro checks
    exact ⟨by decide, checks⟩

def entryFrom (op : ManageDataOp) (sourceID : AccountID)
    (dataValue : List UInt8) : DataEntry :=
  { accountID := sourceID, dataName := op.dataName, dataValue
    lastModified := 0 }

def addTo (op : ManageDataOp) (source : AccountEntry)
    (dataValue : List UInt8) (ledger : LedgerState) : LedgerState :=
  (ledger.addData (op.entryFrom source.accountID dataValue)).putAccount
    (source.counting (source.numSubEntries + 1))

def dropFrom (op : ManageDataOp) (source : AccountEntry)
    (ledger : LedgerState) : LedgerState :=
  (ledger.putAccount (source.counting (source.numSubEntries - 1))).dropData
    (source.accountID, op.dataName)

/-- The name is one for an entry. -/
structure Naming (op : ManageDataOp) (source : AccountEntry)
    (ledger : LedgerState) : Prop where
  running : ledger.Running
  found : ledger.accounts.find? source.accountID = some source
  named : 0 < op.dataName.length
  dataName : isString32Valid op.dataName = true

namespace Naming

variable (naming : op.Naming source ledger)

include naming

theorem entry_valid (dataValue : List UInt8) :
    (op.entryFrom source.accountID dataValue).isValid = true := by
  rw [DataEntry.isValid_iff]
  exact ⟨Nat.zero_le _, naming.named, naming.dataName⟩

theorem added_valid (dataValue : List UInt8)
    (absent : ledger.data.find? (source.accountID, op.dataName) = none) :
    (ledger.addData (op.entryFrom source.accountID dataValue)).ValidUpTo
      (fun id => 0 + LedgerState.one source.accountID id) :=
  naming.running.valid.addData absent (naming.entry_valid dataValue)
    (Table.contains_eq_true.mpr ⟨source, naming.found⟩)

theorem add_applied (dataValue : List UInt8)
    (few : source.numSubEntries < int32Max)
    (absent : ledger.data.find? (source.accountID, op.dataName) = none) :
    Applied ledger (op.addTo source dataValue ledger) := by
  have valid : (op.addTo source dataValue ledger).Valid := by
    refine (naming.added_valid dataValue absent).recount naming.found ?_
      few ?_
    · intro id other
      rw [one_other other, add_zero]
    · rw [one_self]
      push_cast
      omega
  have row : ledger.accounts.find?
      (source.counting (source.numSubEntries + 1)).accountID = some source :=
    naming.found
  exact .of_account naming.running valid row rfl rfl rfl rfl

theorem drop_pos {entry : DataEntry}
    (held : ledger.data.find? (source.accountID, op.dataName) =
      some entry) : 0 < source.numSubEntries := by
  have counted := naming.running.valid.counted.found naming.found
  have less := LedgerState.owned_dropData held source.accountID
  have nonneg := (ledger.dropData (source.accountID, op.dataName)).owned_nonneg
    source.accountID
  rw [one_self] at less
  omega

/-- The source that counts one less, while the entry is still there. -/
theorem uncounted_valid {entry : DataEntry}
    (held : ledger.data.find? (source.accountID, op.dataName) =
      some entry) :
    (ledger.putAccount
      (source.counting (source.numSubEntries - 1))).ValidUpTo
        (LedgerState.one source.accountID) := by
  have positive := naming.drop_pos held
  have stored := naming.running.stored naming.found
  have counted := naming.running.valid.counted.found naming.found
  have small := (AccountEntry.isValid_iff.mp stored.valid).numSubEntries
  refine naming.running.valid.putAccount
    (AccountEntry.isValid_count stored.valid (by omega)) stored.most ?_ ?_
  · intro id other
    exact one_other other
  · show ((source.numSubEntries - 1 : ℕ) : ℤ) +
      LedgerState.one source.accountID source.accountID =
        source.signers.length + ledger.owned source.accountID
    rw [one_self]
    omega

theorem drop_applied {entry : DataEntry}
    (held : ledger.data.find? (source.accountID, op.dataName) =
      some entry) : Applied ledger (op.dropFrom source ledger) := by
  have dropped := (naming.uncounted_valid held).dropData held
  have valid : (op.dropFrom source ledger).Valid := by
    have zero : (fun id => LedgerState.one source.accountID id -
        LedgerState.one source.accountID id) = fun _ => 0 := by
      funext id
      omega
    show (op.dropFrom source ledger).ValidUpTo (fun _ => 0)
    rw [← zero]
    exact dropped
  have row : ledger.accounts.find?
      (source.counting (source.numSubEntries - 1)).accountID = some source :=
    naming.found
  exact .of_account naming.running valid row rfl rfl rfl rfl

end Naming

theorem putValue_ends (naming : op.Naming source ledger)
    (dataValue : List UInt8) :
    Ends (op.putValue source
        (ledger.data.find? (source.accountID, op.dataName)) dataValue) ledger
      (fun result after => Concludes (result = .success) ledger after)
      (fun failure _ => ∃ what, failure = .runtimeError what) := by
  have valid := naming.running.valid
  unfold putValue
  cases held : ledger.data.find? (source.accountID, op.dataName) with
  | none =>
      simp only
      rw [Ends.bind_iff]
      have small := (AccountEntry.isValid_iff.mp
        (naming.running.stored naming.found).valid).numSubEntries
      refine addNumEntries_succ rfl small (.failed (by simp) ledger)
        fun few => ?_
      have added := naming.added_valid dataValue held
      have storable := AccountEntry.isValid_count
        (naming.running.stored naming.found).valid few
      have present : (ledger.addData (op.entryFrom source.accountID
          dataValue)).accounts.contains source.accountID = true :=
        Table.contains_eq_true.mpr ⟨source, naming.found⟩
      simp only
      rw [Ends.bind_iff]
      refine .of_run (valid.storeAddData (naming.entry_valid dataValue)
        held) ?_
      rw [Ends.bind_iff]
      exact .of_run (added.storeChangeAccount storable present)
        (.succeeded rfl (naming.add_applied dataValue few held))
  | some entry =>
      have stored := valid.data.found held
      let changed : DataEntry := { entry with dataValue }
      have storable : changed.isValid = true := by
        rw [DataEntry.isValid_iff]
        exact { DataEntry.isValid_iff.mp stored.valid with }
      have present : ledger.data.contains
          (changed.accountID, changed.dataName) = true := by
        show ledger.data.contains (entry.accountID, entry.dataName) = true
        rw [stored.keyed]
        exact Table.contains_eq_true.mpr ⟨entry, held⟩
      simp only
      rw [Ends.bind_iff]
      exact .of_run (valid.storeChangeData storable present)
        (.succeeded rfl
          (.of_entries naming.running (valid.putData storable) rfl rfl))

theorem eraseValue_ends (naming : op.Naming source ledger) :
    Ends (eraseValue source
        (ledger.data.find? (source.accountID, op.dataName))) ledger
      (fun result after => Concludes (result = .success) ledger after)
      (fun failure _ => ∃ what, failure = .runtimeError what) := by
  have valid := naming.running.valid
  unfold eraseValue
  cases held : ledger.data.find? (source.accountID, op.dataName) with
  | none => exact .failed (by simp) ledger
  | some entry =>
      have stored := valid.data.found held
      have holder : entry.accountID = source.accountID :=
        congrArg Prod.fst stored.keyed
      have named : entry.dataName = op.dataName :=
        congrArg Prod.snd stored.keyed
      have account := naming.running.stored naming.found
      have positive := naming.drop_pos held
      have small := (AccountEntry.isValid_iff.mp account.valid).numSubEntries
      have storable := AccountEntry.isValid_count account.valid
        (show source.numSubEntries - 1 ≤ int32Max by omega)
      have present : ledger.accounts.contains source.accountID = true :=
        Table.contains_eq_true.mpr ⟨source, naming.found⟩
      simp only
      rw [holder, named, Ends.bind_iff]
      refine .of_run (AccountEntry.addNumEntries_pred account.valid positive)
        ?_
      rw [Ends.bind_iff]
      refine .of_run (valid.storeChangeAccount storable present) ?_
      rw [Ends.bind_iff]
      exact .succeeded rfl (naming.drop_applied held)

theorem doApply_ends (running : ledger.Running)
    (found : ledger.accounts.find? source.accountID = some source)
    (checked : op.doCheckValid 9 = none) :
    Ends (op.doApply source) ledger
      (fun result after => Concludes (result = .success) ledger after)
      (fun failure _ => ∃ what, failure = .runtimeError what) := by
  obtain ⟨named, dataName⟩ := checked_iff.mp checked
  have naming : op.Naming source ledger := ⟨running, found, named, dataName⟩
  unfold doApply
  rw [Ends.bind_iff, getHeader_ends, running.version, Ends.ite_iff]
  refine ⟨fun old => absurd old (by decide), fun _ => ?_⟩
  rw [Ends.bind_iff]
  refine .of_run (running.valid.loadData source.accountID op.dataName) ?_
  cases op.dataValue with
  | none => exact eraseValue_ends naming
  | some dataValue => exact putValue_ends naming dataValue

end ManageDataOp

end StellarCore.Transactions
