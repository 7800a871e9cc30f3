import StellarCore.Transactions.MinBalance
import StellarCore.Transactions.Moves

/-!
# Changing balances

On a valid ledger an account or a trust line is loaded, its balance is changed
and it is stored again.  What results is a valid ledger and one move.
-/

namespace StellarCore.Transactions

open StellarCore.Lib

/-! ## What an account can send and receive -/

namespace LedgerState

/-- What `canSellAtMost` finds. -/
def sendable (ledger : LedgerState) (id : AccountID) (asset : Asset) : ℤ :=
  if asset = .native then
    match ledger.accounts.find? id with
    | none => 0
    | some a => a.getBalanceAboveReserve ledger.header
  else
    match ledger.lineOf id asset with
    | none => 0
    | some trustLine =>
        if trustLine.isAuthorized then trustLine.line.balance else 0

/-- What a trust line still takes; a native balance is not looked at. -/
def receivable (ledger : LedgerState) (id : AccountID) (asset : Asset) : ℤ :=
  if asset = .native then
    int64Max
  else
    match ledger.lineOf id asset with
    | none => 0
    | some trustLine => trustLine.getMaxAmountReceive

/-- The trust line as `loadLine` returns it. -/
def lineFor (ledger : LedgerState) (id : AccountID) (asset : Asset) :
    Option TrustFrame :=
  if asset = .native then none else ledger.lineOf id asset

end LedgerState

section Limits

variable {ledger : LedgerState} {id : AccountID} {asset : Asset}

theorem LedgerState.Valid.loadLine (valid : ledger.Valid) (id : AccountID)
    (asset : Asset) :
    loadLine id asset ledger = .ok (ledger.lineFor id asset) ledger := by
  unfold StellarCore.Transactions.loadLine LedgerState.lineFor
  by_cases native : asset = .native
  · rw [if_pos native, if_pos native]
    rfl
  · rw [if_neg native, if_neg native]
    exact valid.loadTrustLine id native

/-- What the trust line of an account is: that of an issuer, or a row. -/
theorem LedgerState.lineOf_eq_some {frame : TrustFrame}
    (found : ledger.lineOf id asset = some frame) :
    (id = asset.getIssuer ∧ frame = .createIssuerFrame asset) ∨
      (id ≠ asset.getIssuer ∧
        ledger.trustLines.find? (id, asset) = some frame.line ∧
        frame.mIsIssuer = false) := by
  unfold LedgerState.lineOf at found
  by_cases issuer : id = asset.getIssuer
  · rw [if_pos issuer, Option.some_inj] at found
    exact .inl ⟨issuer, found.symm⟩
  · rw [if_neg issuer, Option.map_eq_some_iff] at found
    obtain ⟨line, row, rfl⟩ := found
    exact .inr ⟨issuer, row, rfl⟩

theorem TrustFrame.createIssuerFrame_valid (credit : asset ≠ .native)
    (valid : asset.isAssetValid = true) :
    (TrustFrame.createIssuerFrame asset).line.isValid = true := by
  rw [TrustLineEntry.isValid_iff]
  have most : 0 < int64Max := by decide
  have flags : authorizedFlag &&& ~~~maskTrustLineFlags = 0 := by decide
  exact ⟨Nat.zero_le _, credit, valid, most.le, most, le_refl _, flags⟩

theorem LedgerState.Valid.lineOf_valid (valid : ledger.Valid)
    {frame : TrustFrame} (credit : asset ≠ .native)
    (assetValid : asset.isAssetValid = true)
    (found : ledger.lineOf id asset = some frame) :
    frame.line.isValid = true := by
  obtain ⟨_, rfl⟩ | ⟨_, row, _⟩ := LedgerState.lineOf_eq_some found
  · exact TrustFrame.createIssuerFrame_valid credit assetValid
  · exact (valid.trustLines.found row).valid

theorem LedgerState.Valid.loadTrustLineIssuer (valid : ledger.Valid)
    (id : AccountID) (credit : asset ≠ .native) :
    loadTrustLineIssuer id asset ledger =
      .ok (ledger.lineOf id asset, ledger.accounts.find? asset.getIssuer)
        ledger := by
  unfold Transactions.loadTrustLineIssuer
  rw [run_bind, valid.loadTrustLine id credit]
  simp only
  rw [run_bind, valid.loadAccount]
  rfl

theorem LedgerState.Valid.sendable_bounds (valid : ledger.Valid)
    (id : AccountID) (asset : Asset) :
    0 ≤ ledger.sendable id asset ∧ ledger.sendable id asset ≤ int64Max := by
  have none : (0 : ℤ) ≤ 0 ∧ (0 : ℤ) ≤ int64Max := by decide
  unfold LedgerState.sendable
  split
  · split
    case h_1 => exact none
    case h_2 a found =>
        have most := (valid.accounts.found found).most
        have reserve := getMinBalance_nonneg ledger.header a.numSubEntries
        unfold AccountEntry.getBalanceAboveReserve
        omega
  · split
    case h_1 => exact none
    case h_2 frame found =>
        split
        case isFalse => exact none
        case isTrue =>
            obtain ⟨_, rfl⟩ | ⟨_, row, _⟩ :=
              LedgerState.lineOf_eq_some found
            · exact ⟨none.2, le_refl _⟩
            · have stored := valid.trustLines.found row
              have holds := TrustLineEntry.isValid_iff.mp stored.valid
              have most := stored.most
              have nonneg := holds.balance
              have within := holds.within
              omega

theorem LedgerState.Valid.receivable_bounds (valid : ledger.Valid)
    (id : AccountID) (asset : Asset) :
    0 ≤ ledger.receivable id asset ∧
      ledger.receivable id asset ≤ int64Max := by
  have none : (0 : ℤ) ≤ 0 ∧ (0 : ℤ) ≤ int64Max := by decide
  unfold LedgerState.receivable
  split
  · exact ⟨by decide, le_refl _⟩
  · split
    case h_1 => exact none
    case h_2 frame found =>
        obtain ⟨_, rfl⟩ | ⟨_, row, real⟩ := LedgerState.lineOf_eq_some found
        · exact ⟨none.2, le_refl _⟩
        · have stored := valid.trustLines.found row
          have holds := TrustLineEntry.isValid_iff.mp stored.valid
          have most := stored.most
          have nonneg := holds.balance
          have within := holds.within
          unfold TrustFrame.getMaxAmountReceive
          rw [real]
          split
          · decide
          · split
            · omega
            · exact none

end Limits

/-! ## Changing a balance -/

section Adjust

variable {ledger : LedgerState} {off : AccountID → ℤ} {id : AccountID}
  {asset : Asset} {delta : ℤ}

/-- What `adjustBalance` stores: nothing where nothing changes. -/
def LedgerState.adjust (ledger : LedgerState) (id : AccountID)
    (asset : Asset) (delta : ℤ) : LedgerState :=
  if delta = 0 then ledger else ledger.credit id asset delta

theorem LedgerState.ValidUpTo.adjust (valid : ledger.ValidUpTo off)
    (can : delta ≠ 0 → ledger.CanAdjust id asset delta) :
    (ledger.adjust id asset delta).ValidUpTo off := by
  unfold LedgerState.adjust
  split
  case isTrue => exact valid
  case isFalse changes => exact valid.credit (can changes)

theorem LedgerState.ValidUpTo.moved_adjust (valid : ledger.ValidUpTo off)
    (can : delta ≠ 0 → ledger.CanAdjust id asset delta) :
    Moved [⟨id, asset, delta⟩] ledger (ledger.adjust id asset delta) := by
  unfold LedgerState.adjust
  split
  case isTrue zero =>
      subst zero
      exact .idle (Move.amountOf_zero id asset)
  case isFalse changes => exact valid.moved_credit (can changes)

theorem addBalance_eq {balance maxBalance : ℤ} (holds : 0 ≤ balance)
    (limited : 0 ≤ maxBalance) (changes : delta ≠ 0) :
    addBalance balance delta maxBalance ledger =
      .ok (if 0 ≤ balance + delta ∧ balance + delta ≤ maxBalance
        then some (balance + delta) else none) ledger := by
  apply Ends.eq_ok
  rw [addBalance_ends holds limited]
  simp only [changes, false_or, and_self]

theorem AccountEntry.addBalance_eq {a : AccountEntry} (holds : 0 ≤ a.balance)
    (changes : delta ≠ 0) :
    a.addBalance delta ledger =
      .ok (if 0 ≤ a.balance + delta ∧ a.balance + delta ≤ int64Max
        then some { a with balance := a.balance + delta } else none)
        ledger := by
  unfold AccountEntry.addBalance
  rw [run_bind, Transactions.addBalance_eq holds (by decide) changes]
  simp only
  split
  · rfl
  · rfl

theorem TrustFrame.addBalance_eq {frame : TrustFrame}
    (stored : frame.line.isValid = true) (changes : delta ≠ 0)
    (real : frame.mIsIssuer = false) (authorized : frame.isAuthorized = true) :
    frame.addBalance delta ledger =
      .ok (if 0 ≤ frame.line.balance + delta ∧
          frame.line.balance + delta ≤ frame.line.limit
        then some
          { frame with
            line := { frame.line with balance := frame.line.balance + delta } }
        else none) ledger := by
  have holds := TrustLineEntry.isValid_iff.mp stored
  unfold TrustFrame.addBalance
  simp only [real, Bool.false_or, decide_eq_true_eq, if_neg changes,
    authorized, Bool.not_true, Bool.false_eq_true, ↓reduceIte]
  rw [run_bind, Transactions.addBalance_eq holds.balance holds.limit.le
    changes]
  simp only
  split
  · rfl
  · rfl

theorem TrustFrame.addBalance_issuer {frame : TrustFrame}
    (issuer : frame.mIsIssuer = true) :
    frame.addBalance delta ledger = .ok (some frame) ledger := by
  unfold TrustFrame.addBalance
  rw [issuer, Bool.true_or, if_pos rfl]
  rfl

theorem storeChangeTrust_issuer {frame : TrustFrame}
    (storable : frame.line.isValid = true)
    (issuer : frame.mIsIssuer = true) :
    storeChangeTrust frame ledger = .ok frame ledger := by
  unfold storeChangeTrust
  rw [if_pos storable, if_pos issuer]
  rfl

theorem LedgerState.credit_accounts (credit : asset ≠ .native) :
    (ledger.credit id asset delta).accounts = ledger.accounts := by
  rw [LedgerState.credit, if_neg credit]
  split
  · rfl
  · rfl

/-- The balance of an account is changed and stored; the frame that is left in
memory is the row. -/
theorem LedgerState.ValidUpTo.payAccount (valid : ledger.ValidUpTo off)
    {a : AccountEntry} (found : ledger.accounts.find? id = some a)
    (changes : delta ≠ 0)
    (fits : 0 ≤ a.balance + delta ∧ a.balance + delta ≤ int64Max) :
    ∃ paid row, a.addBalance delta ledger = .ok (some paid) ledger ∧
      Transactions.storeChangeAccount paid ledger =
        .ok row (ledger.credit id .native delta) ∧
      (ledger.credit id .native delta).accounts.find? id = some row := by
  have stored := valid.accounts.found found
  have storable := AccountEntry.isValid_balance stored.valid fits.1
  have present : ledger.accounts.contains a.accountID = true :=
    Table.contains_eq_true.mpr ⟨a, stored.keyed.symm ▸ found⟩
  rw [LedgerState.credit, if_pos rfl, found]
  refine ⟨_, _, ?_, valid.storeChangeAccount storable present, ?_⟩
  · rw [AccountEntry.addBalance_eq
      (AccountEntry.isValid_iff.mp stored.valid).balance changes,
      if_pos fits]
  · simp [LedgerState.putAccount, stored.keyed, found]

theorem LedgerState.ValidUpTo.overpaid (valid : ledger.ValidUpTo off)
    {a : AccountEntry} (found : ledger.accounts.find? id = some a)
    (changes : delta ≠ 0)
    (exceeds : ¬ (0 ≤ a.balance + delta ∧ a.balance + delta ≤ int64Max)) :
    a.addBalance delta ledger = .ok none ledger := by
  have stored := valid.accounts.found found
  rw [AccountEntry.addBalance_eq
    (AccountEntry.isValid_iff.mp stored.valid).balance changes,
    if_neg exceeds]

/-- The same for a trust line, where the line of an issuer is not stored. -/
theorem LedgerState.ValidUpTo.payLine (valid : ledger.ValidUpTo off)
    {frame : TrustFrame} (found : ledger.lineOf id asset = some frame)
    (credit : asset ≠ .native) (changes : delta ≠ 0)
    (can : ledger.CanAdjust id asset delta) :
    ∃ paid row, frame.addBalance delta ledger = .ok (some paid) ledger ∧
      Transactions.storeChangeTrust paid ledger =
        .ok row (ledger.credit id asset delta) := by
  cases can with
  | native _ _ => exact absurd rfl credit
  | issuer _ assetValid issuer =>
      subst issuer
      rw [LedgerState.lineOf, if_pos rfl, Option.some_inj] at found
      subst found
      rw [valid.credit_issuer credit]
      exact ⟨_, _, TrustFrame.addBalance_issuer rfl, storeChangeTrust_issuer
        (TrustFrame.createIssuerFrame_valid credit assetValid) rfl⟩
  | line notNative row authorized fits =>
      clear notNative
      rename_i line
      have stored := valid.trustLines.found row
      have holder : line.accountID = id := congrArg Prod.fst stored.keyed
      have held : line.asset = asset := congrArg Prod.snd stored.keyed
      subst holder
      subst held
      rw [LedgerState.lineOf, if_neg stored.holder, row, Option.map_some,
        Option.some_inj] at found
      subst found
      have present : ledger.trustLines.contains
          (line.accountID, line.asset) = true :=
        Table.contains_eq_true.mpr ⟨line, row⟩
      have trusted : (TrustFrame.mk line false).isAuthorized = true := by
        simpa [TrustFrame.isAuthorized] using authorized
      have storable :=
        TrustLineEntry.isValid_balance stored.valid fits.1 fits.2
      rw [LedgerState.credit, if_neg credit, row]
      refine ⟨_, _, ?_,
        valid.storeChangeTrust storable stored.holder present⟩
      rw [TrustFrame.addBalance_eq stored.valid changes rfl trusted,
        if_pos fits]

theorem LedgerState.ValidUpTo.overdrawn (valid : ledger.ValidUpTo off)
    {frame : TrustFrame} (found : ledger.lineOf id asset = some frame)
    (credit : asset ≠ .native) (assetValid : asset.isAssetValid = true)
    (changes : delta ≠ 0) (authorized : frame.isAuthorized = true)
    (cannot : ¬ ledger.CanAdjust id asset delta) :
    frame.addBalance delta ledger = .ok none ledger := by
  obtain ⟨issuer, _⟩ | ⟨_, row, real⟩ := LedgerState.lineOf_eq_some found
  · exact absurd (.issuer credit assetValid issuer) cannot
  · have stored := valid.trustLines.found row
    have exceeds : ¬ (0 ≤ frame.line.balance + delta ∧
        frame.line.balance + delta ≤ frame.line.limit) := by
      intro fits
      refine cannot (.line credit row ?_ fits)
      simpa [TrustFrame.isAuthorized] using authorized
    rw [TrustFrame.addBalance_eq stored.valid changes real authorized,
      if_neg exceeds]

theorem LedgerState.ValidUpTo.adjustBalance (valid : ledger.ValidUpTo off)
    {a : AccountEntry} (found : ledger.accounts.find? id = some a)
    (can : delta ≠ 0 → ledger.CanAdjust id asset delta) :
    ∃ a', adjustBalance asset a (ledger.lineFor id asset) delta ledger =
        .ok (some a') (ledger.adjust id asset delta) ∧
      (ledger.adjust id asset delta).accounts.find? id = some a' := by
  unfold StellarCore.Transactions.adjustBalance LedgerState.adjust
  by_cases zero : delta = 0
  · rw [if_pos zero, if_pos zero]
    exact ⟨a, rfl, found⟩
  rw [if_neg zero, if_neg zero]
  by_cases native : asset = .native
  · subst native
    have fits : 0 ≤ a.balance + delta ∧ a.balance + delta ≤ int64Max := by
      cases can zero with
      | native row fits =>
          rw [found, Option.some_inj] at row
          exact row ▸ fits
      | issuer credit _ _ => exact absurd rfl credit
      | line credit _ _ _ => exact absurd rfl credit
    obtain ⟨paid, row, added, stored, found'⟩ :=
      valid.payAccount found zero fits
    refine ⟨row, ?_, found'⟩
    rw [if_pos rfl, run_bind, added]
    simp only
    rw [run_bind, stored]
    rfl
  · have holds : ∃ frame, ledger.lineOf id asset = some frame := by
      cases can zero with
      | native _ _ => exact absurd rfl native
      | issuer _ _ issuer =>
          exact ⟨_, by rw [LedgerState.lineOf, if_pos issuer]⟩
      | line _ row _ _ =>
          unfold LedgerState.lineOf
          split
          · exact ⟨_, rfl⟩
          · rw [row]
            exact ⟨_, rfl⟩
    obtain ⟨frame, line⟩ := holds
    obtain ⟨paid, row, added, stored⟩ :=
      valid.payLine line native zero (can zero)
    refine ⟨a, ?_, ?_⟩
    · rw [if_neg native, LedgerState.lineFor, if_neg native, line]
      simp only
      rw [run_bind, added]
      simp only
      rw [run_bind, stored]
      rfl
    · rw [LedgerState.credit_accounts native]
      exact found

theorem LedgerState.Valid.canReceive (valid : ledger.Valid)
    (credit : asset ≠ .native) (assetValid : asset.isAssetValid = true)
    (positive : 0 < delta) (within : delta ≤ ledger.receivable id asset) :
    ledger.CanAdjust id asset delta := by
  rw [LedgerState.receivable, if_neg credit] at within
  cases found : ledger.lineOf id asset with
  | none =>
      rw [found] at within
      exact absurd within (not_le.mpr positive)
  | some frame =>
      rw [found] at within
      obtain ⟨issuer, rfl⟩ | ⟨_, row, real⟩ := LedgerState.lineOf_eq_some found
      · exact .issuer credit assetValid issuer
      · have stored := TrustLineEntry.isValid_iff.mp
          (valid.trustLines.found row).valid
        simp only [TrustFrame.getMaxAmountReceive, real, Bool.false_eq_true,
          ↓reduceIte] at within
        by_cases authorized : frame.isAuthorized = true
        · rw [if_pos authorized] at within
          have nonneg := stored.balance
          refine .line credit row ?_ (by omega)
          simpa [TrustFrame.isAuthorized] using authorized
        · rw [if_neg authorized] at within
          exact absurd within (not_le.mpr positive)

theorem LedgerState.Valid.canSend (valid : ledger.Valid)
    (assetValid : asset.isAssetValid = true) (positive : 0 < delta)
    (within : delta ≤ ledger.sendable id asset) :
    ledger.CanAdjust id asset (-delta) := by
  unfold LedgerState.sendable at within
  by_cases native : asset = .native
  · subst native
    rw [if_pos rfl] at within
    cases found : ledger.accounts.find? id with
    | none =>
        rw [found] at within
        exact absurd within (not_le.mpr positive)
    | some a =>
        rw [found] at within
        have most := (valid.accounts.found found).most
        have reserve := getMinBalance_nonneg ledger.header a.numSubEntries
        simp only [AccountEntry.getBalanceAboveReserve] at within
        exact .native found (by omega)
  · rw [if_neg native] at within
    cases found : ledger.lineOf id asset with
    | none =>
        rw [found] at within
        exact absurd within (not_le.mpr positive)
    | some frame =>
        rw [found] at within
        obtain ⟨issuer, rfl⟩ | ⟨_, row, _⟩ := LedgerState.lineOf_eq_some found
        · exact .issuer native assetValid issuer
        · have stored := TrustLineEntry.isValid_iff.mp
            (valid.trustLines.found row).valid
          by_cases authorized : frame.isAuthorized = true
          · simp only [authorized, ↓reduceIte] at within
            have limited := stored.within
            refine .line native row ?_ (by omega)
            simpa [TrustFrame.isAuthorized] using authorized
          · simp only [if_neg authorized] at within
            exact absurd within (not_le.mpr positive)

/-- Where the balances are the same, so is what they can take. -/
theorem LedgerState.CanAdjust.of_same {after : LedgerState}
    (can : ledger.CanAdjust id asset delta)
    (accounts : asset = .native → ∀ a, ledger.accounts.find? id = some a →
      ∃ a', after.accounts.find? id = some a' ∧ a'.balance = a.balance)
    (lines : after.trustLines.find? (id, asset) =
      ledger.trustLines.find? (id, asset)) :
    after.CanAdjust id asset delta := by
  cases can with
  | native found fits =>
      obtain ⟨a', found', balance⟩ := accounts rfl _ found
      exact .native found' (balance ▸ fits)
  | issuer credit assetValid issuer => exact .issuer credit assetValid issuer
  | line credit found authorized fits =>
      exact .line credit (lines.trans found) authorized fits

theorem LedgerState.ValidUpTo.credit_lines_other
    (valid : ledger.ValidUpTo off) {other : Asset} (apart : asset ≠ other) :
    (ledger.credit id asset delta).trustLines.find? (id, other) =
      ledger.trustLines.find? (id, other) := by
  unfold LedgerState.credit
  split
  · split
    · rfl
    · rfl
  · split
    · rfl
    · rename_i line found
      have held : line.asset = asset :=
        congrArg Prod.snd (valid.trustLines.found found).keyed
      have different : (id, other) ≠ (line.accountID, line.asset) := by
        intro same
        exact apart (held.symm.trans (congrArg Prod.snd same).symm)
      simp [LedgerState.putLine, different]

theorem LedgerState.ValidUpTo.adjust_lines_other
    (valid : ledger.ValidUpTo off) {other : Asset} (apart : asset ≠ other) :
    (ledger.adjust id asset delta).trustLines.find? (id, other) =
      ledger.trustLines.find? (id, other) := by
  unfold LedgerState.adjust
  split
  · rfl
  · exact valid.credit_lines_other apart

theorem LedgerState.ValidUpTo.canAdjust_other (valid : ledger.ValidUpTo off)
    {other : Asset} {change : ℤ} (apart : asset ≠ other)
    (can : ledger.CanAdjust id other change) :
    (ledger.adjust id asset delta).CanAdjust id other change := by
  refine can.of_same ?_ (valid.adjust_lines_other apart)
  intro native a found
  rw [native] at apart
  refine ⟨a, ?_, rfl⟩
  unfold LedgerState.adjust
  split
  · exact found
  · rw [LedgerState.credit_accounts apart]
    exact found

theorem LedgerState.ValidUpTo.lineFor_other (valid : ledger.ValidUpTo off)
    {other : Asset} (apart : asset ≠ other) :
    (ledger.adjust id asset delta).lineFor id other =
      ledger.lineFor id other := by
  unfold LedgerState.lineFor LedgerState.lineOf
  rw [valid.adjust_lines_other apart]

end Adjust

end StellarCore.Transactions
