import StellarCore.Transactions.BookSettlement
import StellarCore.Transactions.EntryUpdates
import StellarCore.Transactions.ManageOffer

/-!
# What an offer may exchange

A manage-offer operation on a valid ledger, up to the point where offers are
crossed: the trust lines it needs, the offer it builds, and what it may sell
and buy.
-/

namespace StellarCore.Transactions

open StellarCore.Lib

namespace ManageOfferOp

variable {computePrice : Price → ℚ} {ledger : LedgerState}
  {op : ManageOfferOp} {sourceID : AccountID} {source : AccountEntry}
  {asset : Asset}

/-- The code of a failure. -/
def Fails (result : ManageOfferResult) : Prop :=
  ∀ claimed effect, result ≠ .success claimed effect

/-- What `doCheckValid` and the types of the fields promise. -/
structure Checked (op : ManageOfferOp) : Prop where
  selling : op.selling.isAssetValid = true
  buying : op.buying.isAssetValid = true
  apart : op.selling ≠ op.buying
  amount : 0 ≤ op.amount ∧ op.amount ≤ int64Max
  price : op.price.Positive
  some : op.creatingNewOffer = true → 0 < op.amount

theorem Checked.of_doCheckValid
    (checked : op.doCheckValid 9 = none)
    (most : op.amount ≤ int64Max)
    (price : op.price.n ≤ int32Max ∧ op.price.d ≤ int32Max) :
    op.Checked := by
  simp only [doCheckValid, firstOf_eq_none, List.forall_mem_cons,
    Bool.or_eq_false_iff, decide_eq_false_iff_not, not_le, not_lt,
    Bool.not_eq_false'] at checked
  obtain ⟨⟨selling, buying⟩, apart, ⟨⟨amount, d⟩, n⟩, some, _⟩ := checked
  refine ⟨selling, buying, apart, ⟨amount, most⟩, ⟨⟨n, price.1⟩,
    ⟨d, price.2⟩⟩, ?_⟩
  intro creating
  unfold creatingNewOffer at creating
  rw [creating] at some
  have changes : op.amount ≠ 0 := by simpa using some
  omega

/-! ## The trust lines -/

/-- The trust line for one side of the trade; there is none for the native
asset. -/
structure LineReady (ledger : LedgerState) (sourceID : AccountID)
    (asset : Asset) (line : Option TrustFrame) : Prop where
  same : line = ledger.lineFor sourceID asset
  trusted : asset ≠ .native → ∃ frame, line = some frame ∧
    ledger.lineOf sourceID asset = some frame ∧ frame.isAuthorized = true

theorem LineReady.native (native : asset = .native) :
    LineReady ledger sourceID asset none where
  same := by rw [LedgerState.lineFor, if_pos native]
  trusted credit := absurd native credit

theorem LineReady.credit {frame : TrustFrame} (credit : asset ≠ .native)
    (found : ledger.lineOf sourceID asset = some frame)
    (authorized : frame.isAuthorized = true) :
    LineReady ledger sourceID asset (some frame) where
  same := by rw [LedgerState.lineFor, if_neg credit, found]
  trusted _ := ⟨frame, rfl, found, authorized⟩

theorem loadSheepLine_attempts (valid : ledger.Valid) (checked : op.Checked)
    (sourceID : AccountID) :
    Attempts (op.loadSheepLine sourceID) ledger
      (fun line after => after = ledger ∧
        LineReady ledger sourceID op.selling line)
      (fun result _ => Fails result) (fun _ _ => False) := by
  unfold loadSheepLine
  rw [Attempts.ite_iff]
  refine ⟨fun native => ⟨rfl, .native native⟩, fun credit => ?_⟩
  rw [Attempts.bind_iff, Attempts.lift_iff]
  refine .of_run (valid.loadTrustLineIssuer sourceID credit) ?_
  simp only
  rw [Attempts.ite_iff]
  refine ⟨fun _ _ _ impossible => (by cases impossible), fun _ => ?_⟩
  cases found : ledger.lineOf sourceID op.selling with
  | none => exact fun _ _ impossible => by cases impossible
  | some frame =>
      have storable := valid.lineOf_valid credit checked.selling found
      have balance : frame.getBalance ledger =
          .ok frame.line.balance ledger := by
        rw [TrustFrame.getBalance, if_pos storable]
        rfl
      simp only
      rw [Attempts.bind_iff, Attempts.lift_iff]
      refine .of_run balance ?_
      rw [Attempts.ite_iff]
      refine ⟨fun _ _ _ impossible => (by cases impossible), fun _ => ?_⟩
      rw [Attempts.ite_iff]
      refine ⟨fun _ _ _ impossible => (by cases impossible), ?_⟩
      intro trusted
      exact ⟨rfl, .credit credit found (by simpa using trusted)⟩

theorem loadWheatLine_attempts (valid : ledger.Valid) (sourceID : AccountID) :
    Attempts (op.loadWheatLine sourceID) ledger
      (fun line after => after = ledger ∧
        LineReady ledger sourceID op.buying line)
      (fun result _ => Fails result) (fun _ _ => False) := by
  unfold loadWheatLine
  rw [Attempts.ite_iff]
  refine ⟨fun native => ⟨rfl, .native native⟩, fun credit => ?_⟩
  rw [Attempts.bind_iff, Attempts.lift_iff]
  refine .of_run (valid.loadTrustLineIssuer sourceID credit) ?_
  simp only
  rw [Attempts.ite_iff]
  refine ⟨fun _ _ _ impossible => (by cases impossible), fun _ => ?_⟩
  cases found : ledger.lineOf sourceID op.buying with
  | none => exact fun _ _ impossible => by cases impossible
  | some frame =>
      simp only
      rw [Attempts.ite_iff]
      refine ⟨fun _ _ _ impossible => (by cases impossible), ?_⟩
      intro trusted
      exact ⟨rfl, .credit credit found (by simpa using trusted)⟩

/-- The trust lines are ready unless the offer is only to be deleted. -/
def LinesReady (ledger : LedgerState) (op : ManageOfferOp)
    (sourceID : AccountID) (lines : SourceLines) : Prop :=
  op.amount ≠ 0 → LineReady ledger sourceID op.selling lines.sheep ∧
    LineReady ledger sourceID op.buying lines.wheat

theorem checkOfferValid_attempts (valid : ledger.Valid)
    (checked : op.Checked) (sourceID : AccountID) :
    Attempts (op.checkOfferValid sourceID) ledger
      (fun lines after => after = ledger ∧
        LinesReady ledger op sourceID lines)
      (fun result _ => Fails result) (fun _ _ => False) := by
  unfold checkOfferValid
  rw [Attempts.ite_iff]
  refine ⟨fun zero => ⟨rfl, fun changes => absurd zero changes⟩, ?_⟩
  intro _
  rw [Attempts.bind_iff]
  refine (loadSheepLine_attempts valid checked sourceID).mono ?_
    (fun _ _ => id) (fun _ _ => id)
  rintro sheep _ ⟨rfl, sheepReady⟩
  rw [Attempts.bind_iff]
  refine (loadWheatLine_attempts valid sourceID).mono ?_ (fun _ _ => id)
    (fun _ _ => id)
  rintro wheat _ ⟨rfl, wheatReady⟩
  exact ⟨rfl, fun _ => ⟨sheepReady, wheatReady⟩⟩

/-! ## The offer -/

/-- The offer that is to be stored, with an amount still to be filled in. -/
structure OfferReady (ledger : LedgerState) (op : ManageOfferOp)
    (sourceID : AccountID) (offer : OfferEntry) : Prop where
  built : offer = op.buildOffer sourceID offer.flags
  flags : offer.flags &&& ~~~maskOfferEntryFlags = 0
  old : op.offerID ≠ 0 → ∃ row,
    ledger.offers.find? op.offerID = some row ∧ row.sellerID = sourceID

theorem findOffer_attempts (valid : ledger.Valid) (mPassive : Bool) :
    Attempts (op.findOffer mPassive sourceID) ledger
      (fun offer after => after = ledger ∧
        OfferReady ledger op sourceID offer)
      (fun result _ => Fails result) (fun _ _ => False) := by
  unfold findOffer
  rw [Attempts.ite_iff]
  constructor
  · intro modifying
    rw [Attempts.bind_iff, Attempts.lift_iff]
    refine .of_run (valid.loadOffer sourceID op.offerID) ?_
    cases found : ledger.offers.find? op.offerID with
    | none => exact fun _ _ impossible => by cases impossible
    | some row =>
        by_cases own : row.sellerID = sourceID
        · have stored := OfferEntry.isValid_iff.mp
            (valid.offers.found found).valid
          simp only [Option.filter, own, decide_true, ↓reduceIte]
          exact ⟨rfl, rfl, stored.flags, fun _ => ⟨row, found, own⟩⟩
        · simp only [Option.filter, own, decide_false, Bool.false_eq_true,
            ↓reduceIte]
          exact fun _ _ impossible => by cases impossible
  · intro creating
    refine ⟨rfl, rfl, ?_, fun modifying => absurd modifying creating⟩
    have masked : ∀ passive : Bool, (if passive then passiveFlag else 0) &&&
        ~~~maskOfferEntryFlags = 0 := by decide
    exact masked mPassive

/-! ## Limits -/

/-- The sub-entries of the source that the reserve is computed for. -/
def reserved (op : ManageOfferOp) (source : AccountEntry) : ℕ :=
  if op.creatingNewOffer then source.numSubEntries + 1
  else source.numSubEntries

/-- Where an offer is created, its sub-entry can be counted. -/
def Countable (op : ManageOfferOp) (source : AccountEntry) : Prop :=
  op.offerID = 0 → source.numSubEntries < int32Max

/-- What is sold can be taken from the source, and what remains to it covers
its reserve. -/
structure Sellable (ledger : LedgerState) (op : ManageOfferOp)
    (source : AccountEntry) (most : ℤ) : Prop where
  nonneg : 0 ≤ most
  canSend : ∀ sent, 0 < sent → sent ≤ most →
    ledger.CanAdjust source.accountID op.selling (-sent)
  reserve : op.selling = .native → ∀ sent, 0 ≤ sent → sent ≤ most →
    op.creatingNewOffer = true ∨ 0 < sent →
      ledger.header.getMinBalance (op.reserved source) ≤
        source.balance - sent

theorem Sellable.mono {few many : ℤ}
    (sellable : Sellable ledger op source many) (nonneg : 0 ≤ few)
    (fewer : few ≤ many) :
    Sellable ledger op source few where
  nonneg := nonneg
  canSend sent positive within :=
    sellable.canSend sent positive (within.trans fewer)
  reserve native sent nonneg within :=
    sellable.reserve native sent nonneg (within.trans fewer)

/-- The balance above a reserve is what can be sold. -/
theorem Sellable.native (valid : ledger.Valid)
    (found : ledger.accounts.find? source.accountID = some source)
    (native : op.selling = .native)
    (covered : op.creatingNewOffer = true →
      ledger.header.getMinBalance (op.reserved source) ≤ source.balance) :
    Sellable ledger op source (max 0 (source.balance -
      ledger.header.getMinBalance (op.reserved source))) := by
  have most := (valid.accounts.found found).most
  have minimum := getMinBalance_nonneg ledger.header (op.reserved source)
  refine ⟨le_max_left _ _, ?_, ?_⟩
  · intro sent positive within
    rw [native]
    exact .native found (by omega)
  · intro _ sent nonneg within needed
    obtain creating | positive := needed
    · have enough := covered creating
      omega
    · omega

theorem Sellable.credit {frame : TrustFrame} (valid : ledger.Valid)
    (checked : op.Checked) (credit : op.selling ≠ .native)
    (found : ledger.lineOf source.accountID op.selling = some frame)
    (authorized : frame.isAuthorized = true) :
    Sellable ledger op source frame.line.balance := by
  have storable := TrustLineEntry.isValid_iff.mp
    (valid.lineOf_valid credit checked.selling found)
  have sendable : ledger.sendable source.accountID op.selling =
      frame.line.balance := by
    rw [LedgerState.sendable, if_neg credit, found]
    simp [authorized]
  refine ⟨storable.balance, ?_, fun native => absurd native credit⟩
  intro sent positive within
  exact valid.canSend checked.selling positive (sendable ▸ within)

section Counting

variable {done : Option AccountEntry → LedgerState → Prop}
  {failed : Failure → LedgerState → Prop}

theorem addNumEntries_ends {k : ℤ} {n : ℕ} (bounded : n ≤ int32Max)
    (positive : 0 < k) (sum : source.numSubEntries + k = n) :
    Ends (source.addNumEntries k) ledger done failed ↔
      done (if ledger.header.getMinBalance n ≤ source.balance
        then some { source with numSubEntries := n } else none) ledger :=
  Ends.run_iff (addNumEntries_eq bounded positive sum)

theorem addNumEntries_succ_ends (few : source.numSubEntries < int32Max) :
    Ends (source.addNumEntries 1) ledger done failed ↔
      done (if ledger.header.getMinBalance (source.numSubEntries + 1) ≤
          source.balance
        then some
          { source with numSubEntries := source.numSubEntries + 1 }
        else none) ledger :=
  addNumEntries_ends (Nat.succ_le_of_lt few) one_pos (Nat.cast_succ _).symm

theorem addNumEntries_pred_ends {k : ℤ} (decrement : k = -1)
    (valid : source.isValid = true) (some : 0 < source.numSubEntries) :
    Ends (source.addNumEntries k) ledger done failed ↔
      done (Option.some
        { source with numSubEntries := source.numSubEntries - 1 })
        ledger := by
  refine Ends.run_iff ?_
  rw [decrement]
  exact AccountEntry.addNumEntries_pred valid some

end Counting

theorem canSell_attempts {line : Option TrustFrame} (valid : ledger.Valid)
    (version : ledger.header.ledgerVersion = 9) (checked : op.Checked)
    (found : ledger.accounts.find? source.accountID = some source)
    (countable : op.Countable source)
    (ready : LineReady ledger source.accountID op.selling line) :
    Attempts (op.canSell source line) ledger
      (fun sold after => after = ledger ∧ sold.2 = source ∧
        Sellable ledger op source sold.1)
      (fun result _ => Fails result) (fun _ _ => False) := by
  unfold canSell
  rw [Attempts.ite_iff]
  constructor
  · intro native
    rw [Attempts.bind_iff, Attempts.lift_iff, getHeader_ends, version]
    have newer : decide (9 > 8) = true := by decide
    rw [newer, Bool.and_true, Attempts.ite_iff]
    constructor
    · intro creating
      have few := countable (of_decide_eq_true creating)
      rw [Attempts.bind_iff, Attempts.lift_iff, addNumEntries_succ_ends few]
      by_cases covered : ledger.header.getMinBalance
          (source.numSubEntries + 1) ≤ source.balance
      · rw [if_pos covered]
        have counted := AccountEntry.isValid_count
          (valid.accounts.found found).valid (Nat.succ_le_of_lt few)
        simp only
        rw [Attempts.bind_iff, Attempts.lift_iff,
          addNumEntries_pred_ends rfl counted (Nat.succ_pos _)]
        have reserved : op.reserved source = source.numSubEntries + 1 :=
          if_pos creating
        have sellable := Sellable.native valid found native
          (fun _ => reserved ▸ covered)
        rw [reserved] at sellable
        exact ⟨rfl, rfl, sellable⟩
      · rw [if_neg covered]
        exact fun _ _ impossible => by cases impossible
    · intro modifying
      have reserved : op.reserved source = source.numSubEntries :=
        if_neg modifying
      have sellable := Sellable.native valid found native
        (fun creating => absurd creating modifying)
      rw [reserved] at sellable
      exact ⟨rfl, rfl, sellable⟩
  · intro credit
    obtain ⟨frame, rfl, held, authorized⟩ := ready.trusted credit
    have balance : frame.getBalance ledger =
        .ok frame.line.balance ledger := by
      rw [TrustFrame.getBalance,
        if_pos (valid.lineOf_valid credit checked.selling held)]
      rfl
    simp only
    rw [Attempts.bind_iff, Attempts.lift_iff]
    refine .of_run balance ?_
    exact ⟨rfl, rfl, .credit valid checked credit held authorized⟩

theorem canBuy_attempts {line : Option TrustFrame}
    (ready : LineReady ledger sourceID op.buying line) :
    Attempts (op.canBuy line) ledger
      (fun most after => after = ledger ∧
        most = ledger.receivable sourceID op.buying)
      (fun result _ => Fails result) (fun _ _ => False) := by
  unfold canBuy LedgerState.receivable
  rw [Attempts.ite_iff]
  constructor
  · intro native
    rw [if_pos native]
    exact ⟨rfl, rfl⟩
  · intro credit
    obtain ⟨frame, rfl, held, _⟩ := ready.trusted credit
    rw [if_neg credit, held]
    simp only
    rw [Attempts.ite_iff]
    exact ⟨fun _ _ _ impossible => (by cases impossible), fun _ =>
      ⟨rfl, rfl⟩⟩

/-- What crossing may exchange. -/
structure Limited (ledger : LedgerState) (op : ManageOfferOp)
    (source : AccountEntry) (limits : Limits) : Prop where
  kept : limits.source = source
  wheat : limits.maxWheatCanBuy =
    ledger.receivable source.accountID op.buying
  sellable : Sellable ledger op source limits.maxSheepSend
  amount : limits.maxSheepSend ≤ op.amount

theorem limits_attempts {lines : SourceLines} (valid : ledger.Valid)
    (version : ledger.header.ledgerVersion = 9) (checked : op.Checked)
    (found : ledger.accounts.find? source.accountID = some source)
    (countable : op.Countable source)
    (sheepReady : LineReady ledger source.accountID op.selling lines.sheep)
    (wheatReady : LineReady ledger source.accountID op.buying lines.wheat) :
    Attempts (op.limits source lines) ledger
      (fun limits after => after = ledger ∧ Limited ledger op source limits)
      (fun result _ => Fails result) (fun _ _ => False) := by
  have receivable := valid.receivable_bounds source.accountID op.buying
  have divided : (ofExcept (bigDivide?
      (ledger.receivable source.accountID op.buying) op.price.d op.price.n
      .roundDown) : Ledger (Option ℤ)) ledger =
        .ok (cutOff (op.price.worth
          (ledger.receivable source.accountID op.buying))) ledger := by
    rw [checked.price.bigDivide?_worth receivable]
    rfl
  unfold limits
  rw [Attempts.bind_iff]
  refine (canSell_attempts valid version checked found countable
    sheepReady).mono ?_ (fun _ _ => id) (fun _ _ => id)
  rintro ⟨sold, kept⟩ ledger ⟨rfl, rfl, sellable⟩
  simp only
  rw [Attempts.bind_iff]
  refine (canBuy_attempts wheatReady).mono ?_ (fun _ _ => id) (fun _ _ => id)
  rintro _ ledger ⟨rfl, rfl⟩
  rw [Attempts.bind_iff, Attempts.lift_iff]
  refine .of_run divided ?_
  have worth := checked.price.worth_nonneg receivable.1
  have bounded : 0 ≤ (cutOff (op.price.worth
      (ledger.receivable kept.accountID op.buying))).getD int64Max := by
    unfold cutOff
    split
    · exact worth
    · decide
  have nonneg := sellable.nonneg
  have amount := checked.amount.1
  exact ⟨rfl, rfl, rfl, sellable.mono (le_min amount (le_min nonneg bounded))
    ((min_le_right _ _).trans (min_le_left _ _)), min_le_left _ _⟩

end ManageOfferOp

end StellarCore.Transactions
