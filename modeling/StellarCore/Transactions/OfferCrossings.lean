import StellarCore.Transactions.OfferLimits

/-!
# What an offer exchanges

Offers of others are crossed up to the limits.  Nothing of the source is
touched meanwhile, so that afterwards its balances can take what was
exchanged.
-/

namespace StellarCore.Transactions

open StellarCore.Lib

namespace ManageOfferOp

variable {computePrice : Price → ℚ} {ledger : LedgerState}
  {op : ManageOfferOp} {sourceID : AccountID} {source : AccountEntry}
  {asset : Asset}

/-! ## Crossing -/

def received (claimed : List ClaimOfferAtom) : ℤ :=
  (claimed.map ClaimOfferAtom.amountSold).sum

def paid (claimed : List ClaimOfferAtom) : ℤ :=
  (claimed.map ClaimOfferAtom.amountBought).sum

/-- All moves of the operation. -/
def moves (op : ManageOfferOp) (sourceID : AccountID)
    (claimed : List ClaimOfferAtom) : List Move :=
  [⟨sourceID, op.buying, received claimed⟩,
    ⟨sourceID, op.selling, -paid claimed⟩] ++ movesOf claimed

/-- An offer of another account that is not dearer than the operation allows;
a passive one leaves offers at its own price. -/
structure Admissible (op : ManageOfferOp) (mPassive : Bool)
    (sourceID : AccountID) (offer : OfferEntry) : Prop where
  other : offer.offerID ≠ op.offerID
  seller : offer.sellerID ≠ sourceID
  price : offer.price.n * op.price.n ≤ offer.price.d * op.price.d
  passive : mPassive = true →
    offer.price.n * op.price.n < offer.price.d * op.price.d

theorem filter_keep {mPassive : Bool} {offer : OfferEntry}
    (kept : op.filter mPassive sourceID offer = .keep) :
    Admissible op mPassive sourceID offer := by
  unfold filter at kept
  split at kept
  case isTrue => cases kept
  case isFalse other =>
      split at kept
      case isTrue => cases kept
      case isFalse cheap =>
          split at kept
          case isTrue => cases kept
          case isFalse seller =>
              simp only [tooDear, Price.atLeast, Price.exceeds,
                Bool.or_eq_true, Bool.and_eq_true, decide_eq_true_eq,
                not_or, not_and, ge_iff_le, gt_iff_lt, not_le,
                not_lt] at cheap
              exact ⟨other, seller, cheap.2, cheap.1⟩

/-- A claimed offer was in the ledger and could be crossed. -/
structure Taken (op : ManageOfferOp) (mPassive : Bool)
    (sourceID : AccountID) (before : LedgerState) (atom : ClaimOfferAtom) :
    Prop where
  offer : ∃ offer, before.offers.find? atom.offerID = some offer ∧
    offer.sellerID = atom.sellerID ∧
    Admissible op mPassive sourceID offer
  sold : atom.assetSold = op.buying
  bought : atom.assetBought = op.selling

section Converted

variable {mPassive : Bool} {conversion : Conversion}
  {middle after : LedgerState}

theorem taken_of_settled
    (settled : Settled (op.filter mPassive sourceID) op.selling op.buying
      ledger conversion middle) :
    ∀ atom ∈ conversion.trail, Taken op mPassive sourceID ledger atom := by
  intro atom member
  have claimed := settled.claimed atom member
  obtain ⟨offer, found, kept, seller⟩ := claimed.offer
  exact ⟨⟨offer, found, seller, filter_keep kept⟩, claimed.sold,
    claimed.bought⟩

theorem Taken.seller {atom : ClaimOfferAtom}
    (taken : Taken op mPassive sourceID ledger atom) :
    atom.sellerID ≠ sourceID := by
  obtain ⟨offer, _, seller, admissible⟩ := taken.offer
  exact seller ▸ admissible.seller

theorem Taken.other {atom : ClaimOfferAtom}
    (taken : Taken op mPassive sourceID ledger atom) (valid : ledger.Valid) :
    atom.offerID ≠ op.offerID := by
  obtain ⟨offer, found, _, admissible⟩ := taken.offer
  exact (valid.offers.found found).keyed ▸ admissible.other

/-- Nothing of the source is touched while offers are crossed. -/
theorem untouched
    (taken : ∀ atom ∈ conversion.trail,
      Taken op mPassive sourceID ledger atom) :
    ∀ move ∈ movesOf conversion.trail, move.id ≠ sourceID := by
  intro move member
  obtain ⟨atom, listed, same⟩ := mem_movesOf member
  rw [same]
  exact (taken atom listed).seller

theorem total_settled
    (settled : Settled (op.filter mPassive sourceID) op.selling op.buying
      ledger conversion middle) :
    middle.total .native = ledger.total .native +
      ((if op.selling = .native then paid conversion.trail else 0) -
        if op.buying = .native then received conversion.trail else 0) := by
  rw [settled.moved.total, sumOf_native, grossSum_movesOf settled.claimed]
  rfl

/-- As long as there are no more native units than fit on one balance, a
crossing is not cut short. -/
theorem not_cutShort {maxSheep : ℤ}
    (total : ledger.total .native ≤ int64Max) (checked : op.Checked)
    (found : ledger.accounts.find? source.accountID = some source)
    (settled : Settled (op.filter mPassive source.accountID) op.selling
      op.buying ledger conversion middle)
    (sheepSum : conversion.sheepSend = paid conversion.trail)
    (within : op.selling = .native → maxSheep ≤ source.balance)
    (short : CutShort (op.filter mPassive source.accountID) op.selling
      maxSheep conversion middle after) : False := by
  have native := short.native
  have buying : op.buying ≠ .native := native ▸ Ne.symm checked.apart
  obtain ⟨offer, kept, exceeds⟩ := short.exceeds
  have apart := (filter_keep kept).seller
  have enough := within native
  have sum := total_settled settled
  rw [if_pos native, if_neg buying] at sum
  have row : middle.accounts.find? source.accountID = some source := by
    rw [settled.moved.accounts source.accountID
      (untouched (taken_of_settled settled))]
    exact found
  have balance := settled.valid.balance_le_total row
  cases seller : middle.accounts.find? offer.sellerID with
  | none =>
      simp only [LedgerState.holding, ↓reduceIte, seller,
        Option.elim_none] at exceeds
      omega
  | some a =>
      have both := settled.valid.holding_add_le_total row seller apart
      simp only [LedgerState.holding, ↓reduceIte, seller,
        Option.elim_some] at exceeds
      omega

end Converted

/-! ## Paying the source -/

theorem settleBalance_eq {line : Option TrustFrame} {amount : ℤ}
    {what : String} (changes : amount ≠ 0) :
    settleBalance asset source line amount what = (do
      match ← adjustBalance asset source line amount with
      | none => throw (.runtimeError what)
      | some source => return source) := by
  unfold settleBalance adjustBalance
  rw [if_neg changes]
  by_cases native : asset = .native
  · rw [if_pos native, if_pos native, bind_assoc]
    congr 1
    funext paid
    cases paid with
    | none => rfl
    | some paid => simp
  · rw [if_neg native, if_neg native]
    cases line with
    | none => rfl
    | some line =>
        simp only [bind_assoc]
        congr 1
        funext paid
        cases paid with
        | none => rfl
        | some paid => simp

theorem settleBalance_run {line : Option TrustFrame} {amount : ℤ}
    (valid : ledger.Valid)
    (found : ledger.accounts.find? source.accountID = some source)
    (same : line = ledger.lineFor source.accountID asset)
    (changes : amount ≠ 0)
    (can : ledger.CanAdjust source.accountID asset amount) (what : String) :
    ∃ a, settleBalance asset source line amount what ledger =
        .ok a (ledger.adjust source.accountID asset amount) ∧
      (ledger.adjust source.accountID asset amount).accounts.find?
        source.accountID = some a := by
  obtain ⟨a, adjusted, found'⟩ := valid.adjustBalance found (fun _ => can)
  refine ⟨a, ?_, found'⟩
  rw [settleBalance_eq changes, run_bind, same, adjusted]
  rfl

/-- The source has received and paid. -/
def trade (ledger : LedgerState) (op : ManageOfferOp) (sourceID : AccountID)
    (wheat sheep : ℤ) : LedgerState :=
  (ledger.adjust sourceID op.buying wheat).adjust sourceID op.selling (-sheep)

/-- What allows the source to be paid and charged. -/
structure Tradable (ledger : LedgerState) (op : ManageOfferOp)
    (sourceID : AccountID) (wheat sheep : ℤ) : Prop where
  amounts : (wheat = 0 ∧ sheep = 0) ∨ (0 < wheat ∧ 0 < sheep)
  canBuy : 0 < wheat → ledger.CanAdjust sourceID op.buying wheat
  canSell : 0 < sheep → ledger.CanAdjust sourceID op.selling (-sheep)

namespace Tradable

variable {wheat sheep : ℤ}

theorem first (tradable : Tradable ledger op sourceID wheat sheep) :
    wheat ≠ 0 → ledger.CanAdjust sourceID op.buying wheat := by
  intro changes
  have amounts := tradable.amounts
  exact tradable.canBuy (by omega)

theorem second (tradable : Tradable ledger op sourceID wheat sheep)
    (valid : ledger.Valid) (checked : op.Checked) :
    -sheep ≠ 0 → (ledger.adjust sourceID op.buying wheat).CanAdjust sourceID
      op.selling (-sheep) := by
  intro changes
  have amounts := tradable.amounts
  exact valid.canAdjust_other (Ne.symm checked.apart)
    (tradable.canSell (by omega))

theorem valid (tradable : Tradable ledger op sourceID wheat sheep)
    (valid : ledger.Valid) (checked : op.Checked) :
    (trade ledger op sourceID wheat sheep).Valid :=
  (valid.adjust tradable.first).adjust (tradable.second valid checked)

theorem moved (tradable : Tradable ledger op sourceID wheat sheep)
    (valid : ledger.Valid) (checked : op.Checked) :
    Moved [⟨sourceID, op.buying, wheat⟩, ⟨sourceID, op.selling, -sheep⟩]
      ledger (trade ledger op sourceID wheat sheep) :=
  (valid.moved_adjust tradable.first).append
    ((valid.adjust tradable.first).moved_adjust
      (tradable.second valid checked))

end Tradable

/-- Paying the source changes nothing of its account but the balance. -/
theorem settleSource_run {lines : SourceLines} {conversion : Conversion}
    (valid : ledger.Valid) (checked : op.Checked)
    (found : ledger.accounts.find? source.accountID = some source)
    (wheatLine : lines.wheat = ledger.lineFor source.accountID op.buying)
    (sheepLine : lines.sheep = ledger.lineFor source.accountID op.selling)
    (tradable : Tradable ledger op source.accountID conversion.wheatReceived
      conversion.sheepSend) :
    ∃ a, op.settleSource source lines conversion ledger =
        .ok a (trade ledger op source.accountID conversion.wheatReceived
          conversion.sheepSend) ∧
      (trade ledger op source.accountID conversion.wheatReceived
        conversion.sheepSend).accounts.find? source.accountID = some a ∧
      a.numSubEntries = source.numSubEntries := by
  have amounts := tradable.amounts
  unfold settleSource trade
  by_cases some : conversion.wheatReceived > 0
  · rw [if_pos some]
    have first := tradable.first some.ne'
    have paid : -conversion.sheepSend ≠ 0 := by omega
    obtain ⟨a, bought, found'⟩ := settleBalance_run valid found wheatLine
      some.ne' first "offer claimed over limit"
    have after := valid.adjust (fun _ => first)
    have keyed := (after.accounts.found found').keyed
    have sheepLine' : lines.sheep = (ledger.adjust source.accountID op.buying
        conversion.wheatReceived).lineFor a.accountID op.selling := by
      rw [keyed, valid.lineFor_other (Ne.symm checked.apart)]
      exact sheepLine
    have row : (ledger.adjust source.accountID op.buying
        conversion.wheatReceived).accounts.find? a.accountID =
          Option.some a := by
      rw [keyed]
      exact found'
    have second : (ledger.adjust source.accountID op.buying
        conversion.wheatReceived).CanAdjust a.accountID op.selling
          (-conversion.sheepSend) := by
      rw [keyed]
      exact tradable.second valid checked paid
    obtain ⟨b, sold, found''⟩ := settleBalance_run after row sheepLine'
      paid second "offer sold more than balance"
    have counted := valid.adjust_counted found found'
    have counted' := after.adjust_counted row found''
    rw [keyed] at sold found''
    refine ⟨b, ?_, found'', counted'.trans counted⟩
    rw [run_bind, bought]
    exact sold
  · have wheat : conversion.wheatReceived = 0 := by omega
    have sheep : -conversion.sheepSend = 0 := by omega
    rw [if_neg some, wheat, sheep]
    exact ⟨source, rfl, found, rfl⟩

/-! ## The crossings as a whole -/

/-- What has happened when the rest of the offer is still to be stored. -/
structure Traded (op : ManageOfferOp) (mPassive : Bool)
    (source : AccountEntry) (before : LedgerState) (crossings : Crossings)
    (after : LedgerState) : Prop where
  valid : after.Valid
  found : after.accounts.find? source.accountID = some crossings.source
  counted : crossings.source.numSubEntries = source.numSubEntries
  amounts :
    (received crossings.offersClaimed = 0 ∧
        paid crossings.offersClaimed = 0) ∨
      (0 < received crossings.offersClaimed ∧
        0 < paid crossings.offersClaimed)
  moved : Moved (op.moves source.accountID crossings.offersClaimed) before
    after
  taken : ∀ atom ∈ crossings.offersClaimed,
    Taken op mPassive source.accountID before atom
  others : ∀ offerID,
    offerID ∉ crossings.offersClaimed.map ClaimOfferAtom.offerID →
      after.offers.find? offerID = before.offers.find? offerID
  left : 0 ≤ crossings.amount ∧
    crossings.amount + paid crossings.offersClaimed ≤ op.amount
  reserve : op.selling = .native →
    op.creatingNewOffer = true ∨ 0 < paid crossings.offersClaimed →
      before.header.getMinBalance (op.reserved source) ≤
        crossings.source.balance
  header : after.header = before.header

/-- An offer that is to be deleted crosses nothing. -/
theorem Traded.nothing {mPassive : Bool} (valid : ledger.Valid)
    (checked : op.Checked)
    (found : ledger.accounts.find? source.accountID = some source)
    (zero : op.amount = 0) :
    Traded op mPassive source ledger
      { amount := 0, offersClaimed := [], source } ledger where
  valid := valid
  found := found
  counted := rfl
  amounts := .inl ⟨rfl, rfl⟩
  moved := by
    refine ((Moved.idle (Move.amountOf_zero source.accountID
      op.buying)).append (Moved.idle (Move.amountOf_zero source.accountID
        op.selling))).of_sums ?_ ?_ ?_
    · intro move member
      exact ⟨move, member, rfl⟩
    · intro _ _
      rfl
    · intro _
      rfl
  taken _ member := absurd member List.not_mem_nil
  others _ _ := rfl
  left := ⟨le_refl 0, by simp [paid, zero]⟩
  reserve := by
    intro _ needed
    obtain creating | positive := needed
    · have some := checked.some creating
      omega
    · exact absurd positive (lt_irrefl 0)
  header := rfl

section Converted

variable {mPassive : Bool} {conversion : Conversion} {limits : Limits}
  {middle : LedgerState} {lines : SourceLines}

/-- What the source still has when offers have been crossed. -/
structure SourceKept (before : LedgerState) (source : AccountEntry)
    (middle : LedgerState) : Prop where
  row : middle.accounts.find? source.accountID = some source
  lines : ∀ asset, middle.trustLines.find? (source.accountID, asset) =
    before.trustLines.find? (source.accountID, asset)

theorem SourceKept.of_settled
    (found : ledger.accounts.find? source.accountID = some source)
    (settled : Settled (op.filter mPassive source.accountID) op.selling
      op.buying ledger conversion middle) : SourceKept ledger source middle
    where
  row := by
    rw [settled.moved.accounts source.accountID
      (untouched (taken_of_settled settled))]
    exact found
  lines asset := settled.moved.lines source.accountID asset
    (untouched (taken_of_settled settled))

theorem SourceKept.lineFor (kept : SourceKept ledger source middle)
    (asset : Asset) : middle.lineFor source.accountID asset =
      ledger.lineFor source.accountID asset := by
  unfold LedgerState.lineFor LedgerState.lineOf
  rw [kept.lines]

theorem SourceKept.canAdjust {delta : ℤ}
    (kept : SourceKept ledger source middle)
    (found : ledger.accounts.find? source.accountID = some source)
    (can : ledger.CanAdjust source.accountID asset delta) :
    middle.CanAdjust source.accountID asset delta := by
  refine can.of_same ?_ (kept.lines asset)
  intro _ a same
  rw [found, Option.some_inj] at same
  exact ⟨source, kept.row, same ▸ rfl⟩

/-- The source can take what was exchanged. -/
theorem Limited.tradable (limited : Limited ledger op source limits)
    (valid : ledger.Valid) (total : ledger.total .native ≤ int64Max)
    (checked : op.Checked)
    (found : ledger.accounts.find? source.accountID = some source)
    (settles : conversion.Settles (op.filter mPassive source.accountID)
      op.selling op.buying limits.maxSheepSend limits.maxWheatCanBuy ledger
      middle)
    (settled : Settled (op.filter mPassive source.accountID) op.selling
      op.buying ledger conversion middle) :
    Tradable middle op source.accountID conversion.wheatReceived
      conversion.sheepSend := by
  have kept := SourceKept.of_settled found settled
  have sums := amounts_sum settled.claimed
  rw [← settles.sheepSum, ← settles.wheatSum] at sums
  refine ⟨sums, ?_, ?_⟩
  · intro positive
    by_cases native : op.buying = .native
    · have selling : op.selling ≠ .native := native ▸ checked.apart
      have sum := total_settled settled
      rw [if_neg selling, if_pos native, received, ← settles.wheatSum] at sum
      have balance := settled.valid.balance_le_total kept.row
      have nonneg := (AccountEntry.isValid_iff.mp
        (valid.accounts.found found).valid).balance
      rw [native]
      exact .native kept.row (by omega)
    · have within := settles.wheat.2
      rw [limited.wheat, max_eq_right (valid.receivable_bounds
        source.accountID op.buying).1] at within
      exact kept.canAdjust found
        (valid.canReceive native checked.buying positive within)
  · intro positive
    have within := settles.sheep.2
    rw [max_eq_right limited.sellable.nonneg] at within
    exact kept.canAdjust found
      (limited.sellable.canSend _ positive within)

theorem settle_traded {a : AccountEntry}
    (checked : op.Checked)
    (found : ledger.accounts.find? source.accountID = some source)
    (limited : Limited ledger op source limits)
    (settles : conversion.Settles (op.filter mPassive source.accountID)
      op.selling op.buying limits.maxSheepSend limits.maxWheatCanBuy ledger
      middle)
    (settled : Settled (op.filter mPassive source.accountID) op.selling
      op.buying ledger conversion middle)
    (tradable : Tradable middle op source.accountID conversion.wheatReceived
      conversion.sheepSend)
    (row : (trade middle op source.accountID conversion.wheatReceived
      conversion.sheepSend).accounts.find? source.accountID = some a)
    (counted : a.numSubEntries = source.numSubEntries) :
    Traded op mPassive source ledger
      { amount := limits.maxSheepSend - conversion.sheepSend
        offersClaimed := conversion.trail, source := a }
      (trade middle op source.accountID conversion.wheatReceived
        conversion.sheepSend) := by
  have kept := SourceKept.of_settled found settled
  have wheat : received conversion.trail = conversion.wheatReceived :=
    settles.wheatSum.symm
  have sheep : paid conversion.trail = conversion.sheepSend :=
    settles.sheepSum.symm
  have within := settles.sheep
  rw [max_eq_right limited.sellable.nonneg] at within
  have amount := limited.amount
  have moved := tradable.moved settled.valid checked
  refine ⟨tradable.valid settled.valid checked, row, counted, ?_, ?_,
    taken_of_settled settled, ?_, ?_, ?_, ?_⟩
  · rw [wheat, sheep]
    exact tradable.amounts
  · refine (settled.moved.append moved).of_sums ?_ ?_ ?_
    · intro move member
      refine ⟨move, ?_, rfl⟩
      rw [moves, wheat, sheep]
      simp only [List.mem_append] at member ⊢
      exact member.symm
    · intro id asset
      rw [moves, wheat, sheep, sumFor_append, sumFor_append, add_comm]
    · intro asset
      rw [moves, wheat, sheep, sumOf_append, sumOf_append, add_comm]
  · intro offerID absent
    simp only [trade, LedgerState.adjust_offers]
    exact settled.others offerID absent
  · rw [sheep]
    simp only
    omega
  · intro native needed
    have apart : op.buying ≠ .native := native ▸ Ne.symm checked.apart
    have after := moved.holding source.accountID .native
    simp only [LedgerState.holding, ↓reduceIte, row, kept.row,
      Option.elim_some, sumFor_cons, sumFor_nil, Move.amountFor,
      Move.amountOf, native, apart, false_and, Asset.isIssuedBy, ne_eq,
      not_true_eq_false, decide_false, Bool.false_and, and_self] at after
    rw [sheep] at needed
    have reserve := limited.sellable.reserve native conversion.sheepSend
      within.1 within.2 needed
    simp only
    omega
  · rw [trade, LedgerState.adjust_header, LedgerState.adjust_header,
      settled.header]

theorem cross_attempts (valid : ledger.Valid)
    (version : ledger.header.ledgerVersion = 9)
    (total : ledger.total .native ≤ int64Max) (checked : op.Checked)
    (found : ledger.accounts.find? source.accountID = some source)
    (countable : op.Countable source)
    (sheepReady : LineReady ledger source.accountID op.selling lines.sheep)
    (wheatReady : LineReady ledger source.accountID op.buying lines.wheat) :
    Attempts (op.cross computePrice mPassive source lines) ledger
      (Traded op mPassive source ledger) (fun result _ => Fails result)
      (fun _ _ => False) := by
  have most := checked.amount.2
  unfold cross
  rw [Attempts.bind_iff]
  refine (limits_attempts valid version checked found countable sheepReady
    wheatReady).mono ?_ (fun _ _ => id) (fun _ _ => id)
  rintro limits ledger ⟨rfl, limited⟩
  have amount := limited.amount
  have receivable := (valid.receivable_bounds source.accountID op.buying).2
  rw [← limited.wheat] at receivable
  rw [Attempts.bind_iff, Attempts.lift_iff]
  refine (valid.convertWithOffers_settles version checked.selling
    checked.buying (amount.trans most) receivable).mono ?_ (fun _ _ => id)
  intro conversion after settles
  rw [Attempts.bind_iff, Attempts.lift_iff, assert_ends]
  refine ⟨?_, fun fails => absurd settles.sheep.1 (by simpa using fails)⟩
  intro _
  rw [Attempts.ite_iff]
  refine ⟨fun _ _ _ impossible => (by cases impossible), fun _ => ?_⟩
  obtain ⟨middle, settled, same | short⟩ := settles.converts
  case inr =>
    refine (not_cutShort total checked found settled settles.sheepSum ?_
      short).elim
    intro native
    have balance := (AccountEntry.isValid_iff.mp
      (valid.accounts.found found).valid).balance
    obtain none | some := limited.sellable.nonneg.eq_or_lt
    · rw [← none]
      exact balance
    · have reserve := limited.sellable.reserve native limits.maxSheepSend
        some.le (le_refl _) (.inr some)
      have minimum := getMinBalance_nonneg ledger.header (op.reserved source)
      omega
  subst same
  have kept := SourceKept.of_settled found settled
  have tradable := limited.tradable valid total checked found settles settled
  obtain ⟨a, run, row, counted⟩ := settleSource_run settled.valid checked
    kept.row (wheatReady.same.trans (kept.lineFor _).symm)
    (sheepReady.same.trans (kept.lineFor _).symm) tradable
  rw [limited.kept, Attempts.bind_iff, Attempts.lift_iff]
  refine .of_run run ?_
  exact settle_traded checked found limited settles settled tradable
    row counted

end Converted

end ManageOfferOp

end StellarCore.Transactions
