import StellarCore.Transactions.BookSettlement
import StellarCore.Transactions.PaymentRefines

/-!
# Settlement of path payments

A path payment that succeeds has moved the amount to the destination, one
amount from the source, and what the claimed offers tell.  Along the path
every asset that somebody receives was given by somebody.
-/

namespace StellarCore.Transactions

open StellarCore.Lib

/-! ## The loop over the path -/

namespace PathPaymentOp

variable {computePrice : Price → ℚ} {before ledger : LedgerState}
  {op : PathPaymentOp} {source : AccountEntry} {hop : Hop}

/-- The payment to the destination and those of the offers taken so far. -/
def movesTo (op : PathPaymentOp) (offers : List ClaimOfferAtom) :
    List Move :=
  ⟨op.destination, op.destAsset, op.destAmount⟩ :: movesOf offers

/-- The code of a failure. -/
def Fails (result : PathPaymentResult) : Prop :=
  ∀ offers last, result ≠ .success offers last

theorem Fails.of_toPayment {result : PathPaymentResult}
    (code : result.toPayment.isSome = true) : Fails result := by
  rintro offers last rfl
  cases code

/-- Between two steps of the path: what has been moved is owed in one asset
only. -/
structure Reached (op : PathPaymentOp) (source : AccountEntry)
    (before : LedgerState) (hop : Hop) (ledger : LedgerState) : Prop where
  valid : ledger.Valid
  moved : Moved (op.movesTo hop.offers) before ledger
  owed : ∀ asset, grossSum (op.movesTo hop.offers) asset =
    if hop.curB = asset then hop.curBReceived else 0
  amount : 0 < hop.curBReceived ∧ hop.curBReceived ≤ int64Max
  asset : hop.curB.isAssetValid = true
  others : ∀ atom ∈ hop.offers, atom.sellerID ≠ source.accountID

theorem Reached.step {conversion : Conversion} {curA : Asset}
    {after : LedgerState} (reached : Reached op source before hop ledger)
    (assetValid : curA.isAssetValid = true)
    (settles : conversion.Settles (crossSelf source.accountID) curA hop.curB
      int64Max hop.curBReceived ledger after)
    (result : conversion.result = .ok)
    (delivered : hop.curBReceived = conversion.wheatReceived) :
    Reached op source before
      { curB := curA, curBReceived := conversion.sheepSend
        offers := conversion.trail ++ hop.offers } after := by
  obtain ⟨middle, settled, same | short⟩ := settles.converts
  case inr =>
    have partially := short.result
    rw [result] at partially
    cases partially
  case inl =>
    subst same
    have amount := reached.amount
    have sums := amounts_sum settled.claimed
    rw [← settles.sheepSum, ← settles.wheatSum] at sums
    have limit := settles.sheep
    have most : (0 : ℤ) ≤ int64Max := by decide
    rw [max_eq_right most] at limit
    refine ⟨settled.valid, ?_, ?_, ?_, assetValid, ?_⟩
    · refine (reached.moved.append settled.moved).of_sums ?_ ?_ ?_
      · intro move member
        refine ⟨move, ?_, rfl⟩
        simp only [movesTo, movesOf_append, List.cons_append, List.mem_cons,
          List.mem_append] at member ⊢
        tauto
      · intro id asset
        simp only [movesTo, movesOf_append, sumFor_append, sumFor_cons]
        omega
      · intro asset
        simp only [movesTo, movesOf_append, sumOf_append, sumOf_cons]
        omega
    · intro asset
      have owed := reached.owed asset
      have hops := grossSum_movesOf settled.claimed asset
      rw [← settles.sheepSum, ← settles.wheatSum, ← delivered] at hops
      simp only [movesTo, movesOf_append, grossSum_append,
        grossSum_cons] at owed ⊢
      omega
    · simp only
      omega
    · intro atom member
      obtain listed | listed := List.mem_append.mp member
      · obtain ⟨offer, _, kept, seller⟩ :=
          (settled.claimed atom listed).offer
        intro own
        rw [crossSelf, seller, if_pos own] at kept
        cases kept
      · exact reached.others atom listed

theorem Reached.convertHop {curA : Asset}
    (reached : Reached op source before hop ledger)
    (version : before.header.ledgerVersion = 9)
    (assetValid : curA.isAssetValid = true) :
    Attempts (convertHop computePrice source.accountID hop curA) ledger
      (fun next after => Reached op source before next after ∧
        next.curB = curA) (fun result _ => Fails result)
      (fun _ _ => False) := by
  have most : (0 : ℤ) ≤ int64Max := by decide
  unfold PathPaymentOp.convertHop
  rw [Attempts.bind_iff, Attempts.lift_iff]
  refine (reached.valid.convertWithOffers_settles
    (reached.moved.version.trans version) assetValid reached.asset (le_refl _)
    reached.amount.2).mono ?_ (fun _ _ => id)
  intro conversion after settles
  rw [Attempts.bind_iff, Attempts.lift_iff, assert_ends]
  refine ⟨?_, fun fails => absurd settles.sheep.1 (by simpa using fails)⟩
  intro _
  cases result : conversion.result with
  | filterStop offer => exact fun _ _ impossible => by cases impossible
  | partially => exact fun _ _ impossible => by cases impossible
  | ok =>
      simp only
      rw [Attempts.ite_iff]
      exact ⟨fun delivered =>
        ⟨reached.step assetValid settles result delivered, rfl⟩,
        fun _ _ _ impossible => by cases impossible⟩

theorem Reached.walkHop {curA : Asset}
    (reached : Reached op source before hop ledger)
    (version : before.header.ledgerVersion = 9)
    (assetValid : curA.isAssetValid = true) :
    Attempts (walkHop computePrice source.accountID hop curA) ledger
      (fun next after => Reached op source before next after ∧
        next.curB = curA) (fun result _ => Fails result)
      (fun _ _ => False) := by
  unfold PathPaymentOp.walkHop
  rw [Attempts.ite_iff]
  refine ⟨fun same => ⟨reached, same.symm⟩, fun _ => ?_⟩
  rw [Attempts.ite_iff]
  refine ⟨fun _ => reached.convertHop version assetValid, fun _ => ?_⟩
  rw [Attempts.bind_iff, Attempts.lift_iff]
  refine .of_run (reached.valid.loadAccount curA.getIssuer) ?_
  cases ledger.accounts.find? curA.getIssuer with
  | none => exact fun _ _ impossible => by cases impossible
  | some issuer => exact reached.convertHop version assetValid

theorem checked_iff :
    op.doCheckValid = none ↔
      0 < op.destAmount ∧ 0 < op.sendMax ∧
        op.sendAsset.isAssetValid = true ∧
        op.destAsset.isAssetValid = true ∧
        ∀ asset ∈ op.path, asset.isAssetValid = true := by
  simp only [doCheckValid, firstOf_eq_none, List.forall_mem_cons,
    List.not_mem_nil, false_implies, implies_true, and_true,
    Bool.or_eq_false_iff, decide_eq_false_iff_not, not_le,
    Bool.not_eq_false', List.all_eq_true, and_assoc]

/-- All moves of a path payment that sends `sent`. -/
def moves (op : PathPaymentOp) (sourceID : AccountID) (sent : ℤ)
    (offers : List ClaimOfferAtom) : List Move :=
  [⟨op.destination, op.destAsset, op.destAmount⟩,
    ⟨sourceID, op.sendAsset, -sent⟩] ++ movesOf offers

/-- What a path payment that succeeds has done. -/
structure Settles (op : PathPaymentOp) (sourceID : AccountID)
    (before : LedgerState) (offers : List ClaimOfferAtom)
    (after : LedgerState) : Prop where
  valid : after.Valid
  moved : ∃ sent, 0 < sent ∧ sent ≤ op.sendMax ∧
    Moved (op.moves sourceID sent offers) before after ∧
    ∀ asset, after.total asset +
      issuerSum (op.moves sourceID sent offers) asset = before.total asset
  others : ∀ atom ∈ offers, atom.sellerID ≠ sourceID

theorem Reached.settles {sent : LedgerState}
    (reached : Reached op source before hop ledger)
    (last : hop.curB = op.sendAsset) (within : hop.curBReceived ≤ op.sendMax)
    (can : ledger.CanAdjust source.accountID hop.curB (-hop.curBReceived))
    (paid : sent = ledger.credit source.accountID hop.curB
      (-hop.curBReceived)) :
    Settles op source.accountID before hop.offers sent := by
  subst paid
  rw [last] at can ⊢
  have moved : Moved (op.moves source.accountID hop.curBReceived hop.offers)
      before (ledger.credit source.accountID op.sendAsset
        (-hop.curBReceived)) := by
    refine (reached.moved.append (reached.valid.moved_credit can)).of_sums
      ?_ ?_ ?_
    · intro move member
      refine ⟨move, ?_, rfl⟩
      simp only [movesTo, moves, List.cons_append, List.nil_append,
        List.mem_cons, List.mem_append, List.not_mem_nil,
        or_false] at member ⊢
      tauto
    · intro id asset
      simp only [movesTo, moves, sumFor_append, sumFor_cons, sumFor_nil]
      omega
    · intro asset
      simp only [movesTo, moves, sumOf_append, sumOf_cons, sumOf_nil]
      omega
  refine ⟨reached.valid.credit can, ?_, reached.others⟩
  refine ⟨hop.curBReceived, reached.amount.1, within, moved, ?_⟩
  intro asset
  have total := moved.total asset
  have gross := grossSum_eq
    (op.moves source.accountID hop.curBReceived hop.offers) asset
  have owed := reached.owed asset
  rw [last] at owed
  simp only [movesTo, moves, grossSum_append, grossSum_cons, grossSum_nil]
    at owed gross
  have debit : (Move.mk source.accountID op.sendAsset
      (-hop.curBReceived)).grossOf asset =
        -if op.sendAsset = asset then hop.curBReceived else 0 := by
    unfold Move.grossOf
    split
    · rfl
    · rfl
  rw [debit] at gross
  simp only [moves] at total ⊢
  omega

theorem settle_attempts (valid : before.Valid)
    (version : before.header.ledgerVersion = 9)
    (found : before.accounts.find? source.accountID = some source)
    (checked : op.doCheckValid = none) (most : op.destAmount ≤ int64Max) :
    Attempts (op.settle computePrice source) before
      (Settles op source.accountID before) (fun result _ => Fails result)
      (fun _ _ => False) := by
  obtain ⟨positive, _, sendValid, destValid, pathValid⟩ :=
    checked_iff.mp checked
  unfold settle
  rw [Attempts.bind_iff]
  refine (creditDestination_attempts valid destValid positive).mono ?_ ?_
    (fun _ _ => id)
  case refine_2 =>
    rintro result after ⟨code | ⟨rfl, _⟩, _⟩
    · exact .of_toPayment code
    · exact fun _ _ impossible => by cases impossible
  rintro _ credited ⟨can, rfl⟩
  have start : Reached op source before
      { curB := op.destAsset, curBReceived := op.destAmount, offers := [] }
      (before.credit op.destination op.destAsset op.destAmount) := by
    refine ⟨valid.credit can, valid.moved_credit can, ?_,
      ⟨positive, most⟩, destValid, fun _ member => ?_⟩
    · intro asset
      simp [movesTo, movesOf, Move.grossOf]
    · exact absurd member List.not_mem_nil
  rw [List.reverse_cons, List.foldlM_append, Attempts.bind_iff,
    Attempts.bind_iff]
  have inside : ∀ hop curA ledger, curA ∈ op.path.reverse →
      Reached op source before hop ledger →
      Attempts (walkHop computePrice source.accountID hop curA) ledger
        (Reached op source before) (fun result _ => Fails result)
        (fun _ _ => False) := by
    intro hop curA ledger member reached
    exact (reached.walkHop version
      (pathValid curA (List.mem_reverse.mp member))).mono
        (fun _ _ => And.left) (fun _ _ => id) (fun _ _ => id)
  refine (Attempts.foldlM inside start).mono ?_ (fun _ _ => id)
    (fun _ _ => id)
  intro hop middle reached
  rw [List.foldlM_cons, Attempts.bind_iff]
  refine (reached.walkHop version sendValid).mono ?_ (fun _ _ => id)
    (fun _ _ => id)
  rintro last walked ⟨reached, sends⟩
  rw [List.foldlM_nil, Attempts.pure_iff, Attempts.bind_iff]
  have ready : SourceReady source walked := by
    refine ⟨?_, ?_⟩
    · rw [reached.moved.present]
      exact Table.contains_eq_true.mpr ⟨source, found⟩
    · intro old
      rw [reached.moved.version, version] at old
      exact absurd old (by decide)
  refine (debitSource_attempts reached.valid ready reached.asset
    reached.amount.1).mono ?_ ?_ (fun _ _ => id)
  · rintro _ after ⟨within, can, paid⟩
    exact reached.settles sends within can paid
  · rintro result after ⟨code | ⟨rfl, _⟩, _⟩
    · exact .of_toPayment code
    · exact fun _ _ impossible => by cases impossible

end PathPaymentOp

/-- A path payment that passes its check does not fail, and where it succeeds
it has settled. -/
theorem pathPayment_settles (computePrice : Price → ℚ) (ledger : LedgerState)
    (op : PathPaymentOp) (source : AccountEntry) (valid : ledger.Valid)
    (version : ledger.header.ledgerVersion = 9)
    (found : ledger.accounts.find? source.accountID = some source)
    (checked : op.doCheckValid = none) (most : op.destAmount ≤ int64Max) :
    ∃ result after, op.doApply computePrice source ledger =
        .ok result after ∧
      ∀ offers last, result = .success offers last →
        PathPaymentOp.Settles op source.accountID ledger offers after := by
  have attempts : Attempts (op.settle computePrice source) ledger _ _ _ :=
    PathPaymentOp.settle_attempts valid version found checked most
  obtain ⟨result, after, applied, outcome⟩ :=
    PathPaymentOp.doApply_of_attempts attempts
  refine ⟨result, after, applied, ?_⟩
  rintro offers last rfl
  obtain ⟨_, _, same, settles⟩ | fails := outcome
  · cases same
    exact settles
  · exact absurd rfl (fails offers last)

def buyerAccount : AccountEntry :=
  { AccountEntry.fresh 2 with balance := 1000000000 }

/-- Another account next to an issuer who sells its asset. -/
def marketLedger : LedgerState :=
  { issuerLedger with
    accounts :=
      { rows := [(1, issuerAccount), (2, buyerAccount)]
        distinct := by decide } }

/-- The buyer sends native units and the issuer gets its own asset back. -/
def buyerPathPayment : PathPaymentOp :=
  { sendAsset := .native, sendMax := 60, destination := 1, destAsset := usd
    destAmount := 50, path := [] }

/-- The operation has claimed one offer, of fifty. -/
def claimsFifty {ε σ : Type} : EStateM.Result ε σ PathPaymentResult → Bool
  | .ok (.success [atom] _) _ => decide (atom.amountBought = 50)
  | _ => false

theorem pathPayment_settles_fifty :
    ∃ atom last after,
      buyerPathPayment.doApply quotient buyerAccount marketLedger =
        .ok (.success [atom] last) after ∧
      atom.amountBought = 50 ∧
      PathPaymentOp.Settles buyerPathPayment 2 marketLedger [atom] after := by
  obtain ⟨result, after, applied, settles⟩ :=
    pathPayment_settles quotient marketLedger buyerPathPayment buyerAccount
      (by decide +kernel) rfl rfl (by decide) (by decide)
  have success : ∃ atom last, result = .success [atom] last ∧
      atom.amountBought = 50 := by
    have run : claimsFifty (buyerPathPayment.doApply quotient buyerAccount
        marketLedger) = true := by
      decide +kernel
    rw [applied] at run
    unfold claimsFifty at run
    split at run
    · rename_i atom last _ same
      cases same
      exact ⟨atom, last, rfl, of_decide_eq_true run⟩
    · cases run
  obtain ⟨atom, last, rfl, bought⟩ := success
  exact ⟨atom, last, after, applied, bought, settles [atom] last rfl⟩

end StellarCore.Transactions
