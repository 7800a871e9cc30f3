import StellarCore.Transactions.OfferExchange
import StellarCore.Transactions.ValidLedger

/-!
# Moving amounts

Balances are changed one at a time.  A change is described on the ledger as a
whole, and a list of moves tells what a sequence of changes adds up to, for
every account and asset and for all holders of an asset together.
-/

namespace StellarCore.Transactions

open StellarCore.Lib

/-- The issuer of an asset has no balance of it. -/
def Asset.isIssuedBy (asset : Asset) (id : AccountID) : Bool :=
  asset ≠ .native && id = asset.getIssuer

namespace LedgerState

/-- A balance as a number, 0 where there is none. -/
def holding (ledger : LedgerState) (id : AccountID) (asset : Asset) : ℤ :=
  if asset = .native then
    (ledger.accounts.find? id).elim 0 AccountEntry.balance
  else
    (ledger.trustLines.find? (id, asset)).elim 0 TrustLineEntry.balance

/-- What all accounts hold of an asset. -/
def total (ledger : LedgerState) (asset : Asset) : ℤ :=
  if asset = .native then
    ledger.accounts.sum (fun _ a => a.balance)
  else
    ledger.trustLines.sum
      (fun key line => if key.2 = asset then line.balance else 0)

/-- Adds to a balance that exists. -/
def credit (ledger : LedgerState) (id : AccountID) (asset : Asset)
    (delta : ℤ) : LedgerState :=
  if asset = .native then
    match ledger.accounts.find? id with
    | none => ledger
    | some a => ledger.putAccount { a with balance := a.balance + delta }
  else
    match ledger.trustLines.find? (id, asset) with
    | none => ledger
    | some line =>
        ledger.putLine { line with balance := line.balance + delta }

/-- The balance can take the change: the issuer of an asset needs none. -/
inductive CanAdjust (ledger : LedgerState) (id : AccountID) :
    Asset → ℤ → Prop
  | native {a : AccountEntry} {delta : ℤ}
      (found : ledger.accounts.find? id = some a)
      (fits : 0 ≤ a.balance + delta ∧ a.balance + delta ≤ int64Max) :
      CanAdjust ledger id .native delta
  | issuer {asset : Asset} {delta : ℤ} (credit : asset ≠ .native)
      (valid : asset.isAssetValid = true) (issuer : id = asset.getIssuer) :
      CanAdjust ledger id asset delta
  | line {asset : Asset} {line : TrustLineEntry} {delta : ℤ}
      (credit : asset ≠ .native)
      (found : ledger.trustLines.find? (id, asset) = some line)
      (authorized : line.flags &&& authorizedFlag ≠ 0)
      (fits : 0 ≤ line.balance + delta ∧ line.balance + delta ≤ line.limit) :
      CanAdjust ledger id asset delta

end LedgerState

section Valid

variable {ledger : LedgerState} {off : AccountID → ℤ}

theorem AccountEntry.isValid_balance {a : AccountEntry} {balance : ℤ}
    (valid : a.isValid = true) (nonneg : 0 ≤ balance) :
    { a with balance }.isValid = true := by
  rw [AccountEntry.isValid_iff] at valid ⊢
  exact { valid with balance := nonneg }

theorem TrustLineEntry.isValid_balance {line : TrustLineEntry} {balance : ℤ}
    (valid : line.isValid = true) (nonneg : 0 ≤ balance)
    (within : balance ≤ line.limit) :
    { line with balance }.isValid = true := by
  rw [TrustLineEntry.isValid_iff] at valid ⊢
  exact { valid with balance := nonneg, within }

namespace LedgerState

theorem ValidUpTo.issuer_lineless (valid : ledger.ValidUpTo off)
    (asset : Asset) :
    ledger.trustLines.find? (asset.getIssuer, asset) = none := by
  cases found : ledger.trustLines.find? (asset.getIssuer, asset) with
  | none => rfl
  | some line =>
      have stored := valid.trustLines.found found
      have holder : line.accountID = asset.getIssuer :=
        congrArg Prod.fst stored.keyed
      have held : line.asset = asset := congrArg Prod.snd stored.keyed
      exact absurd (holder.trans (congrArg Asset.getIssuer held.symm))
        stored.holder

theorem ValidUpTo.credit_issuer (valid : ledger.ValidUpTo off)
    {asset : Asset} (credit : asset ≠ .native) (delta : ℤ) :
    ledger.credit asset.getIssuer asset delta = ledger := by
  rw [LedgerState.credit, if_neg credit, valid.issuer_lineless]

theorem ValidUpTo.credit (valid : ledger.ValidUpTo off) {id : AccountID}
    {asset : Asset} {delta : ℤ} (can : ledger.CanAdjust id asset delta) :
    (ledger.credit id asset delta).ValidUpTo off := by
  cases can with
  | native found fits =>
      rename_i a
      have stored := valid.accounts.found found
      have counted := valid.counted.found found
      rw [LedgerState.credit, if_pos rfl, found]
      refine valid.putAccount
        (AccountEntry.isValid_balance stored.valid fits.1) fits.2
        (fun _ _ => rfl) ?_
      rw [← stored.keyed] at counted
      exact counted
  | issuer credit _ issuer =>
      rw [issuer, valid.credit_issuer credit]
      exact valid
  | line credit found authorized fits =>
      have stored := valid.trustLines.found found
      rw [LedgerState.credit, if_neg credit, found]
      exact valid.putLine
        (TrustLineEntry.isValid_balance stored.valid fits.1 fits.2)
        stored.most stored.holder

end LedgerState

end Valid

/-! ## Lists of moves -/

/-- An amount that comes to an account, or goes from it. -/
structure Move where
  id : AccountID
  asset : Asset
  amount : ℤ
  deriving DecidableEq

namespace Move

/-- What the holders of an asset have more after the move. -/
def amountOf (move : Move) (asset : Asset) : ℤ :=
  if move.asset = asset ∧ asset.isIssuedBy move.id = false then move.amount
  else 0

/-- What one account has more after the move. -/
def amountFor (move : Move) (id : AccountID) (asset : Asset) : ℤ :=
  if move.id = id then move.amountOf asset else 0

end Move

def sumOf (moves : List Move) (asset : Asset) : ℤ :=
  (moves.map (fun move => move.amountOf asset)).sum

def sumFor (moves : List Move) (id : AccountID) (asset : Asset) : ℤ :=
  (moves.map (fun move => move.amountFor id asset)).sum

@[simp] theorem sumOf_nil (asset : Asset) : sumOf [] asset = 0 :=
  rfl

@[simp] theorem sumOf_cons (move : Move) (moves : List Move)
    (asset : Asset) :
    sumOf (move :: moves) asset = move.amountOf asset + sumOf moves asset :=
  List.sum_cons

@[simp] theorem sumOf_append (first second : List Move) (asset : Asset) :
    sumOf (first ++ second) asset = sumOf first asset + sumOf second asset := by
  simp [sumOf]

@[simp] theorem sumFor_nil (id : AccountID) (asset : Asset) :
    sumFor [] id asset = 0 :=
  rfl

@[simp] theorem sumFor_cons (move : Move) (moves : List Move)
    (id : AccountID) (asset : Asset) :
    sumFor (move :: moves) id asset =
      move.amountFor id asset + sumFor moves id asset :=
  List.sum_cons

@[simp] theorem sumFor_append (first second : List Move) (id : AccountID)
    (asset : Asset) :
    sumFor (first ++ second) id asset =
      sumFor first id asset + sumFor second id asset := by
  simp [sumFor]

namespace Move

def grossOf (move : Move) (asset : Asset) : ℤ :=
  if move.asset = asset then move.amount else 0

/-- What comes back to the issuer, who holds nothing of it. -/
def issuedOf (move : Move) (asset : Asset) : ℤ :=
  if move.asset = asset ∧ asset.isIssuedBy move.id = true then move.amount
  else 0

theorem gross_eq (move : Move) (asset : Asset) :
    move.grossOf asset = move.amountOf asset + move.issuedOf asset := by
  unfold grossOf amountOf issuedOf
  by_cases same : move.asset = asset
  · cases asset.isIssuedBy move.id with
    | false => simp [same]
    | true => simp [same]
  · simp [same]

end Move

def grossSum (moves : List Move) (asset : Asset) : ℤ :=
  (moves.map (fun move => move.grossOf asset)).sum

/-- What an issuer was paid, less what it paid. -/
def issuerSum (moves : List Move) (asset : Asset) : ℤ :=
  (moves.map (fun move => move.issuedOf asset)).sum

theorem grossSum_eq (moves : List Move) (asset : Asset) :
    grossSum moves asset = sumOf moves asset + issuerSum moves asset := by
  unfold grossSum sumOf issuerSum
  rw [← List.sum_map_add]
  simp only [Move.gross_eq]

@[simp] theorem grossSum_nil (asset : Asset) : grossSum [] asset = 0 :=
  rfl

@[simp] theorem grossSum_cons (move : Move) (moves : List Move)
    (asset : Asset) :
    grossSum (move :: moves) asset =
      move.grossOf asset + grossSum moves asset :=
  List.sum_cons

@[simp] theorem grossSum_append (first second : List Move) (asset : Asset) :
    grossSum (first ++ second) asset =
      grossSum first asset + grossSum second asset := by
  simp [grossSum]

/-! ## Changes between two ledgers -/

/-- What a payment leaves alone in an account. -/
def AccountEntry.terms (a : AccountEntry) : AccountEntry :=
  { a with balance := 0, numSubEntries := 0, lastModified := 0 }

def TrustLineEntry.terms (line : TrustLineEntry) : TrustLineEntry :=
  { line with balance := 0, lastModified := 0 }

def LedgerHeader.terms (header : LedgerHeader) : LedgerHeader :=
  { header with idPool := 0 }

/-- The moves tell all that has changed in accounts and trust lines as far as
amounts go, and nobody else's rows were written. -/
structure Moved (moves : List Move) (before after : LedgerState) : Prop where
  holding : ∀ id asset, after.holding id asset =
    before.holding id asset + sumFor moves id asset
  total : ∀ asset, after.total asset =
    before.total asset + sumOf moves asset
  accounts : ∀ id, (∀ move ∈ moves, move.id ≠ id) →
    after.accounts.find? id = before.accounts.find? id
  lines : ∀ id asset, (∀ move ∈ moves, move.id ≠ id) →
    after.trustLines.find? (id, asset) = before.trustLines.find? (id, asset)
  present : ∀ id, after.accounts.contains id = before.accounts.contains id
  accountTerms : ∀ id, (after.accounts.find? id).map AccountEntry.terms =
    (before.accounts.find? id).map AccountEntry.terms
  lineTerms : ∀ key, (after.trustLines.find? key).map TrustLineEntry.terms =
    (before.trustLines.find? key).map TrustLineEntry.terms
  data : after.data = before.data
  header : after.header.terms = before.header.terms

namespace Moved

variable {before middle after : LedgerState} {first second : List Move}

theorem of_eq (accounts : after.accounts = before.accounts)
    (lines : after.trustLines = before.trustLines)
    (data : after.data = before.data)
    (header : after.header.terms = before.header.terms) :
    Moved [] before after where
  holding id asset := by
    rw [sumFor_nil, add_zero, LedgerState.holding, accounts, lines]
    rfl
  total asset := by
    rw [sumOf_nil, add_zero, LedgerState.total, accounts, lines]
    rfl
  accounts id _ := by rw [accounts]
  lines id asset _ := by rw [lines]
  present id := by rw [accounts]
  accountTerms id := by rw [accounts]
  lineTerms key := by rw [lines]
  data := data
  header := header

theorem version (moved : Moved first before after) :
    after.header.ledgerVersion = before.header.ledgerVersion := by
  have same := congrArg LedgerHeader.ledgerVersion moved.header
  exact same

theorem refl (ledger : LedgerState) : Moved [] ledger ledger :=
  of_eq rfl rfl rfl rfl

theorem append (one : Moved first before middle)
    (two : Moved second middle after) : Moved (first ++ second) before after
    where
  holding id asset := by
    rw [two.holding, one.holding, sumFor_append, add_assoc]
  total asset := by
    rw [two.total, one.total, sumOf_append, add_assoc]
  accounts id untouched := by
    rw [List.forall_mem_append] at untouched
    rw [two.accounts id untouched.2, one.accounts id untouched.1]
  lines id asset untouched := by
    rw [List.forall_mem_append] at untouched
    rw [two.lines id asset untouched.2, one.lines id asset untouched.1]
  present id := by rw [two.present, one.present]
  accountTerms id := (two.accountTerms id).trans (one.accountTerms id)
  lineTerms key := (two.lineTerms key).trans (one.lineTerms key)
  data := two.data.trans one.data
  header := two.header.trans one.header

/-- Moves that add up to the same tell the same. -/
theorem of_sums (moved : Moved first before after)
    (ids : ∀ move ∈ first, ∃ other ∈ second, other.id = move.id)
    (perAccount : ∀ id asset, sumFor first id asset = sumFor second id asset)
    (perAsset : ∀ asset, sumOf first asset = sumOf second asset) :
    Moved second before after :=
  { moved with
    holding := by
      intro id asset
      rw [← perAccount]
      exact moved.holding id asset
    total := by
      intro asset
      rw [← perAsset]
      exact moved.total asset
    accounts := by
      intro id untouched
      apply moved.accounts
      intro move member
      obtain ⟨other, listed, same⟩ := ids move member
      exact same ▸ untouched other listed
    lines := by
      intro id asset untouched
      apply moved.lines
      intro move member
      obtain ⟨other, listed, same⟩ := ids move member
      exact same ▸ untouched other listed }

end Moved

section Steps

variable {ledger : LedgerState} {off : AccountID → ℤ}

theorem Move.amountOf_native {id : AccountID} {asset : Asset} {delta : ℤ} :
    (Move.mk id .native delta).amountOf asset =
      if asset = .native then delta else 0 := by
  unfold Move.amountOf Asset.isIssuedBy
  by_cases native : asset = .native
  · subst native
    simp
  · have other : Asset.native ≠ asset := Ne.symm native
    simp [native, other]

theorem moved_putAccount {a old : AccountEntry} {delta : ℤ}
    (found : ledger.accounts.find? a.accountID = some old)
    (balance : a.balance = old.balance + delta)
    (terms : a.terms = old.terms) :
    Moved [⟨a.accountID, .native, delta⟩] ledger (ledger.putAccount a) where
  holding id asset := by
    simp only [sumFor_cons, sumFor_nil, add_zero, Move.amountFor,
      Move.amountOf_native, LedgerState.holding, LedgerState.putAccount,
      Table.find?_update]
    by_cases native : asset = .native
    · by_cases same : id = a.accountID
      · subst same
        simp [native, found, balance]
      · simp [native, same, Ne.symm same]
    · simp [native]
  total asset := by
    simp only [sumOf_cons, sumOf_nil, add_zero, Move.amountOf_native,
      LedgerState.total, LedgerState.putAccount]
    by_cases native : asset = .native
    · simp only [native, ↓reduceIte]
      rw [Table.sum_update found, balance]
      omega
    · simp [native]
  accounts id untouched := by
    have other : id ≠ a.accountID :=
      Ne.symm (untouched _ List.mem_cons_self)
    simp [LedgerState.putAccount, other]
  lines _ _ _ := rfl
  present id := LedgerState.contains_putAccount a id
  accountTerms id := by
    by_cases same : id = a.accountID
    · subst same
      simpa [LedgerState.putAccount, found, AccountEntry.terms] using terms
    · simp [LedgerState.putAccount, same]
  lineTerms _ := rfl
  data := rfl
  header := rfl

theorem moved_putLine {line old : TrustLineEntry} {delta : ℤ}
    (credit : line.asset ≠ .native)
    (holder : line.accountID ≠ line.asset.getIssuer)
    (found : ledger.trustLines.find? (line.accountID, line.asset) = some old)
    (balance : line.balance = old.balance + delta)
    (terms : line.terms = old.terms) :
    Moved [⟨line.accountID, line.asset, delta⟩] ledger
      (ledger.putLine line) where
  holding id asset := by
    simp only [sumFor_cons, sumFor_nil, add_zero, Move.amountFor,
      Move.amountOf, Asset.isIssuedBy, LedgerState.holding,
      LedgerState.putLine, Table.find?_update, Prod.mk.injEq]
    by_cases held : asset = line.asset
    · subst held
      by_cases same : id = line.accountID
      · subst same
        simp [credit, holder, found, balance]
      · simp [credit, same, Ne.symm same]
    · simp [held, Ne.symm held]
  total asset := by
    simp only [sumOf_cons, sumOf_nil, add_zero, Move.amountOf,
      Asset.isIssuedBy, LedgerState.total, LedgerState.putLine]
    by_cases held : asset = line.asset
    · subst held
      rw [if_neg credit, if_neg credit, Table.sum_update found]
      simp [holder, balance]
      omega
    · rw [Table.sum_update found]
      simp [Ne.symm held]
  accounts _ _ := rfl
  lines id asset untouched := by
    have other : id ≠ line.accountID :=
      Ne.symm (untouched _ List.mem_cons_self)
    simp [LedgerState.putLine, other]
  present _ := rfl
  accountTerms _ := rfl
  lineTerms key := by
    by_cases same : key = (line.accountID, line.asset)
    · subst same
      simpa [LedgerState.putLine, found, TrustLineEntry.terms] using terms
    · simp [LedgerState.putLine, same]
  data := rfl
  header := rfl

theorem Moved.idle {move : Move} (zero : ∀ asset, move.amountOf asset = 0) :
    Moved [move] ledger ledger where
  holding id asset := by
    rw [sumFor_cons, sumFor_nil, Move.amountFor, zero, ite_self, add_zero,
      add_zero]
  total asset := by
    rw [sumOf_cons, sumOf_nil, zero, add_zero, add_zero]
  accounts _ _ := rfl
  lines _ _ _ := rfl
  present _ := rfl
  accountTerms _ := rfl
  lineTerms _ := rfl
  data := rfl
  header := rfl

theorem Move.amountOf_zero (id : AccountID) (held asset : Asset) :
    (Move.mk id held 0).amountOf asset = 0 :=
  ite_self 0

theorem Move.amountOf_issuer {asset : Asset} (credit : asset ≠ .native)
    (delta : ℤ) (other : Asset) :
    (Move.mk asset.getIssuer asset delta).amountOf other = 0 := by
  unfold Move.amountOf Asset.isIssuedBy
  by_cases same : asset = other
  · subst same
    simp [credit]
  · simp [same]

theorem LedgerState.ValidUpTo.moved_credit (valid : ledger.ValidUpTo off)
    {id : AccountID} {asset : Asset} {delta : ℤ}
    (can : ledger.CanAdjust id asset delta) :
    Moved [⟨id, asset, delta⟩] ledger (ledger.credit id asset delta) := by
  cases can with
  | native found fits =>
      rename_i a
      have keyed := (valid.accounts.found found).keyed
      rw [LedgerState.credit, if_pos rfl, found]
      rw [← keyed] at found
      rw [← keyed]
      let after : AccountEntry := { a with balance := a.balance + delta }
      have moved : Moved [⟨after.accountID, .native, delta⟩] ledger
          (ledger.putAccount after) := moved_putAccount found rfl rfl
      exact moved
  | issuer credit _ issuer =>
      rw [issuer, valid.credit_issuer credit]
      exact .idle (Move.amountOf_issuer credit delta)
  | line credit found authorized fits =>
      rename_i line
      have stored := valid.trustLines.found found
      have holder : line.accountID = id := congrArg Prod.fst stored.keyed
      have held : line.asset = asset := congrArg Prod.snd stored.keyed
      rw [LedgerState.credit, if_neg credit, found]
      rw [← holder, ← held] at found
      rw [← held] at credit
      rw [← holder, ← held]
      let after : TrustLineEntry :=
        { line with balance := line.balance + delta }
      have moved : Moved [⟨after.accountID, after.asset, delta⟩] ledger
          (ledger.putLine after) :=
        moved_putLine credit stored.holder found rfl rfl
      exact moved

end Steps

end StellarCore.Transactions
