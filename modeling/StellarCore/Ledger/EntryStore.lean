import Mathlib.Data.Sum.Order
import Mathlib.Data.Prod.Lex
import StellarCore.Ledger.LedgerDelta
import StellarCore.Lib.LruCache

/-!
# Accounts and trust lines in the database

The cache helpers of `EntryFrame.cpp`, and loading and storing in
`AccountFrame.cpp` and `TrustFrame.cpp`.  A ledger delta and the savepoint it
is paired with are a scope; the innermost one comes first.  Where a failed
assertion ends the process there is no store left (`none`); where an exception
is thrown the store stays as it is at that point.
-/

namespace StellarCore.Ledger

open StellarCore.Lib

inductive LedgerKey (α β : Type) where
  | account (accountID : α)
  | trustLine (accountID : α) (asset : β)

namespace LedgerKey

variable {α β : Type}

def toLexSum : LedgerKey α β → Lex (α ⊕ Lex (α × β))
  | .account accountID => toLex (.inl accountID)
  | .trustLine accountID asset => toLex (.inr (toLex (accountID, asset)))

theorem toLexSum_injective :
    Function.Injective (toLexSum : LedgerKey α β → _) := by
  intro first second same
  cases first with
  | account first =>
      cases second with
      | account second =>
          cases same
          rfl
      | trustLine second asset => cases same
  | trustLine first asset =>
      cases second with
      | account second => cases same
      | trustLine second other =>
          cases same
          rfl

/-- `LedgerEntryIdCmp`. -/
instance [LinearOrder α] [LinearOrder β] : LinearOrder (LedgerKey α β) :=
  LinearOrder.lift' toLexSum toLexSum_injective

end LedgerKey

/-- The columns of `accounts`; `rest` are those that nothing here reads. -/
structure AccountRow (ρ : Type) where
  numSubEntries : ℕ
  lastModified : ℕ
  rest : ρ
  deriving DecidableEq, Repr

/-- A signer is its key and its weight. -/
structure AccountEntry (α ρ σ : Type) where
  accountID : α
  row : AccountRow ρ
  signers : List (σ × ℕ)
  deriving DecidableEq, Repr

structure TrustRow (φ : Type) where
  lastModified : ℕ
  rest : φ
  deriving DecidableEq, Repr

structure TrustLineEntry (α β φ : Type) where
  accountID : α
  asset : β
  row : TrustRow φ
  deriving DecidableEq, Repr

inductive LedgerEntry (α β ρ φ σ : Type) where
  | account (entry : AccountEntry α ρ σ)
  | trustLine (entry : TrustLineEntry α β φ)
  deriving DecidableEq, Repr

variable {α β ρ φ σ η : Type}

def ledgerEntryKey : LedgerEntry α β ρ φ σ → LedgerKey α β
  | .account entry => .account entry.accountID
  | .trustLine entry => .trustLine entry.accountID entry.asset

/-- The tables `accounts`, `signers` and `trustlines`. -/
structure Tables (α β ρ φ σ : Type) where
  accounts : α → Option (AccountRow ρ)
  signers : α → List (σ × ℕ)
  trustlines : α → β → Option (TrustRow φ)

structure StoreConfig (α β ρ φ σ η : Type) where
  getIssuer : β → α
  isValidAccount : AccountEntry α ρ σ → Bool
  isValidTrustLine : TrustLineEntry α β φ → Bool
  ledgerSeq : η → ℕ
  mUpdateLastModified : Bool

structure Scope (α β ρ φ σ η : Type) [LinearOrder α] [LinearOrder β] where
  delta : LedgerDelta (LedgerKey α β) (LedgerEntry α β ρ φ σ) η
  savepoint : Tables α β ρ φ σ

/-- `mHeader` is the header that the outermost delta is opened over. -/
structure EntryStore (α β ρ φ σ η : Type) [LinearOrder α]
    [LinearOrder β] where
  db : Tables α β ρ φ σ
  cache : LruCache (LedgerKey α β) (Option (LedgerEntry α β ρ φ σ))
  scopes : List (Scope α β ρ φ σ η)
  mHeader : η

/-! ## Queries -/

namespace Tables

variable (db : Tables α β ρ φ σ)

def selectTrustLine (accountID : α) (asset : β) :
    Option (TrustLineEntry α β φ) :=
  (db.trustlines accountID asset).map fun row =>
    { accountID := accountID
      asset := asset
      row := row }

variable [LinearOrder σ]

def sortSigners (signers : List (σ × ℕ)) : List (σ × ℕ) :=
  signers.mergeSort (fun first second => first.1 ≤ second.1)

def loadSigners (accountID : α) : List (σ × ℕ) :=
  sortSigners (db.signers accountID)

def selectAccount (accountID : α) : Option (AccountEntry α ρ σ) :=
  (db.accounts accountID).map fun row =>
    { accountID := accountID
      row := row
      signers := sortSigners
        (if row.numSubEntries ≠ 0 then db.loadSigners accountID else []) }

/-- What a direct query returns. -/
def select : LedgerKey α β → Option (LedgerEntry α β ρ φ σ)
  | .account accountID => (db.selectAccount accountID).map .account
  | .trustLine accountID asset =>
      (db.selectTrustLine accountID asset).map .trustLine

end Tables

/-- The walk of `applySigners` over the new and the old signers, in the order
of their keys: the rows left in the table, whether a statement failed and
whether something changed. -/
def applySignersWalk [LinearOrder σ] (rows : List (σ × ℕ)) (changed : Bool) :
    List (σ × ℕ) → List (σ × ℕ) → List (σ × ℕ) × Bool × Bool
  | [], [] => (rows, false, changed)
  | new :: news, [] =>
      if new.1 ∈ rows.map Prod.fst then (rows, true, changed)
      else applySignersWalk (rows ++ [new]) true news []
  | [], old :: olds =>
      applySignersWalk (rows.filter (fun row => row.1 ≠ old.1)) true [] olds
  | new :: news, old :: olds =>
      if new.1 = old.1 then
        if new.2 ≠ old.2 then
          applySignersWalk
            (rows.map (fun row => if row.1 = new.1 then new else row)) true
            news olds
        else applySignersWalk rows changed news olds
      else if new.1 < old.1 then
        if new.1 ∈ rows.map Prod.fst then (rows, true, changed)
        else applySignersWalk (rows ++ [new]) true news (old :: olds)
      else
        applySignersWalk (rows.filter (fun row => row.1 ≠ old.1)) true
          (new :: news) olds
termination_by news olds => news.length + olds.length

inductive Loaded (ε : Type) where
  | frame (entry : Option ε)
  | issuerFrame
  | thrown
  deriving DecidableEq, Repr

namespace EntryStore

variable [LinearOrder α] [LinearOrder β]
  (config : StoreConfig α β ρ φ σ η) (store : EntryStore α β ρ φ σ η)

/-! ## The cache -/

def flushCachedEntry (key : LedgerKey α β) : EntryStore α β ρ φ σ η :=
  { store with cache := store.cache.erase key }

def putCachedEntry (key : LedgerKey α β)
    (p : Option (LedgerEntry α β ρ φ σ)) : EntryStore α β ρ φ σ η :=
  { store with cache := store.cache.put key p }

/-! ## The innermost delta -/

/-- Record a change in the innermost delta; a failed assertion ends the
process. -/
def record
    (change : LedgerDelta (LedgerKey α β) (LedgerEntry α β ρ φ σ) η →
      Except DeltaFailure
        (LedgerDelta (LedgerKey α β) (LedgerEntry α β ρ φ σ) η)) :
    Option (EntryStore α β ρ φ σ η) :=
  match store.scopes with
  | [] => none
  | scope :: scopes =>
      match change scope.delta with
      | .error _ => none
      | .ok delta =>
          some { store with scopes := { scope with delta } :: scopes }

/-- `delta.recordEntry` for an entry that was loaded. -/
def recordEntry (entry : LedgerEntry α β ρ φ σ) : EntryStore α β ρ φ σ η :=
  match store.scopes with
  | [] => store
  | scope :: scopes =>
      { store with
        scopes :=
          { scope with
            delta := scope.delta.recordEntry ledgerEntryKey entry } ::
              scopes }

/-- `EntryFrame::touch`: the new `lastModifiedLedgerSeq`. -/
def touch (lastModified : ℕ) : Option ℕ :=
  match store.scopes with
  | [] => none
  | scope :: _ =>
      if config.mUpdateLastModified then
        if config.ledgerSeq scope.delta.mCurrentHeader = 0 then none
        else some (config.ledgerSeq scope.delta.mCurrentHeader)
      else some lastModified

/-! ## `TrustFrame` -/

/-- `delta` says whether there is a delta to record the entry in. -/
def recordLoaded (delta : Bool) (entry : LedgerEntry α β ρ φ σ) :
    EntryStore α β ρ φ σ η :=
  if delta then store.recordEntry entry else store

/-- The part of `loadTrustLine` that asks the database. -/
def queryTrustLine (accountID : α) (asset : β) (delta : Bool) :
    Loaded (LedgerEntry α β ρ φ σ) × EntryStore α β ρ φ σ η :=
  match store.db.selectTrustLine accountID asset with
  | some line =>
      let entry : LedgerEntry α β ρ φ σ := .trustLine line
      if config.isValidTrustLine line then
        (.frame (some entry),
          (store.putCachedEntry (ledgerEntryKey entry)
            (some entry)).recordLoaded delta entry)
      else (.thrown, store)
  | none =>
      (.frame none, store.putCachedEntry (.trustLine accountID asset) none)

/-- A cached absence is not trusted: the query is made again. -/
def loadTrustLine (accountID : α) (asset : β) (delta : Bool) :
    Loaded (LedgerEntry α β ρ φ σ) × EntryStore α β ρ φ σ η :=
  if accountID = config.getIssuer asset then (.issuerFrame, store)
  else
    match store.cache.get? (.trustLine accountID asset) with
    | some (some p, cache) =>
        (.frame (some p),
          recordLoaded { store with cache := cache } delta p)
    | some (none, cache) =>
        queryTrustLine config { store with cache := cache } accountID asset
          delta
    | none => store.queryTrustLine config accountID asset delta

def storeDeleteTrustLine (accountID : α) (asset : β) :
    Option (EntryStore α β ρ φ σ η) :=
  let store := store.flushCachedEntry (.trustLine accountID asset)
  record
    { store with
      db :=
        { store.db with
          trustlines := Function.update store.db.trustlines accountID
            (Function.update (store.db.trustlines accountID) asset none) } }
    (fun delta => delta.deleteEntry (.trustLine accountID asset))

/-- `storeAdd` and `storeChange` of a trust line, which differ in the
statement and in what the delta is told. -/
def storeTrustLine (insert : Bool) (line : TrustLineEntry α β φ)
    (mIsIssuer : Bool) : Option (EntryStore α β ρ φ σ η) :=
  if !config.isValidTrustLine line then some store
  else
    let store :=
      store.flushCachedEntry (.trustLine line.accountID line.asset)
    if mIsIssuer then some store
    else
      (store.touch config line.row.lastModified).bind fun lastModified =>
        let entry :=
          { line with row := { line.row with lastModified := lastModified } }
        if (store.db.trustlines entry.accountID entry.asset).isSome =
            insert then some store
        else
          record
            { store with
              db :=
                { store.db with
                  trustlines := Function.update store.db.trustlines
                    entry.accountID
                    (Function.update (store.db.trustlines entry.accountID)
                      entry.asset (some entry.row)) } }
            (fun delta =>
              if insert then
                delta.addEntry ledgerEntryKey (.trustLine entry)
              else delta.modEntry ledgerEntryKey (.trustLine entry))

def storeAddTrustLine (line : TrustLineEntry α β φ) (mIsIssuer : Bool) :
    Option (EntryStore α β ρ φ σ η) :=
  store.storeTrustLine config true line mIsIssuer

def storeChangeTrustLine (line : TrustLineEntry α β φ)
    (mIsIssuer : Bool) : Option (EntryStore α β ρ φ σ η) :=
  store.storeTrustLine config false line mIsIssuer

/-! ## Scopes -/

def openScope : EntryStore α β ρ φ σ η :=
  { store with
    scopes :=
      { delta :=
          match store.scopes with
          | [] => LedgerDelta.start store.mHeader
          | scope :: _ => scope.delta.nested
        savepoint := store.db } :: store.scopes }

/-- Set the header of the innermost delta. -/
def setHeader (header : η) : EntryStore α β ρ φ σ η :=
  match store.scopes with
  | [] => store
  | scope :: scopes =>
      { store with
        scopes :=
          { scope with
            delta := { scope.delta with mCurrentHeader := header } } ::
              scopes }

/-- A header that changed in the meantime is an exception. -/
def commitScope [DecidableEq η] : Option (EntryStore α β ρ φ σ η) :=
  match store.scopes with
  | [] => none
  | [scope] =>
      if scope.delta.mPreviousHeaderValue = store.mHeader then
        some { store with
          scopes := []
          mHeader := scope.delta.mCurrentHeader }
      else some store
  | scope :: outer :: scopes =>
      match outer.delta.commit ledgerEntryKey scope.delta with
      | .ok delta =>
          some { store with scopes := { outer with delta } :: scopes }
      | .error .unexpectedHeaderState => some store
      | .error _ => none

/-- The keys that `rollback` flushes. -/
def flushedKeys
    (delta : LedgerDelta (LedgerKey α β) (LedgerEntry α β ρ φ σ) η) :
    List (LedgerKey α β) :=
  delta.mDelete.sort (· ≤ ·) ++ delta.mNew.keys.sort (· ≤ ·) ++
    delta.mMod.keys.sort (· ≤ ·)

def rollbackScope : Option (EntryStore α β ρ φ σ η) :=
  match store.scopes with
  | [] => none
  | scope :: scopes =>
      some ((flushedKeys scope.delta).foldl flushCachedEntry
        { store with
          db := scope.savepoint
          scopes := scopes })

/-! ## `AccountFrame` -/

variable [LinearOrder σ]

def loadAccount (accountID : α) :
    Option (Option (LedgerEntry α β ρ φ σ) × EntryStore α β ρ φ σ η) :=
  match store.cache.get? (.account accountID) with
  | some (p, cache) => some (p, { store with cache := cache })
  | none =>
      match store.db.selectAccount accountID with
      | none => some (none, store.putCachedEntry (.account accountID) none)
      | some account =>
          if config.isValidAccount account then
            some (some (.account account),
              store.putCachedEntry (.account accountID)
                (some (.account account)))
          else none

/-- `loadAccount` with a delta. -/
def loadAccountDelta (accountID : α) :
    Option (Option (LedgerEntry α β ρ φ σ) × EntryStore α β ρ φ σ η) :=
  (store.loadAccount config accountID).map fun (a, store) =>
    match a with
    | some entry => (a, store.recordEntry entry)
    | none => (a, store)

def storeDeleteAccount (accountID : α) : Option (EntryStore α β ρ φ σ η) :=
  let store := store.flushCachedEntry (.account accountID)
  record
    { store with
      db :=
        { store.db with
          accounts := Function.update store.db.accounts accountID none
          signers := Function.update store.db.signers accountID [] } }
    (fun delta => delta.deleteEntry (.account accountID))

def applySigners (entry : AccountEntry α ρ σ) (insert : Bool) :
    EntryStore α β ρ φ σ η :=
  let signers :=
    if insert then [] else store.db.loadSigners entry.accountID
  let walk := applySignersWalk (store.db.signers entry.accountID) false
    entry.signers signers
  let store :=
    { store with
      db :=
        { store.db with
          signers := Function.update store.db.signers entry.accountID
            walk.1 } }
  if !walk.2.1 && walk.2.2 then
    store.flushCachedEntry (.account entry.accountID)
  else store

/-- An `INSERT` of a row that is there and an `UPDATE` of one that is not
throw. -/
def storeUpdate (account : AccountEntry α ρ σ) (mUpdateSigners : Bool)
    (insert : Bool) : Option (EntryStore α β ρ φ σ η) :=
  if !config.isValidAccount account then none
  else
    (store.touch config account.row.lastModified).bind fun lastModified =>
      let entry :=
        { account with
          row := { account.row with lastModified := lastModified } }
      let store := store.flushCachedEntry (.account entry.accountID)
      if (store.db.accounts entry.accountID).isSome = insert then some store
      else
        (record
          { store with
            db :=
              { store.db with
                accounts := Function.update store.db.accounts
                  entry.accountID (some entry.row) } }
          (fun delta =>
            if insert then delta.addEntry ledgerEntryKey (.account entry)
            else delta.modEntry ledgerEntryKey (.account entry))).map
        fun store =>
          if mUpdateSigners then store.applySigners entry insert else store

end EntryStore

inductive StoreEvent (α β ρ φ σ η : Type) where
  | loadAccount (accountID : α) (delta : Bool)
  | loadTrustLine (accountID : α) (asset : β) (delta : Bool)
  | storeAddAccount (account : AccountEntry α ρ σ) (mUpdateSigners : Bool)
  | storeChangeAccount (account : AccountEntry α ρ σ)
      (mUpdateSigners : Bool)
  | storeDeleteAccount (accountID : α)
  | storeAddTrustLine (line : TrustLineEntry α β φ) (mIsIssuer : Bool)
  | storeChangeTrustLine (line : TrustLineEntry α β φ) (mIsIssuer : Bool)
  | storeDeleteTrustLine (accountID : α) (asset : β)
  | setHeader (header : η)
  | openScope
  | commitScope
  | rollbackScope

namespace EntryStore

variable [LinearOrder α] [LinearOrder β] [LinearOrder σ] [DecidableEq η]
  (config : StoreConfig α β ρ φ σ η)

def step (store : EntryStore α β ρ φ σ η) :
    StoreEvent α β ρ φ σ η → Option (EntryStore α β ρ φ σ η)
  | .loadAccount accountID delta =>
      if delta then
        (store.loadAccountDelta config accountID).map Prod.snd
      else (store.loadAccount config accountID).map Prod.snd
  | .loadTrustLine accountID asset delta =>
      some (store.loadTrustLine config accountID asset delta).2
  | .storeAddAccount account mUpdateSigners =>
      store.storeUpdate config account mUpdateSigners true
  | .storeChangeAccount account mUpdateSigners =>
      store.storeUpdate config account mUpdateSigners false
  | .storeDeleteAccount accountID => store.storeDeleteAccount accountID
  | .storeAddTrustLine line mIsIssuer =>
      store.storeAddTrustLine config line mIsIssuer
  | .storeChangeTrustLine line mIsIssuer =>
      store.storeChangeTrustLine config line mIsIssuer
  | .storeDeleteTrustLine accountID asset =>
      store.storeDeleteTrustLine accountID asset
  | .setHeader header => some (store.setHeader header)
  | .openScope => some store.openScope
  | .commitScope => store.commitScope
  | .rollbackScope => store.rollbackScope

/-- `none` once the process has ended. -/
def run (store : EntryStore α β ρ φ σ η)
    (events : List (StoreEvent α β ρ φ σ η)) :
    Option (EntryStore α β ρ φ σ η) :=
  events.foldlM (step config) store

end EntryStore

end StellarCore.Ledger
