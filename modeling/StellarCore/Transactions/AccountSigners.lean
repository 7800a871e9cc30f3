import StellarCore.Crypto.CanonicalKeys
import StellarCore.Lib.Containers
import StellarCore.Lib.Program

/-!
# The rows of an account and of its signers

`AccountFrame.cpp` on the tables `accounts` and `signers`, whose columns hold
keys as text.  Of a row of `accounts` there are its key and `lastmodified`.
The database also has the accounts with an entry in the cache and, one after
the other, what `get_affected_rows` returned for the statements on `signers`
that are checked.
-/

namespace StellarCore.Transactions

open StellarCore.Lib StellarCore.Crypto KeyUtils

abbrev Text := List UInt8

structure Database where
  accounts : Table Text ℕ
  signers : Table (Text × Text) ℕ
  entryCache : List AccountID
  affectedRows : List ℕ

/-- `uniqueConstraint` is the exception of the database for a row whose key
is there already. -/
inductive SqlFailure where
  | assertion
  | runtimeError (what : String)
  | invalidArgument (what : String)
  | uniqueConstraint
  deriving DecidableEq

abbrev Sql := EStateM SqlFailure Database

def flushCachedEntry (accountID : AccountID) : Sql Unit :=
  modify (fun db =>
    { db with entryCache := db.entryCache.filter (· ≠ accountID) })

/-! ## Statements on signers -/

/-- The end of a statement: its rows, and the check of their number. -/
def executed (affected : ℕ) (signers : Table (Text × Text) ℕ) :
    Sql Unit := do
  modify (fun db =>
    { db with signers, affectedRows := db.affectedRows ++ [affected] })
  if affected ≠ 1 then
    throw (.runtimeError "Could not update data in SQL")

/-- `UPDATE signers set weight=:v1 WHERE accountid=:v2 AND publickey=:v3`. -/
def updateSigner (key : Text × Text) (weight : ℕ) : Sql Unit := do
  let db ← get
  executed (db.signers.matching key) (db.signers.update key weight)

/-- `INSERT INTO signers (accountid,publickey,weight) VALUES (:v1,:v2,:v3)`. -/
def insertSigner (key : Text × Text) (weight : ℕ) : Sql Unit := do
  let db ← get
  if db.signers.contains key then
    throw .uniqueConstraint
  else
    executed 1 (db.signers.insert key weight)

/-- `DELETE from signers WHERE accountid=:v2 AND publickey=:v3`. -/
def deleteSigner (key : Text × Text) : Sql Unit := do
  let db ← get
  executed (db.signers.matching key) (db.signers.erase key)

/-! ## Loading and storing signers -/

def signerCompare (s1 s2 : Signer) : Bool :=
  s1.key < s2.key

/-- A row of the result of the query. -/
def readSigner (row : (Text × Text) × ℕ) : Except InvalidArgument Signer := do
  let key ← fromStrKey SignerKey row.1.2
  return { key, weight := row.2 }

def loadSigners (sorter : Sorter) (actIDStrKey : Text) :
    Sql (List Signer) := do
  let rows := (← get).signers.rows.filter
    (fun row => row.1.1 = actIDStrKey)
  match rows.mapM readSigner with
  | .error reason => throw (.invalidArgument reason.what)
  | .ok res => return sorter.sort signerCompare res

/-- The loop over both lists, from the smallest key to the biggest; the flag
is `changed`. -/
def applyLoop (actIDStrKey : Text) :
    List Signer → List Signer → Bool → Sql Bool
  | [], [], changed => return changed
  | new :: news, [], _ => do
      insertSigner (actIDStrKey, toStrKey new.key) new.weight
      applyLoop actIDStrKey news [] true
  | [], old :: olds, _ => do
      deleteSigner (actIDStrKey, toStrKey old.key)
      applyLoop actIDStrKey [] olds true
  | new :: news, old :: olds, changed => do
      if new.key = old.key then
        if new.weight ≠ old.weight then
          updateSigner (actIDStrKey, toStrKey new.key) new.weight
          applyLoop actIDStrKey news olds true
        else
          applyLoop actIDStrKey news olds changed
      else if new.key < old.key then
        insertSigner (actIDStrKey, toStrKey new.key) new.weight
        applyLoop actIDStrKey news (old :: olds) true
      else
        deleteSigner (actIDStrKey, toStrKey old.key)
        applyLoop actIDStrKey (new :: news) olds true
termination_by news olds => news.length + olds.length

/-- Nothing is loaded for an account that is inserted. -/
def oldSigners (sorter : Sorter) (actIDStrKey : Text) (insert : Bool) :
    Sql (List Signer) :=
  if insert then return [] else loadSigners sorter actIDStrKey

def applySigners (sorter : Sorter) (a : AccountEntry) (insert : Bool) :
    Sql Unit := do
  let actIDStrKey := toStrKey a.accountID
  let signers ← oldSigners sorter actIDStrKey insert
  let changed ← applyLoop actIDStrKey a.signers signers false
  if changed then
    flushCachedEntry a.accountID

/-! ## Storing accounts -/

structure AccountFrame where
  mAccountEntry : AccountEntry
  mUpdateSigners : Bool

/-- The statement on `accounts`. -/
def storeAccountRow (actIDStrKey : Text) (lastModified : ℕ)
    (insert : Bool) : Sql Unit := do
  let db ← get
  if insert then
    if db.accounts.contains actIDStrKey then
      throw .uniqueConstraint
    else
      set { db with accounts := db.accounts.insert actIDStrKey lastModified }
  else if db.accounts.matching actIDStrKey ≠ 1 then
    throw (.runtimeError "Could not update data in SQL")
  else
    set { db with accounts := db.accounts.update actIDStrKey lastModified }

/-- `ledgerSeq` is the one of the delta, `none` if the delta does not update
when an entry was modified. -/
def storeUpdate (sorter : Sorter) (frame : AccountFrame)
    (ledgerSeq : Option ℕ) (insert : Bool) : Sql Unit := do
  let a := frame.mAccountEntry
  if a.isValid && ledgerSeq ≠ some 0 then
    flushCachedEntry a.accountID
    storeAccountRow (toStrKey a.accountID)
      (ledgerSeq.getD a.lastModified) insert
    if frame.mUpdateSigners then
      applySigners sorter a insert
  else
    throw .assertion

/-- `DELETE from accounts` and `DELETE from signers`, both for one account. -/
def storeDelete (accountID : AccountID) : Sql Unit := do
  flushCachedEntry accountID
  let actIDStrKey := toStrKey accountID
  modify (fun db =>
    { db with accounts := db.accounts.erase actIDStrKey })
  modify (fun db =>
    { db with
      signers := db.signers.keep (fun row => row.1.1 ≠ actIDStrKey) })

/-- What is cached of an account is what its row says. -/
def deleteAccountsModifiedOnOrAfterLedger (oldestLedger : ℕ) : Sql Unit := do
  let old (db : Database) (actIDStrKey : Text) : Bool :=
    (db.accounts.find? actIDStrKey).all (· < oldestLedger)
  modify (fun db =>
    { db with
      entryCache := db.entryCache.filter (fun id => old db (toStrKey id)) })
  modify (fun db =>
    { db with signers := db.signers.keep (fun row => old db row.1.1) })
  modify (fun db =>
    { db with accounts := db.accounts.keep (fun row => row.2 < oldestLedger) })

/-- `dropAll`. -/
def Database.empty : Database :=
  { accounts := .empty, signers := .empty, entryCache := []
    affectedRows := [] }

inductive StoreOperation where
  | storeAdd (frame : AccountFrame) (ledgerSeq : Option ℕ)
  | storeChange (frame : AccountFrame) (ledgerSeq : Option ℕ)
  | storeDelete (accountID : AccountID)
  | deleteAccountsModifiedOnOrAfterLedger (oldestLedger : ℕ)

def StoreOperation.perform (sorter : Sorter) : StoreOperation → Sql Unit
  | .storeAdd frame ledgerSeq => storeUpdate sorter frame ledgerSeq true
  | .storeChange frame ledgerSeq => storeUpdate sorter frame ledgerSeq false
  | .storeDelete accountID => Transactions.storeDelete accountID
  | .deleteAccountsModifiedOnOrAfterLedger oldestLedger =>
      Transactions.deleteAccountsModifiedOnOrAfterLedger oldestLedger

/-- One operation after the other; what fails is rolled back. -/
def runStores (sorter : Sorter) (operations : List StoreOperation)
    (db : Database) : Database :=
  operations.foldl
    (fun db operation =>
      match operation.perform sorter db with
      | .ok _ after => after
      | .error _ _ => db)
    db

end StellarCore.Transactions
