import StellarCore.Transactions.PathPayment

/-!
# Operations on single entries

`doApply` of the operations that create, change and delete entries of one or
two accounts.  The source account is `mSourceAccount`, as `checkValid` has
loaded it.
-/

namespace StellarCore.Transactions

open StellarCore.Lib

/-! ## Accounts -/

/-- The account that `CreateAccountOpFrame` adds. -/
def CreateAccountOp.created (op : CreateAccountOp) (header : LedgerHeader) :
    AccountEntry :=
  { AccountEntry.fresh op.destination with
    seqNum := header.getStartingSequenceNumber
    balance := op.startingBalance }

def CreateAccountOp.doApply (op : CreateAccountOp) (source : AccountEntry) :
    Ledger CreateAccountResult := do
  match ← loadAccount op.destination with
  | some _ => return .alreadyExist
  | none =>
      let header ← getHeader
      if op.startingBalance < header.getMinBalance 0 then
        return .lowReserve
      else if source.balance - source.getMinimumBalance header <
          op.startingBalance then
        return .underfunded
      else
        match ← source.addBalance (-op.startingBalance) with
        | none => abort
        | some source => do
            let _ ← storeChangeAccount source
            let _ ← storeAddAccount (op.created header)
            return .success

/-- What is merged; from version 6 to 7 it is the balance that is stored, as
the account may be stale. -/
def mergedBalance (source : AccountEntry) : Ledger (Option ℤ) := do
  let header ← getHeader
  if header.ledgerVersion > 4 && header.ledgerVersion < 8 then
    match ← loadAccount source.accountID with
    | none => return none
    | some thisAccount =>
        if header.ledgerVersion > 5 then
          return some thisAccount.balance
        else
          return some source.balance
  else
    return some source.balance

/-- Before version 8 an account could be merged twice. -/
def mergeDelete (source : AccountEntry) : Ledger Unit := do
  let header ← getHeader
  if header.ledgerVersion < 8 then
    match ← loadAccount source.accountID with
    | none => return ()
    | some _ => storeDeleteAccount source.accountID
  else
    storeDeleteAccount source.accountID

def mergeDoApply (destination : AccountID) (source : AccountEntry) :
    Ledger AccountMergeResult := do
  match ← loadAccount destination with
  | none => return .noAccount
  | some otherAccount =>
      match ← mergedBalance source with
      | none => return .noAccount
      | some sourceBalance =>
          if source.isImmutableAuth then
            return .immutableSet
          else if source.numSubEntries ≠ source.signers.length then
            return .hasSubEntries
          else
            match ← otherAccount.addBalance sourceBalance with
            | none =>
                throw (.runtimeError "merge overflowed destination balance")
            | some otherAccount => do
                let _ ← storeChangeAccount otherAccount
                mergeDelete source
                return .success sourceBalance

namespace SetOptionsOp

def setInflationDest (op : SetOptionsOp) (account : AccountEntry) :
    Applying SetOptionsResult AccountEntry := do
  match op.inflationDest with
  | none => return account
  | some inflationID =>
      match ← loadAccount inflationID with
      | none => reject .invalidInflation
      | some _ => return { account with inflationDest := some inflationID }

/-- `allAccountAuthFlags` are all flags. -/
def cannotChange (flags : BitVec 32) (account : AccountEntry) : Bool :=
  flags &&& maskAccountFlags ≠ 0 && account.isImmutableAuth

def changeClearFlags (op : SetOptionsOp) (account : AccountEntry) :
    Applying SetOptionsResult AccountEntry := do
  match op.clearFlags with
  | none => return account
  | some clearFlags =>
      if cannotChange clearFlags account then
        reject .cantChange
      else
        return { account with flags := account.flags &&& ~~~clearFlags }

def changeSetFlags (op : SetOptionsOp) (account : AccountEntry) :
    Applying SetOptionsResult AccountEntry := do
  match op.setFlags with
  | none => return account
  | some setFlags =>
      if cannotChange setFlags account then
        reject .cantChange
      else
        return { account with flags := account.flags ||| setFlags }

/-- A threshold is cut to its lowest byte. -/
def threshold (value : Option ℕ) (old : UInt8) : UInt8 :=
  match value with
  | none => old
  | some value => UInt8.ofNat value

def setThresholds (op : SetOptionsOp) (account : AccountEntry) :
    AccountEntry :=
  { account with
    homeDomain := op.homeDomain.getD account.homeDomain
    thresholds :=
      { masterWeight :=
          threshold op.masterWeight account.thresholds.masterWeight
        low := threshold op.lowThreshold account.thresholds.low
        med := threshold op.medThreshold account.thresholds.med
        high := threshold op.highThreshold account.thresholds.high } }

/-- The size that the type of `signers` allows. -/
def maxSigners : ℕ := 20

def hasSigner (key : SignerKey) (signers : List Signer) : Bool :=
  signers.any (fun oldSigner => oldSigner.key = key)

/-- The loop that gives an old signer its new weight. -/
def reweigh (signer : Signer) (signers : List Signer) : List Signer :=
  signers.map (fun oldSigner =>
    if oldSigner.key = signer.key then
      { oldSigner with weight := signer.weight }
    else
      oldSigner)

def addSigner (signer : Signer) (account : AccountEntry) :
    Applying SetOptionsResult AccountEntry := do
  if hasSigner signer.key account.signers then
    return { account with signers := reweigh signer account.signers }
  else if account.signers.length = maxSigners then
    reject .tooManySigners
  else
    match ← account.addNumEntries 1 with
    | none => reject .lowReserve
    | some counted =>
        return { counted with signers := counted.signers ++ [signer] }

/-- The loop that deletes a signer; each one is taken off the count. -/
def eraseSigner (key : SignerKey) (account : AccountEntry) :
    List Signer → Ledger AccountEntry
  | [] => return { account with signers := [] }
  | oldSigner :: rest => do
      if oldSigner.key = key then
        let counted ← account.addNumEntries (-1)
        eraseSigner key (counted.getD account) rest
      else
        let account ← eraseSigner key account rest
        return { account with signers := oldSigner :: account.signers }

def setSigner (op : SetOptionsOp) (account : AccountEntry) :
    Applying SetOptionsResult AccountEntry := do
  match op.signer with
  | none => return account
  | some signer =>
      if signer.weight ≠ 0 then
        let account ← addSigner signer account
        return account.normalize
      else
        let account ← eraseSigner signer.key account account.signers
        return account.normalize

/-- The account with its new options. -/
def options (op : SetOptionsOp) (source : AccountEntry) :
    Applying SetOptionsResult AccountEntry := do
  let account ← op.setInflationDest source
  let account ← op.changeClearFlags account
  let account ← op.changeSetFlags account
  op.setSigner (op.setThresholds account)

def settle (op : SetOptionsOp) (source : AccountEntry) :
    Applying SetOptionsResult Unit := do
  let account ← op.options source
  let _ ← storeChangeAccount account

def doApply (op : SetOptionsOp) (source : AccountEntry) :
    Ledger SetOptionsResult := do
  match ← (op.settle source).run with
  | .ok _ => return .success
  | .error result => return result

end SetOptionsOp

/-! ## Trust lines -/

namespace ChangeTrustOp

/-- A line with the limit 0 is deleted. -/
def changeOld (op : ChangeTrustOp) (source : AccountEntry)
    (trustLine : TrustFrame) (issuer : Option AccountEntry) :
    Ledger ChangeTrustResult := do
  let balance ← trustLine.getBalance
  if op.limit < balance then
    return .invalidLimit
  else if op.limit = 0 then
    storeDeleteTrust trustLine.line
    let counted ← source.addNumEntries (-1)
    let _ ← storeChangeAccount (counted.getD source)
    return .success
  else if issuer.isNone then
    return .noIssuer
  else
    let _ ← storeChangeTrust
      { trustLine with line := { trustLine.line with limit := op.limit } }
    return .success

/-- The new line is authorized where its issuer does not ask for it. -/
def newLine (op : ChangeTrustOp) (sourceID : AccountID)
    (issuer : AccountEntry) : TrustFrame :=
  TrustFrame.setAuthorized
    { line :=
        { accountID := sourceID, asset := op.line, balance := 0
          limit := op.limit, flags := 0, lastModified := 0 }
      mIsIssuer := false }
    (!issuer.isAuthRequired)

def addNew (op : ChangeTrustOp) (source : AccountEntry)
    (issuer : Option AccountEntry) : Ledger ChangeTrustResult := do
  if op.limit = 0 then
    return .invalidLimit
  else
    match issuer with
    | none => return .noIssuer
    | some issuer =>
        match ← source.addNumEntries 1 with
        | none => return .lowReserve
        | some counted => do
            let _ ← storeChangeAccount counted
            let _ ← storeAddTrust (op.newLine source.accountID issuer)
            return .success

/-- The source is the issuer of the line. -/
def trustsSelf (issuer : Option AccountEntry) (source : AccountEntry) :
    Bool :=
  match issuer with
  | none => false
  | some issuer => issuer.accountID = source.accountID

def doApply (op : ChangeTrustOp) (source : AccountEntry) :
    Ledger ChangeTrustResult := do
  let (trustLine, issuer) ← loadTrustLineIssuer source.accountID op.line
  let header ← getHeader
  if header.ledgerVersion > 2 && trustsSelf issuer source then
    return .selfNotAllowed
  else
    match trustLine with
    | some trustLine => op.changeOld source trustLine issuer
    | none => op.addNew source issuer

end ChangeTrustOp

def AccountEntry.isAuthRevocable (a : AccountEntry) : Bool :=
  a.flags &&& authRevocableFlag ≠ 0

def AllowTrustOp.doApply (op : AllowTrustOp) (source : AccountEntry) :
    Ledger AllowTrustResult := do
  let header ← getHeader
  if header.ledgerVersion > 2 && op.trustor = source.accountID then
    return .selfNotAllowed
  else if !source.isAuthRequired then
    return .trustNotRequired
  else if !source.isAuthRevocable && !op.authorize then
    return .cantRevoke
  else
    match ← loadTrustLine op.trustor (op.toAsset source.accountID) with
    | none => return .noTrustLine
    | some trustLine =>
        let _ ← storeChangeTrust (trustLine.setAuthorized op.authorize)
        return .success

/-! ## Data -/

namespace ManageDataOp

def putValue (op : ManageDataOp) (source : AccountEntry)
    (dataFrame : Option DataEntry) (dataValue : List UInt8) :
    Ledger ManageDataResult := do
  match dataFrame with
  | none =>
      match ← source.addNumEntries 1 with
      | none => return .lowReserve
      | some counted => do
          let _ ← storeAddData
            { accountID := source.accountID, dataName := op.dataName
              dataValue, lastModified := 0 }
          let _ ← storeChangeAccount counted
          return .success
  | some entry =>
      let _ ← storeChangeData { entry with dataValue }
      return .success

def eraseValue (source : AccountEntry) (dataFrame : Option DataEntry) :
    Ledger ManageDataResult := do
  match dataFrame with
  | none => return .nameNotFound
  | some entry =>
      let counted ← source.addNumEntries (-1)
      let _ ← storeChangeAccount (counted.getD source)
      storeDeleteData entry.accountID entry.dataName
      return .success

def doApply (op : ManageDataOp) (source : AccountEntry) :
    Ledger ManageDataResult := do
  let header ← getHeader
  if header.ledgerVersion = 3 then
    throw (.runtimeError "MANAGE_DATA not supported on ledger version 3")
  else
    let dataFrame ← loadData source.accountID op.dataName
    match op.dataValue with
    | some dataValue => op.putValue source dataFrame dataValue
    | none => eraseValue source dataFrame

end ManageDataOp

end StellarCore.Transactions
