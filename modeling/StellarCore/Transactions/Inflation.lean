import StellarCore.Crypto.StrKey
import StellarCore.Transactions.Exchange

/-!
# Inflation

`InflationOpFrame::doApply` and the query of `processForInflation`.  The
accounts vote with their balance; new coins and the fee pool are dealt out to
the winners in proportion to their votes, and what is left goes back to the
pool.
-/

namespace StellarCore.Transactions

open StellarCore.Crypto
open StellarCore.Lib

/-- 7 days. -/
def inflationFrequency : ℕ := 604800

def inflationRateTrillionths : ℤ := 190721000

def trillion : ℤ := 1000000000000

def inflationWinMinPercent : ℤ := 500000000

def inflationNumWinners : ℕ := 2000

def inflationStartTime : ℕ := 1404172800

/-! ## Votes -/

structure InflationVotes where
  votes : ℤ
  inflationDest : AccountID
  deriving DecidableEq

/-- `balance >= 1000000000`, and what the account votes for. -/
def AccountEntry.votesFor (a : AccountEntry) : Option AccountID :=
  if 1000000000 ≤ a.balance then a.inflationDest else none

/-- `sum(balance)` of a group. -/
def votesOf (rows : List AccountEntry) (inflationDest : AccountID) : ℤ :=
  ((rows.filter (fun a => a.votesFor = some inflationDest)).map
    AccountEntry.balance).sum

/-- `GROUP BY inflationdest`. -/
def tally (rows : List AccountEntry) : List InflationVotes :=
  (rows.filterMap AccountEntry.votesFor).dedup.map (fun inflationDest =>
    { votes := votesOf rows inflationDest, inflationDest })

/-- `ORDER BY votes DESC, inflationdest DESC`, where the column holds the
encoded key. -/
def InflationVotes.precedes (first second : InflationVotes) : Bool :=
  second.votes < first.votes ||
    (second.votes = first.votes &&
      KeyUtils.toStrKey second.inflationDest ≤
        KeyUtils.toStrKey first.inflationDest)

/-- The rows that the query returns. -/
def inflationVotes (rows : List AccountEntry) : List InflationVotes :=
  ((tally rows).insertionSort
    (fun first second => first.precedes second)).take inflationNumWinners

/-- The winners up to the first one with too few votes. -/
def processForInflation (minBalance : ℤ) : Ledger (List InflationVotes) := do
  let ledger ← get
  return (inflationVotes (ledger.accounts.rows.map Prod.snd)).takeWhile
    (fun votes => minBalance ≤ votes.votes)

/-! ## Doling out -/

/-- The variables of the loop over the winners. -/
structure Dole where
  leftAfterDole : ℤ
  payouts : List InflationPayout

def changeHeader (change : LedgerHeader → LedgerHeader) : Ledger Unit :=
  modify (fun ledger => { ledger with header := change ledger.header })

/-- Before version 8 the coins were counted as they were dealt out. -/
def countDealt (amount : ℤ) : Ledger Unit := do
  let header ← getHeader
  if header.ledgerVersion ≤ 7 then
    changeHeader (fun header =>
      { header with totalCoins := wrap64 (header.totalCoins + amount) })
  else
    return ()

def payWinner (dole : Dole) (winner : AccountEntry) (amount : ℤ) :
    Ledger Dole := do
  countDealt amount
  match ← winner.addBalance amount with
  | none =>
      throw (.runtimeError "inflation overflowed destination balance")
  | some paid => do
      let _ ← storeChangeAccount paid
      return {
        leftAfterDole := wrap64 (dole.leftAfterDole - amount)
        payouts := dole.payouts ++ [⟨winner.accountID, amount⟩] }

def doleOut (amountToDole totalVotes : ℤ) (dole : Dole)
    (w : InflationVotes) : Ledger Dole := do
  let toDoleThisWinner ←
    (ofExcept (bigDivide amountToDole w.votes totalVotes .roundDown) :
      Ledger ℤ)
  if toDoleThisWinner = 0 then
    return dole
  else
    match ← loadAccount w.inflationDest with
    | none => return dole
    | some winner => payWinner dole winner toDoleThisWinner

/-- The new coins are counted at once since version 8. -/
def countMinted (inflationAmount leftAfterDole : ℤ) : Ledger Unit :=
  changeHeader (fun header =>
    { header with
      feePool := wrap64 (header.feePool + leftAfterDole)
      totalCoins :=
        if header.ledgerVersion > 7 then
          wrap64 (header.totalCoins + inflationAmount)
        else
          header.totalCoins })

/-- The time from which on inflation may run for the given time. -/
def inflationTime (inflationSeq : ℕ) : ℤ :=
  wrap64 (inflationStartTime + inflationSeq * inflationFrequency)

def inflate (lcl : LedgerHeader) : Ledger InflationResult := do
  let totalVotes := lcl.totalCoins
  let minBalance ←
    (ofExcept (bigDivide totalVotes inflationWinMinPercent trillion
      .roundDown) : Ledger ℤ)
  let winners ← processForInflation minBalance
  let inflationAmount ←
    (ofExcept (bigDivide lcl.totalCoins inflationRateTrillionths trillion
      .roundDown) : Ledger ℤ)
  let amountToDole := wrap64 (inflationAmount + lcl.feePool)
  changeHeader (fun header =>
    { header with
      feePool := 0
      inflationSeq := (header.inflationSeq + 1) % 2 ^ 32 })
  let dole ← winners.foldlM (doleOut amountToDole totalVotes)
    { leftAfterDole := amountToDole, payouts := [] }
  countMinted inflationAmount dole.leftAfterDole
  return .success dole.payouts

def inflationDoApply : Ledger InflationResult := do
  let lcl ← getHeader
  if wrap64 lcl.closeTime < inflationTime lcl.inflationSeq then
    return .notTime
  else
    inflate lcl

end StellarCore.Transactions
