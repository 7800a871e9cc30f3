import StellarCore.Herder.TxSetFrame
import StellarCore.Lib.Program

/-!
# Pending transactions

`mPendingTransactions` of `HerderImpl.cpp`: the transactions that were received
and not yet applied, one map for each of the last four ledgers, by source
account and full hash.  With the transactions of an account stand their highest
sequence number and the total of their fees.
-/

namespace StellarCore.Herder

open StellarCore.Lib
open StellarCore.Transactions

structure TxMap where
  mMaxSeq : ℕ
  mTotalFees : ℤ
  mTransactions : Table Hash Transaction

namespace TxMap

def empty : TxMap :=
  { mMaxSeq := 0, mTotalFees := 0, mTransactions := .empty }

def count (txmap : TxMap) (tx : Transaction) : TxMap :=
  { txmap with
    mMaxSeq := max tx.seqNum txmap.mMaxSeq
    mTotalFees := wrap64 (txmap.mTotalFees + tx.fee) }

def addTx (txmap : TxMap) (tx : Transaction) : TxMap :=
  if txmap.mTransactions.contains tx.fullHash then
    txmap
  else
    { txmap with
      mTransactions := txmap.mTransactions.insert tx.fullHash tx }.count tx

def recalculate (txmap : TxMap) : TxMap :=
  txmap.mTransactions.rows.foldl (fun txmap pair => txmap.count pair.2)
    { txmap with mMaxSeq := 0, mTotalFees := 0 }

end TxMap

abbrev AccountTxMap := Table AccountID TxMap

/-- The map of the account, and the generation with it. -/
def findOrAdd (acc : AccountTxMap) (aid : AccountID) : TxMap × AccountTxMap :=
  match acc.find? aid with
  | none => (.empty, acc.insert aid .empty)
  | some txmap => (txmap, acc)

/-- `mPendingTransactions`, the newest generation first. -/
abbrev PendingTransactions := List AccountTxMap

def PendingTransactions.initial : PendingTransactions :=
  List.replicate 4 .empty

/-- An error comes with the code that the result of the transaction is left
with. -/
inductive TransactionSubmitStatus where
  | pending
  | duplicate
  | error (code : TransactionResultCode)
  deriving DecidableEq

/-- The loop over the generations: `totFee` and `highSeq`, or nothing for a
transaction that was seen before. -/
def seenBefore (tx : Transaction) (totFee : ℤ) (highSeq : ℕ) :
    PendingTransactions → Option (ℤ × ℕ)
  | [] => some (totFee, highSeq)
  | map :: rest =>
      match map.find? tx.sourceAccount with
      | none => seenBefore tx totFee highSeq rest
      | some txmap =>
          if txmap.mTransactions.contains tx.fullHash then
            none
          else
            seenBefore tx (wrap64 (totFee + txmap.mTotalFees))
              (max highSeq txmap.mMaxSeq) rest

/-- `findOrAdd` and `addTx`, on one generation. -/
def receive (tx : Transaction) (map : AccountTxMap) : AccountTxMap :=
  let (txmap, map) := findOrAdd map tx.sourceAccount
  map.update tx.sourceAccount (txmap.addTx tx)

def recvTransaction (crypto : Crypto) (pending : PendingTransactions)
    (tx : Transaction) :
    Ledger (TransactionSubmitStatus × PendingTransactions) := do
  match seenBefore tx tx.fee 0 pending with
  | none => return (.duplicate, pending)
  | some (totFee, highSeq) =>
      let validity ← tx.checkValid crypto highSeq
      if validity.code ≠ .txSuccess then
        return (.error validity.code, pending)
      else
        match validity.signingAccount with
        | none => throw .assertion
        | some account =>
            let header ← getHeader
            if account.getBalanceAboveReserve header < totFee then
              return (.error .txInsufficientBalance, pending)
            else
              return (.pending, pending.modify 0 (receive tx))

/-- One round of the loop over `dropTxs`, with the accounts whose maps
`toRecalculate` holds. -/
def dropTx (state : AccountTxMap × List AccountID) (tx : Transaction) :
    AccountTxMap × List AccountID :=
  let (m, toRecalculate) := state
  match m.find? tx.sourceAccount with
  | none => state
  | some txmap =>
      if txmap.mTransactions.contains tx.fullHash then
        let txs := txmap.mTransactions.erase tx.fullHash
        if txs.rows.isEmpty then
          (m.erase tx.sourceAccount, toRecalculate)
        else
          (m.update tx.sourceAccount { txmap with mTransactions := txs },
            toRecalculate.insert tx.sourceAccount)
      else
        state

/-- A map that was dropped after it was marked is no longer found. -/
def recalculateMarked (m : AccountTxMap) (acc : AccountID) : AccountTxMap :=
  match m.find? acc with
  | none => m
  | some txmap => m.update acc txmap.recalculate

def dropTxs (txs : List Transaction) (m : AccountTxMap) : AccountTxMap :=
  if m.rows.isEmpty then
    m
  else
    let (m, toRecalculate) := txs.foldl dropTx (m, [])
    toRecalculate.foldl recalculateMarked m

def removeReceivedTxs (pending : PendingTransactions)
    (txs : List Transaction) : PendingTransactions :=
  pending.map (dropTxs txs)

def transactionsOf (map : AccountTxMap) : List Transaction :=
  map.rows.flatMap (fun pair => pair.2.mTransactions.rows.map Prod.snd)

/-- The set that is rebroadcast, in the order of `sortForApply`. -/
def rebroadcastTxs (sorter : Sorter)
    (getContentsHash : List Transaction → Hash)
    (pending : PendingTransactions) : List Transaction :=
  let txs := pending.flatMap transactionsOf
  TxSetFrame.sortForApply sorter
    { previousLedgerHash := 0
      transactions := txs
      contentsHash := getContentsHash txs }

/-- The generations after a ledger closed, and what is broadcast. -/
def updatePendingTransactions (sorter : Sorter)
    (getContentsHash : List Transaction → Hash)
    (pending : PendingTransactions) (applied : List Transaction) :
    PendingTransactions × List Transaction :=
  let pending := .empty :: (removeReceivedTxs pending applied).dropLast
  (pending, rebroadcastTxs sorter getContentsHash pending)

/-! ## Tallies -/

def totalFees (rows : List (Hash × Transaction)) : ℤ :=
  (rows.map (fun row => (row.2.fee : ℤ))).sum

namespace TxMap

/-- The two numbers of a map are those of the given transactions. -/
structure Counts (txmap : TxMap) (rows : List (Hash × Transaction)) :
    Prop where
  upper : ∀ row ∈ rows, row.2.seqNum ≤ txmap.mMaxSeq
  reached : txmap.mMaxSeq = 0 ∨ ∃ row ∈ rows, row.2.seqNum = txmap.mMaxSeq
  total : txmap.mTotalFees = wrap64 (totalFees rows)

def Tallied (txmap : TxMap) : Prop :=
  txmap.Counts txmap.mTransactions.rows

theorem Counts.none (txmap : TxMap) (maxSeq : txmap.mMaxSeq = 0)
    (fees : txmap.mTotalFees = 0) : txmap.Counts [] := by
  refine ⟨?_, .inl maxSeq, ?_⟩
  · intro row member
    exact absurd member List.not_mem_nil
  · rw [fees]
    rfl

theorem Counts.of_same {first second : TxMap}
    {rows : List (Hash × Transaction)} (counts : first.Counts rows)
    (maxSeq : second.mMaxSeq = first.mMaxSeq)
    (fees : second.mTotalFees = first.mTotalFees) : second.Counts rows := by
  refine ⟨?_, ?_, ?_⟩
  · rw [maxSeq]
    exact counts.upper
  · rw [maxSeq]
    exact counts.reached
  · rw [fees]
    exact counts.total

theorem wrap64_wrap64_add (first second : ℤ) :
    wrap64 (wrap64 first + second) = wrap64 (first + second) :=
  Int.bmod_add_bmod

theorem Counts.count {txmap : TxMap} {rows : List (Hash × Transaction)}
    (counts : txmap.Counts rows) (hash : Hash) (tx : Transaction) :
    (txmap.count tx).Counts (rows ++ [(hash, tx)]) := by
  refine ⟨?_, ?_, ?_⟩
  · intro row member
    rcases List.mem_append.mp member with earlier | added
    · exact (counts.upper row earlier).trans (le_max_right _ _)
    · rw [List.mem_singleton.mp added]
      exact le_max_left _ _
  · show max tx.seqNum txmap.mMaxSeq = 0 ∨ ∃ row ∈ rows ++ [(hash, tx)],
      row.2.seqNum = max tx.seqNum txmap.mMaxSeq
    rcases le_total txmap.mMaxSeq tx.seqNum with raised | kept
    · right
      exact ⟨(hash, tx), by simp, (max_eq_left raised).symm⟩
    · rw [max_eq_right kept]
      rcases counts.reached with zero | ⟨row, member, same⟩
      · exact .inl zero
      · exact .inr ⟨row, List.mem_append_left _ member, same⟩
  · show wrap64 (txmap.mTotalFees + tx.fee) = _
    rw [counts.total, wrap64_wrap64_add]
    simp [totalFees]

theorem foldl_count (rows : List (Hash × Transaction))
    {done : List (Hash × Transaction)} {txmap : TxMap}
    (counts : txmap.Counts done) :
    (rows.foldl (fun txmap pair => txmap.count pair.2) txmap).Counts
      (done ++ rows) := by
  induction rows generalizing txmap done with
  | nil => simpa using counts
  | cons row rows ih =>
      have next := ih (counts.count row.1 row.2)
      simpa using next

theorem mTransactions_foldl_count (rows : List (Hash × Transaction))
    (txmap : TxMap) :
    (rows.foldl (fun txmap pair => txmap.count pair.2) txmap).mTransactions =
      txmap.mTransactions := by
  induction rows generalizing txmap with
  | nil => rfl
  | cons row rows ih => exact ih _

@[simp] theorem mTransactions_recalculate (txmap : TxMap) :
    txmap.recalculate.mTransactions = txmap.mTransactions :=
  mTransactions_foldl_count _ _

theorem tallied_recalculate (txmap : TxMap) : txmap.recalculate.Tallied := by
  unfold Tallied
  rw [mTransactions_recalculate]
  exact foldl_count txmap.mTransactions.rows
    (Counts.none { txmap with mMaxSeq := 0, mTotalFees := 0 } rfl rfl)

theorem tallied_empty : empty.Tallied :=
  Counts.none empty rfl rfl

theorem tallied_addTx {txmap : TxMap} (tallied : txmap.Tallied)
    (tx : Transaction) : (txmap.addTx tx).Tallied := by
  unfold addTx
  split
  next => exact tallied
  next absent =>
    have absent : txmap.mTransactions.find? tx.fullHash = none := by
      simpa [Table.contains] using absent
    unfold Tallied
    show Counts _ (txmap.mTransactions.insert tx.fullHash tx).rows
    rw [Table.rows_insert tx absent]
    apply Counts.count
    exact tallied.of_same rfl rfl

/-- Only transactions of the account are in its map, under their full
hashes. -/
structure Filed (acc : AccountID) (txmap : TxMap) : Prop where
  nonempty : txmap.mTransactions.rows ≠ []
  keys : ∀ row ∈ txmap.mTransactions.rows,
    row.1 = row.2.fullHash ∧ row.2.sourceAccount = acc

theorem filed_addTx {txmap : TxMap} {acc : AccountID} {tx : Transaction}
    (keys : ∀ row ∈ txmap.mTransactions.rows,
      row.1 = row.2.fullHash ∧ row.2.sourceAccount = acc)
    (source : tx.sourceAccount = acc) : (txmap.addTx tx).Filed acc := by
  unfold addTx
  split
  next present =>
    refine ⟨?_, keys⟩
    intro none
    simp [Table.contains, Table.find?, none] at present
  next absent =>
    have absent : txmap.mTransactions.find? tx.fullHash = none := by
      simpa [Table.contains] using absent
    have rows := Table.rows_insert tx absent
    refine ⟨?_, ?_⟩
    · show (txmap.mTransactions.insert tx.fullHash tx).rows ≠ []
      rw [rows]
      exact List.append_ne_nil_of_right_ne_nil _ (List.cons_ne_nil _ _)
    · intro row member
      change row ∈ (txmap.mTransactions.insert tx.fullHash tx).rows at member
      rw [rows] at member
      rcases List.mem_append.mp member with earlier | added
      · exact keys row earlier
      · rw [List.mem_singleton.mp added]
        exact ⟨rfl, source⟩

end TxMap

/-! ## One generation -/

/-- Every map of the generation is filed, and those of the accounts that are
not marked are tallied. -/
def Sound (marked : List AccountID) (map : AccountTxMap) : Prop :=
  ∀ acc txmap, map.find? acc = some txmap →
    txmap.Filed acc ∧ (acc ∉ marked → txmap.Tallied)

theorem sound_empty : Sound [] .empty := by
  intro acc txmap found
  exact absurd found (by simp [Table.find?, Table.empty])

theorem Sound.update {marked remaining : List AccountID} {map : AccountTxMap}
    {acc : AccountID} {txmap : TxMap} (sound : Sound marked map)
    (filed : txmap.Filed acc) (tallied : acc ∉ remaining → txmap.Tallied)
    (others : ∀ other, other ≠ acc → other ∉ remaining → other ∉ marked) :
    Sound remaining (map.update acc txmap) := by
  intro asked found lookup
  rw [Table.find?_update] at lookup
  split at lookup
  next same =>
    obtain ⟨_, _, rfl⟩ := Option.map_eq_some_iff.mp lookup
    rw [same]
    exact ⟨filed, tallied⟩
  next other =>
    obtain ⟨filed, tallied⟩ := sound asked found lookup
    exact ⟨filed, fun unmarked => tallied (others asked other unmarked)⟩

theorem Sound.erase {marked : List AccountID} {map : AccountTxMap}
    (sound : Sound marked map) (acc : AccountID) :
    Sound marked (map.erase acc) := by
  intro asked found lookup
  rw [Table.find?_erase] at lookup
  split at lookup
  next => cases lookup
  next => exact sound asked found lookup

theorem Sound.dropTx {marked : List AccountID} {map : AccountTxMap}
    (sound : Sound marked map) (tx : Transaction) :
    Sound (dropTx (map, marked) tx).2 (dropTx (map, marked) tx).1 := by
  unfold Herder.dropTx
  dsimp only
  split
  next => exact sound
  next txmap found =>
    split
    next =>
      split
      next => exact sound.erase tx.sourceAccount
      next rest =>
        obtain ⟨filed, -⟩ := sound tx.sourceAccount txmap found
        apply sound.update
        · constructor
          · simpa using rest
          · intro row member
            exact filed.keys row (Table.mem_rows_erase.mp member).1
        · intro unmarked
          exact absurd List.mem_insert_self unmarked
        · intro other _ unmarked member
          exact unmarked (List.mem_insert_of_mem member)
    next => exact sound

theorem Sound.dropAll {txs : List Transaction}
    {state : AccountTxMap × List AccountID} (sound : Sound state.2 state.1) :
    Sound (txs.foldl Herder.dropTx state).2
      (txs.foldl Herder.dropTx state).1 := by
  induction txs generalizing state with
  | nil => exact sound
  | cons tx txs ih => exact ih (sound.dropTx tx)

theorem Sound.recalculateMarked {marked : List AccountID}
    {map : AccountTxMap} {acc : AccountID}
    (sound : Sound (acc :: marked) map) :
    Sound marked (recalculateMarked map acc) := by
  unfold Herder.recalculateMarked
  split
  next absent =>
    intro asked txmap found
    obtain ⟨filed, tallied⟩ := sound asked txmap found
    have other : asked ≠ acc := by
      rintro rfl
      rw [absent] at found
      cases found
    refine ⟨filed, fun unmarked => tallied ?_⟩
    exact List.not_mem_cons_of_ne_of_not_mem other unmarked
  next txmap found =>
    obtain ⟨filed, -⟩ := sound acc txmap found
    apply sound.update
    · constructor
      · rw [TxMap.mTransactions_recalculate]
        exact filed.nonempty
      · rw [TxMap.mTransactions_recalculate]
        exact filed.keys
    · intro _
      exact txmap.tallied_recalculate
    · intro other different unmarked
      exact List.not_mem_cons_of_ne_of_not_mem different unmarked

theorem Sound.recalculateAll {marked : List AccountID} {map : AccountTxMap}
    (sound : Sound marked map) :
    Sound [] (marked.foldl Herder.recalculateMarked map) := by
  induction marked generalizing map with
  | nil => exact sound
  | cons acc marked ih => exact ih sound.recalculateMarked

theorem Sound.dropTxs {map : AccountTxMap} (sound : Sound [] map)
    (txs : List Transaction) : Sound [] (dropTxs txs map) := by
  unfold Herder.dropTxs
  split
  next => exact sound
  next =>
    apply Sound.recalculateAll
    apply Sound.dropAll
    exact sound

theorem find?_receive (tx : Transaction) (map : AccountTxMap)
    (asked : AccountID) :
    (receive tx map).find? asked =
      if asked = tx.sourceAccount then
        some (((map.find? asked).getD .empty).addTx tx)
      else map.find? asked := by
  unfold receive findOrAdd
  by_cases same : asked = tx.sourceAccount
  · subst same
    cases found : map.find? tx.sourceAccount with
    | none => simp [Table.find?_insert, found]
    | some txmap => simp [found]
  · cases found : map.find? tx.sourceAccount with
    | none => simp [Table.find?_insert, same]
    | some txmap => simp [same]

theorem Sound.receive {map : AccountTxMap} (sound : Sound [] map)
    (tx : Transaction) : Sound [] (receive tx map) := by
  intro acc txmap lookup
  rw [find?_receive] at lookup
  split at lookup
  next same =>
    obtain rfl := Option.some_inj.mp lookup
    cases found : map.find? acc with
    | none =>
        constructor
        · apply TxMap.filed_addTx _ same.symm
          intro row member
          exact absurd member List.not_mem_nil
        · intro _
          exact TxMap.tallied_addTx TxMap.tallied_empty tx
    | some txmap =>
        obtain ⟨filed, tallied⟩ := sound acc txmap found
        constructor
        · exact TxMap.filed_addTx filed.keys same.symm
        · intro unmarked
          exact TxMap.tallied_addTx (tallied unmarked) tx
  next => exact sound acc txmap lookup

/-! ## The transactions of a generation -/

def Holds (map : AccountTxMap) (acc : AccountID) (hash : Hash) : Prop :=
  ∃ txmap, map.find? acc = some txmap ∧
    txmap.mTransactions.contains hash = true

theorem not_holds_empty (acc : AccountID) (hash : Hash) :
    ¬ Holds .empty acc hash := by
  rintro ⟨txmap, found, -⟩
  exact absurd found (by simp [Table.find?, Table.empty])

theorem Holds.of_update {map : AccountTxMap} {changed acc : AccountID}
    {txmap replacement : TxMap} {hash : Hash}
    (found : map.find? changed = some txmap)
    (fewer : replacement.mTransactions.contains hash = true →
      txmap.mTransactions.contains hash = true)
    (holds : Holds (map.update changed replacement) acc hash) :
    Holds map acc hash := by
  obtain ⟨held, lookup, contains⟩ := holds
  rw [Table.find?_update] at lookup
  split at lookup
  next same =>
    obtain ⟨_, _, rfl⟩ := Option.map_eq_some_iff.mp lookup
    exact ⟨txmap, same ▸ found, fewer contains⟩
  next => exact ⟨held, lookup, contains⟩

theorem contains_of_erase {table : Table Hash Transaction}
    {dropped hash : Hash}
    (contains : (table.erase dropped).contains hash = true) :
    table.contains hash = true := by
  unfold Table.contains at contains ⊢
  rw [Table.find?_erase] at contains
  split at contains
  next => cases contains
  next => exact contains

theorem Holds.of_dropTx {state : AccountTxMap × List AccountID}
    {tx : Transaction} {acc : AccountID} {hash : Hash}
    (holds : Holds (dropTx state tx).1 acc hash) : Holds state.1 acc hash := by
  obtain ⟨map, marked⟩ := state
  unfold dropTx at holds
  dsimp only at holds
  split at holds
  next => exact holds
  next txmap found =>
    split at holds
    next =>
      split at holds
      next =>
        obtain ⟨held, lookup, contains⟩ := holds
        rw [Table.find?_erase] at lookup
        split at lookup
        next => cases lookup
        next => exact ⟨held, lookup, contains⟩
      next => exact holds.of_update found contains_of_erase
    next => exact holds

theorem Holds.of_dropAll {txs : List Transaction}
    {state : AccountTxMap × List AccountID} {acc : AccountID} {hash : Hash}
    (holds : Holds (txs.foldl dropTx state).1 acc hash) :
    Holds state.1 acc hash := by
  induction txs generalizing state with
  | nil => exact holds
  | cons tx txs ih => exact Holds.of_dropTx (ih holds)

theorem Holds.of_recalculateMarked {map : AccountTxMap}
    {marked acc : AccountID} {hash : Hash}
    (holds : Holds (recalculateMarked map marked) acc hash) :
    Holds map acc hash := by
  unfold recalculateMarked at holds
  split at holds
  next => exact holds
  next txmap found =>
    apply holds.of_update found
    rw [TxMap.mTransactions_recalculate]
    exact id

theorem Holds.of_recalculateAll {marked : List AccountID}
    {map : AccountTxMap} {acc : AccountID} {hash : Hash}
    (holds : Holds (marked.foldl recalculateMarked map) acc hash) :
    Holds map acc hash := by
  induction marked generalizing map with
  | nil => exact holds
  | cons first marked ih => exact Holds.of_recalculateMarked (ih holds)

theorem Holds.of_dropTxs {txs : List Transaction} {map : AccountTxMap}
    {acc : AccountID} {hash : Hash}
    (holds : Holds (dropTxs txs map) acc hash) :
    Holds map acc hash := by
  unfold dropTxs at holds
  split at holds
  next => exact holds
  next => exact Holds.of_dropAll holds.of_recalculateAll

theorem contains_addTx {txmap : TxMap} {tx : Transaction} {hash : Hash}
    (contains : (txmap.addTx tx).mTransactions.contains hash = true) :
    txmap.mTransactions.contains hash = true ∨ hash = tx.fullHash := by
  unfold TxMap.addTx at contains
  split at contains
  next => exact .inl contains
  next =>
    change (txmap.mTransactions.insert tx.fullHash tx).contains hash = true
      at contains
    unfold Table.contains at contains ⊢
    rw [Table.find?_insert] at contains
    split at contains
    next added => exact .inr added.1
    next => exact .inl contains

theorem Holds.of_receive {tx : Transaction} {map : AccountTxMap}
    {acc : AccountID} {hash : Hash} (holds : Holds (receive tx map) acc hash) :
    Holds map acc hash ∨ (acc = tx.sourceAccount ∧ hash = tx.fullHash) := by
  obtain ⟨held, lookup, contains⟩ := holds
  rw [find?_receive] at lookup
  split at lookup
  next same =>
    obtain rfl := Option.some_inj.mp lookup
    rcases contains_addTx contains with earlier | added
    · left
      cases found : map.find? acc with
      | none =>
          rw [found] at earlier
          cases earlier
      | some txmap =>
          rw [found] at earlier
          exact ⟨txmap, found, earlier⟩
    · exact .inr ⟨same, added⟩
  next => exact .inl ⟨held, lookup, contains⟩

theorem not_holds_of_seenBefore {tx : Transaction} {totFee : ℤ}
    {highSeq : ℕ} {pending : PendingTransactions} {sums : ℤ × ℕ}
    (unseen : seenBefore tx totFee highSeq pending = some sums) :
    ∀ map ∈ pending, ¬ Holds map tx.sourceAccount tx.fullHash := by
  induction pending generalizing totFee highSeq with
  | nil =>
      intro map member
      exact absurd member List.not_mem_nil
  | cons first rest ih =>
      unfold seenBefore at unseen
      have ⟨absent, later⟩ :
          ¬ Holds first tx.sourceAccount tx.fullHash ∧
          ∀ map ∈ rest, ¬ Holds map tx.sourceAccount tx.fullHash := by
        split at unseen
        next absent =>
          refine ⟨?_, ih unseen⟩
          rintro ⟨txmap, found, -⟩
          rw [absent] at found
          cases found
        next txmap found =>
          split at unseen
          next => cases unseen
          next absent =>
            refine ⟨?_, ih unseen⟩
            rintro ⟨held, lookup, contains⟩
            rw [found] at lookup
            obtain rfl := Option.some_inj.mp lookup
            exact absent contains
      intro map member
      rcases List.mem_cons.mp member with rfl | member
      · exact absent
      · exact later map member

/-! ## Runs -/

def Apart (newer older : AccountTxMap) : Prop :=
  ∀ acc hash, Holds newer acc hash → ¬ Holds older acc hash

structure WellKept (pending : PendingTransactions) : Prop where
  generations : pending.length = 4
  sound : ∀ map ∈ pending, Sound [] map
  disjoint : pending.Pairwise Apart

theorem wellKept_initial : WellKept PendingTransactions.initial := by
  refine ⟨List.length_replicate, ?_, ?_⟩
  · intro map member
    rw [List.eq_of_mem_replicate member]
    exact sound_empty
  · apply List.pairwise_replicate.mpr
    right
    intro acc hash holds
    exact absurd holds (not_holds_empty acc hash)

theorem WellKept.receive {pending : PendingTransactions}
    (kept : WellKept pending) {tx : Transaction}
    (unseen : ∀ map ∈ pending, ¬ Holds map tx.sourceAccount tx.fullHash) :
    WellKept (pending.modify 0 (receive tx)) := by
  cases pending with
  | nil => exact kept
  | cons first rest =>
      have ⟨apart, others⟩ := List.pairwise_cons.mp kept.disjoint
      rw [List.modify_zero_cons]
      refine ⟨kept.generations, ?_, ?_⟩
      · intro map member
        rcases List.mem_cons.mp member with rfl | member
        · exact (kept.sound first List.mem_cons_self).receive tx
        · exact kept.sound map (List.mem_cons_of_mem _ member)
      · refine List.pairwise_cons.mpr ⟨?_, others⟩
        intro older member acc hash holds
        rcases holds.of_receive with earlier | ⟨rfl, rfl⟩
        · exact apart older member acc hash earlier
        · exact unseen older (List.mem_cons_of_mem _ member)

theorem WellKept.removeReceivedTxs {pending : PendingTransactions}
    (kept : WellKept pending) (txs : List Transaction) :
    WellKept (removeReceivedTxs pending txs) := by
  refine ⟨?_, ?_, ?_⟩
  · rw [Herder.removeReceivedTxs, List.length_map]
    exact kept.generations
  · intro map member
    obtain ⟨before, earlier, rfl⟩ := List.mem_map.mp member
    exact (kept.sound before earlier).dropTxs txs
  · apply List.pairwise_map.mpr
    apply kept.disjoint.imp
    intro newer older apart acc hash holds held
    exact apart acc hash holds.of_dropTxs held.of_dropTxs

theorem WellKept.shift {pending : PendingTransactions}
    (kept : WellKept pending) : WellKept (.empty :: pending.dropLast) := by
  have sublist := List.dropLast_sublist pending
  refine ⟨?_, ?_, ?_⟩
  · have length := kept.generations
    simp [length]
  · intro map member
    rcases List.mem_cons.mp member with rfl | member
    · exact sound_empty
    · exact kept.sound map (sublist.subset member)
  · refine List.pairwise_cons.mpr ⟨?_, kept.disjoint.sublist sublist⟩
    intro older _ acc hash holds
    exact absurd holds (not_holds_empty acc hash)

inductive PendingCall where
  | recvTransaction (ledger : LedgerState) (tx : Transaction)
  | removeReceivedTxs (txs : List Transaction)
  | updatePendingTransactions (applied : List Transaction)

section Runs

variable (crypto : Crypto) (sorter : Sorter)
variable (getContentsHash : List Transaction → Hash)

/-- An exception leaves the pending transactions as they are. -/
def PendingCall.apply (pending : PendingTransactions) :
    PendingCall → PendingTransactions
  | .recvTransaction ledger tx =>
      match Herder.recvTransaction crypto pending tx ledger with
      | .ok (_, received) _ => received
      | .error _ _ => pending
  | .removeReceivedTxs txs => Herder.removeReceivedTxs pending txs
  | .updatePendingTransactions applied =>
      (Herder.updatePendingTransactions sorter getContentsHash pending
        applied).1

def runPending (calls : List PendingCall) : PendingTransactions :=
  calls.foldl (PendingCall.apply crypto sorter getContentsHash)
    PendingTransactions.initial

variable {crypto sorter getContentsHash}

theorem WellKept.recvTransaction {pending : PendingTransactions}
    (kept : WellKept pending) (tx : Transaction) (ledger : LedgerState) :
    Ends (recvTransaction crypto pending tx) ledger
      (fun outcome _ => WellKept outcome.2) (fun _ _ => True) := by
  unfold Herder.recvTransaction
  cases unseen : seenBefore tx tx.fee 0 pending with
  | none => exact kept
  | some sums =>
      obtain ⟨totFee, highSeq⟩ := sums
      simp only [Ends.bind_iff]
      apply Ends.of_always
      · intro validity middle
        rw [Ends.ite_iff]
        refine ⟨fun _ => kept, fun _ => ?_⟩
        cases validity.signingAccount with
        | none => exact trivial
        | some account =>
            simp only [Ends.bind_iff]
            apply Ends.of_always
            · intro header reached
              rw [Ends.ite_iff]
              refine ⟨fun _ => kept, fun _ => ?_⟩
              exact kept.receive (not_holds_of_seenBefore unseen)
            · intro _ _
              trivial
      · intro _ _
        trivial

theorem WellKept.apply {pending : PendingTransactions}
    (kept : WellKept pending) (call : PendingCall) :
    WellKept (call.apply crypto sorter getContentsHash pending) := by
  cases call with
  | recvTransaction ledger tx =>
      have ends : Ends (Herder.recvTransaction crypto pending tx) ledger
          (fun outcome _ => WellKept outcome.2) (fun _ _ => True) :=
        kept.recvTransaction tx ledger
      rw [PendingCall.apply]
      cases result : Herder.recvTransaction crypto pending tx ledger with
      | ok outcome after => exact ends.of_ok result
      | error reason after => exact kept
  | removeReceivedTxs txs => exact kept.removeReceivedTxs txs
  | updatePendingTransactions applied =>
      exact (kept.removeReceivedTxs applied).shift

theorem wellKept_runPending (calls : List PendingCall) :
    WellKept (runPending crypto sorter getContentsHash calls) := by
  unfold runPending
  have reached : ∀ pending, WellKept pending → WellKept
      (calls.foldl (PendingCall.apply crypto sorter getContentsHash)
        pending) := by
    induction calls with
    | nil => exact fun _ kept => kept
    | cons call calls ih =>
        intro pending kept
        exact ih _ (kept.apply call)
  exact reached _ wellKept_initial

end Runs

/-! ## What the maps say of the transactions -/

/-- No two generations hold a transaction of one account and one full hash. -/
def InOneGeneration (pending : PendingTransactions) : Prop :=
  ∀ (i j : ℕ) newer older,
    pending[i]? = some newer → pending[j]? = some older →
    ∀ first ∈ transactionsOf newer, ∀ second ∈ transactionsOf older,
      first.sourceAccount = second.sourceAccount →
        first.fullHash = second.fullHash → i = j

/-- The map is not empty and holds the highest sequence number of its
transactions and, in 64-bit arithmetic, the sum of their fees. -/
structure TxMap.Sums (txmap : TxMap) : Prop where
  nonempty : txmap.mTransactions.rows ≠ []
  mMaxSeq : IsGreatest
    { seq | ∃ row ∈ txmap.mTransactions.rows, row.2.seqNum = seq }
    txmap.mMaxSeq
  mTotalFees : txmap.mTotalFees =
    wrap64 (totalFees txmap.mTransactions.rows)
  exactly : totalFees txmap.mTransactions.rows ≤ int64Max →
    txmap.mTotalFees = totalFees txmap.mTransactions.rows

theorem totalFees_nonneg (rows : List (Hash × Transaction)) :
    0 ≤ totalFees rows := by
  apply List.sum_nonneg
  intro fee member
  obtain ⟨row, -, rfl⟩ := List.mem_map.mp member
  exact Int.natCast_nonneg _

theorem wrap64_of_fits {value : ℤ} (nonneg : 0 ≤ value)
    (fits : value ≤ int64Max) : wrap64 value = value := by
  unfold int64Max at fits
  apply Int.bmod_eq_of_le
  · norm_num
    omega
  · norm_num
    omega

theorem TxMap.Filed.sums {txmap : TxMap} {acc : AccountID}
    (filed : txmap.Filed acc) (tallied : txmap.Tallied) : txmap.Sums := by
  refine ⟨filed.nonempty, ⟨?_, ?_⟩, tallied.total, ?_⟩
  · rcases tallied.reached with zero | reached
    · obtain ⟨row, member⟩ := List.exists_mem_of_ne_nil _ filed.nonempty
      have below := tallied.upper row member
      exact ⟨row, member, by omega⟩
    · exact reached
  · rintro seq ⟨row, member, rfl⟩
    exact tallied.upper row member
  · intro fits
    rw [tallied.total]
    exact wrap64_of_fits (totalFees_nonneg _) fits

theorem Sound.holds_of_mem {map : AccountTxMap} (sound : Sound [] map)
    {tx : Transaction} (member : tx ∈ transactionsOf map) :
    Holds map tx.sourceAccount tx.fullHash := by
  obtain ⟨⟨acc, txmap⟩, listed, within⟩ := List.mem_flatMap.mp member
  obtain ⟨⟨hash, held⟩, row, rfl⟩ := List.mem_map.mp within
  have found := Table.find?_eq_some.mpr listed
  obtain ⟨filed, -⟩ := sound acc txmap found
  obtain ⟨key, source⟩ := filed.keys _ row
  refine ⟨txmap, ?_, ?_⟩
  · rw [source]
    exact found
  · have lookup := Table.find?_eq_some.mpr row
    rw [← key]
    unfold Table.contains
    rw [lookup]
    rfl

theorem WellKept.inOneGeneration {pending : PendingTransactions}
    (kept : WellKept pending) : InOneGeneration pending := by
  intro i j newer older left right first firstHeld second secondHeld source
    hash
  obtain ⟨iInside, rfl⟩ := List.getElem?_eq_some_iff.mp left
  obtain ⟨jInside, rfl⟩ := List.getElem?_eq_some_iff.mp right
  have firstHolds :=
    (kept.sound _ (List.getElem_mem iInside)).holds_of_mem firstHeld
  have secondHolds :=
    (kept.sound _ (List.getElem_mem jInside)).holds_of_mem secondHeld
  rw [source, hash] at firstHolds
  have apart := List.pairwise_iff_getElem.mp kept.disjoint
  rcases lt_trichotomy i j with before | same | after
  · exact absurd secondHolds
      (apart i j iInside jInside before _ _ firstHolds)
  · exact same
  · exact absurd firstHolds
      (apart j i jInside iInside after _ _ secondHolds)

theorem pendingTransactions_consistent (crypto : Crypto) (sorter : Sorter)
    (getContentsHash : List Transaction → Hash) (calls : List PendingCall) :
    (runPending crypto sorter getContentsHash calls).length = 4 ∧
      InOneGeneration (runPending crypto sorter getContentsHash calls) ∧
      ∀ map ∈ runPending crypto sorter getContentsHash calls,
        ∀ acc txmap, map.find? acc = some txmap →
          (∀ row ∈ txmap.mTransactions.rows,
            row.1 = row.2.fullHash ∧ row.2.sourceAccount = acc) ∧
          txmap.Sums := by
  have kept : WellKept (runPending crypto sorter getContentsHash calls) :=
    wellKept_runPending calls
  refine ⟨kept.generations, kept.inOneGeneration, ?_⟩
  intro map member acc txmap found
  obtain ⟨filed, tallied⟩ := kept.sound map member acc txmap found
  exact ⟨filed.keys, filed.sums (tallied List.not_mem_nil)⟩

end StellarCore.Herder
