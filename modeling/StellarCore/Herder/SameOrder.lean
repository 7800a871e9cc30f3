import StellarCore.Herder.ApplyOrder

/-!
# One order for all nodes

The order of application goes by turns: all first transactions of an account
come before all second ones.  It depends on the set alone, not on how the set
is stored nor on how ties are sorted.
-/

namespace StellarCore.Herder

open StellarCore.Lib
open StellarCore.Transactions

/-! ## Turns -/

/-- How many transactions of the same account come before a place. -/
def turnAt (txs : List Transaction) (place : Fin txs.length) : ℕ :=
  (ofAccount txs[place].sourceAccount (txs.take place)).length

/-- Where a batch begins. -/
def batchStart (batches : List (List Transaction)) (i : ℕ) : ℕ :=
  (batches.take i).flatten.length

theorem batchStart_succ (batch : List Transaction)
    (batches : List (List Transaction)) (i : ℕ) :
    batchStart (batch :: batches) (i + 1) =
      batch.length + batchStart batches i := by
  unfold batchStart
  rw [List.take_succ_cons, List.flatten_cons, List.length_append]

theorem batchStart_mono (batches : List (List Transaction)) {i j : ℕ}
    (before : i ≤ j) : batchStart batches i ≤ batchStart batches j := by
  have first : batches.take i <+: batches.take j :=
    List.take_prefix_take_left before
  exact first.flatten.length_le

/-- In a list with one transaction of the account at most, none comes before
it. -/
theorem ofAccount_take_eq_nil {batch : List Transaction} {i : ℕ}
    {tx : Transaction} (here : batch[i]? = some tx)
    (one : (ofAccount tx.sourceAccount batch).length ≤ 1) :
    ofAccount tx.sourceAccount (batch.take i) = [] := by
  obtain ⟨inside, at'⟩ := List.getElem?_eq_some_iff.mp here
  have split : batch = batch.take i ++ tx :: batch.drop (i + 1) := by
    rw [← at', ← List.drop_eq_getElem_cons inside, List.take_append_drop]
  rw [split, ofAccount_append, ofAccount_cons_of_eq rfl,
    List.length_append, List.length_cons] at one
  exact List.length_eq_zero_iff.mp (by omega)

/-- Where the i-th batch has the i-th transaction of every account, the turn
of a transaction is the number of its batch. -/
theorem turn_flatten {batches : List (List Transaction)}
    {order : AccountID → List Transaction}
    (slots : ∀ accountID i, i < batches.length →
      ofAccount accountID (batches.getD i []) =
        (order accountID)[i]?.toList)
    {place : ℕ} {tx : Transaction}
    (here : batches.flatten[place]? = some tx) :
    ∃ turn, batchStart batches turn ≤ place ∧
      place < batchStart batches (turn + 1) ∧
      (ofAccount tx.sourceAccount (batches.flatten.take place)).length =
        turn := by
  induction batches generalizing order place with
  | nil => cases here
  | cons batch batches ih =>
      have first : ∀ accountID, ofAccount accountID batch =
          (order accountID)[0]?.toList :=
        fun accountID => slots accountID 0 (Nat.succ_pos _)
      have later : ∀ accountID i, i < batches.length →
          ofAccount accountID (batches.getD i []) =
            ((order accountID).drop 1)[i]?.toList := by
        intro accountID i inside
        have slot := slots accountID (i + 1) (Nat.succ_lt_succ inside)
        rw [List.getElem?_drop, Nat.add_comm 1 i]
        exact slot
      rw [List.flatten_cons] at here ⊢
      by_cases inside : place < batch.length
      · rw [List.getElem?_append_left inside] at here
        have one : (ofAccount tx.sourceAccount batch).length ≤ 1 := by
          rw [first]
          cases (order tx.sourceAccount)[0]? with
          | none => exact Nat.zero_le 1
          | some other => exact le_rfl
        refine ⟨0, Nat.zero_le _, ?_, ?_⟩
        · rw [batchStart_succ]
          exact Nat.lt_add_right _ inside
        · rw [List.take_append_of_le_length inside.le,
            ofAccount_take_eq_nil here one]
          rfl
      · have outside : batch.length ≤ place := not_lt.mp inside
        rw [List.getElem?_append_right outside] at here
        obtain ⟨turn, lower, upper, count⟩ := ih later here
        -- the account has a transaction in the first batch too
        obtain ⟨home, member, found⟩ :=
          List.mem_flatten.mp (List.mem_of_getElem? here)
        have again : tx ∈ batches.flatMap (ofAccount tx.sourceAccount) :=
          List.mem_flatMap.mpr ⟨home, member, mem_ofAccount.mpr ⟨found, rfl⟩⟩
        have some : (ofAccount tx.sourceAccount batch).length = 1 := by
          cases all : order tx.sourceAccount with
          | nil =>
              have none := flatMap_slots (later tx.sourceAccount)
              rw [all, List.drop_nil, List.take_nil] at none
              rw [none] at again
              cases again
          | cons other others =>
              rw [first, all]
              rfl
        refine ⟨turn + 1, ?_, ?_, ?_⟩
        · rw [batchStart_succ]
          omega
        · rw [batchStart_succ]
          omega
        · rw [List.take_append, List.take_of_length_le outside,
            ofAccount_append, List.length_append, some, count]
          exact Nat.add_comm 1 turn

/-- All transactions of a turn come before those of later turns. -/
theorem turnAt_lt (sorter : Sorter) (set : TxSetFrame)
    {first second : Fin (set.sortForApply sorter).length}
    (earlier : turnAt (set.sortForApply sorter) first <
      turnAt (set.sortForApply sorter) second) :
    first < second := by
  have slots : ∀ accountID i, i < (appliedBatches sorter set).length →
      ofAccount accountID ((appliedBatches sorter set).getD i []) =
        (ofAccount accountID
          (sorter.sort seqSorter set.transactions))[i]?.toList :=
    fun accountID i _ => ofAccount_batch sorter set accountID i
  have turn : ∀ place : Fin (set.sortForApply sorter).length,
      batchStart (appliedBatches sorter set)
          (turnAt (set.sortForApply sorter) place) ≤ place ∧
        place < batchStart (appliedBatches sorter set)
          (turnAt (set.sortForApply sorter) place + 1) := by
    intro place
    have here : (appliedBatches sorter set).flatten[place.val]? =
        some (set.sortForApply sorter)[place] := by
      rw [← sortForApply_eq_flatten]
      exact List.getElem?_eq_getElem place.isLt
    obtain ⟨turn, lower, upper, count⟩ := turn_flatten slots here
    rw [← sortForApply_eq_flatten] at count
    rw [turnAt, count]
    exact ⟨lower, upper⟩
  have before := batchStart_mono (appliedBatches sorter set) earlier
  have upper := (turn first).2
  have lower := (turn second).1
  exact Fin.lt_def.mpr (upper.trans_le (before.trans lower))

/-! ## The same set stored in another order -/

/-- No two transactions have both account and sequence number in common. -/
def SeqsDiffer (txs : List Transaction) : Prop :=
  txs.Pairwise (fun tx1 tx2 =>
    ¬ (tx1.sourceAccount = tx2.sourceAccount ∧ tx1.seqNum = tx2.seqNum))

def HashesDiffer (txs : List Transaction) : Prop :=
  txs.Pairwise (fun tx1 tx2 => tx1.fullHash ≠ tx2.fullHash)

/-- Two sorters agree where no two keys are equal. -/
theorem sort_eq {α : Type} {first second : List α} (one other : Sorter)
    (perm : first.Perm second) (key : α → ℕ)
    (differ : first.Pairwise (fun x y => key x ≠ key y)) :
    one.sort (fun x y => key x < key y) first =
      other.sort (fun x y => key x < key y) second := by
  have permOne := one.perm (fun x y => decide (key x < key y)) first
  have permOther := other.perm (fun x y => decide (key x < key y)) second
  apply List.Perm.eq_of_pairwise _ (one.sorted key first)
    (other.sorted key second) (permOne.trans (perm.trans permOther.symm))
  intro x y inOne inOther le ge
  by_contra apart
  have symmetric : Std.Symm (fun x y : α => key x ≠ key y) :=
    ⟨fun _ _ differ => differ.symm⟩
  exact differ.forall (permOne.subset inOne)
    (perm.symm.subset (permOther.subset inOther)) apart
    (le_antisymm le ge)

theorem SeqsDiffer.eq {txs : List Transaction} (differ : SeqsDiffer txs)
    {tx1 tx2 : Transaction} (one : tx1 ∈ txs) (two : tx2 ∈ txs)
    (account : tx1.sourceAccount = tx2.sourceAccount)
    (seqNum : tx1.seqNum = tx2.seqNum) : tx1 = tx2 := by
  by_contra apart
  have symmetric : Std.Symm (fun tx1 tx2 : Transaction =>
      ¬ (tx1.sourceAccount = tx2.sourceAccount ∧
        tx1.seqNum = tx2.seqNum)) :=
    ⟨fun _ _ differ same => differ ⟨same.1.symm, same.2.symm⟩⟩
  exact List.Pairwise.forall differ one two apart ⟨account, seqNum⟩

section Stored

variable (one other : Sorter) {first second : List Transaction}
  (perm : first.Perm second)

include perm

/-- The transactions of an account come out in the same order. -/
theorem ofAccount_sort_eq (seqs : SeqsDiffer first)
    (accountID : AccountID) :
    ofAccount accountID (one.sort seqSorter first) =
      ofAccount accountID (other.sort seqSorter second) := by
  have permOne := one.perm seqSorter first
  have permOther := other.perm seqSorter second
  apply List.Perm.eq_of_pairwise _
    ((one.sorted Transaction.seqNum first).filter _)
    ((other.sorted Transaction.seqNum second).filter _)
    (ofAccount_perm (permOne.trans (perm.trans permOther.symm)) accountID)
  intro tx1 tx2 inOne inOther le ge
  obtain ⟨member1, account1⟩ := mem_ofAccount.mp inOne
  obtain ⟨member2, account2⟩ := mem_ofAccount.mp inOther
  exact seqs.eq (permOne.subset member1)
    (perm.symm.subset (permOther.subset member2))
    (account1.trans account2.symm) (le_antisymm le ge)

omit perm in
theorem perm_of_ofAccount {batch batch' : List Transaction}
    (same : ∀ accountID, ofAccount accountID batch =
      ofAccount accountID batch') : batch.Perm batch' := by
  classical
  rw [List.perm_iff_count]
  intro tx
  have counts : ∀ txs : List Transaction,
      (ofAccount tx.sourceAccount txs).count tx = txs.count tx :=
    fun txs => List.count_filter (by simp)
  rw [← counts batch, ← counts batch', same]

omit perm in
theorem flatten_of_getD_nil {batches : List (List Transaction)}
    (none : ∀ i, batches.getD i [] = []) : batches.flatten = [] := by
  induction batches with
  | nil => rfl
  | cons batch batches ih =>
      have first : batch = [] := none 0
      rw [List.flatten_cons, first, ih (fun i => none (i + 1))]
      rfl

omit perm in
theorem flatten_eq_of_getD {batches batches' : List (List Transaction)}
    (same : ∀ i, batches.getD i [] = batches'.getD i []) :
    batches.flatten = batches'.flatten := by
  induction batches generalizing batches' with
  | nil => exact (flatten_of_getD_nil (fun i => (same i).symm)).symm
  | cons batch batches ih =>
      cases batches' with
      | nil => exact flatten_of_getD_nil same
      | cons batch' batches' =>
          have first : batch = batch' := same 0
          rw [List.flatten_cons, List.flatten_cons, first,
            ih (fun i => same (i + 1))]

omit perm in
/-- The hashes stay apart when they are mixed with that of the set. -/
theorem applyKeys_differ {txs : List Transaction}
    (hashes : HashesDiffer txs) (setHash : Hash) :
    txs.Pairwise (fun tx1 tx2 =>
      (setHash ^^^ tx1.fullHash).toNat ≠
        (setHash ^^^ tx2.fullHash).toNat) := by
  apply hashes.imp
  intro tx1 tx2 differ same
  exact differ ((BitVec.xor_right_inj setHash).mp (BitVec.toNat_inj.mp same))

omit perm in
theorem setBatches_differ {set : TxSetFrame}
    (hashes : HashesDiffer set.transactions) (i : ℕ) :
    HashesDiffer ((setBatches one set).getD i []) := by
  have filled := filled_foldl filled_start
    (one.sort seqSorter set.transactions)
  have perm := filled.contents.trans (one.perm seqSorter set.transactions)
  have all : HashesDiffer (setBatches one set).flatten :=
    (perm.pairwise_iff (fun differ => differ.symm)).mpr hashes
  by_cases inside : i < (setBatches one set).length
  · rw [List.getD_eq_getElem?_getD, List.getElem?_eq_getElem inside]
    exact all.sublist (List.sublist_flatten_of_mem (List.getElem_mem inside))
  · rw [List.getD_eq_getElem?_getD, List.getElem?_eq_none (not_lt.mp inside)]
    exact List.Pairwise.nil

theorem contentsHash_eq (digest : Hash → List Transaction → Hash)
    (hashes : HashesDiffer first) {set set' : TxSetFrame}
    (previous : set.previousLedgerHash = set'.previousLedgerHash)
    (stored : set.transactions = first)
    (stored' : set'.transactions = second) :
    set.getContentsHash one digest = set'.getContentsHash other digest := by
  have keys : first.Pairwise (fun tx1 tx2 =>
      tx1.fullHash.toNat ≠ tx2.fullHash.toNat) := by
    apply hashes.imp
    intro tx1 tx2 differ same
    exact differ (BitVec.toNat_inj.mp same)
  unfold TxSetFrame.getContentsHash TxSetFrame.sortForHash hashTxSorter
  rw [previous, stored, stored', sort_eq one other perm _ keys]

end Stored

/-- Two nodes that hold the same transactions apply them in the same
order. -/
theorem sortForApply_eq (one other : Sorter) {set set' : TxSetFrame}
    (perm : set.transactions.Perm set'.transactions)
    (contents : set.contentsHash = set'.contentsHash)
    (seqs : SeqsDiffer set.transactions)
    (hashes : HashesDiffer set.transactions) :
    set.sortForApply one = set'.sortForApply other := by
  rw [sortForApply_eq_flatten, sortForApply_eq_flatten]
  apply flatten_eq_of_getD
  intro i
  rw [appliedBatches_getD, appliedBatches_getD, contents]
  have batch : ((setBatches one set).getD i []).Perm
      ((setBatches other set').getD i []) := by
    apply perm_of_ofAccount
    intro accountID
    rw [ofAccount_setBatches, ofAccount_setBatches,
      ofAccount_sort_eq one other perm seqs]
  apply sort_eq one other batch
  exact applyKeys_differ (setBatches_differ one hashes i) _

theorem sortForApply_order (sorter : Sorter) (set : TxSetFrame) :
    (set.sortForApply sorter).Perm set.transactions ∧
      (∀ accountID, (ofAccount accountID (set.sortForApply sorter)).Pairwise
        (fun tx1 tx2 => tx1.seqNum ≤ tx2.seqNum)) ∧
      (∀ first second : Fin (set.sortForApply sorter).length,
        turnAt (set.sortForApply sorter) first <
          turnAt (set.sortForApply sorter) second → first < second) ∧
      ∀ (digest : Hash → List Transaction → Hash) (other : Sorter)
        (set' : TxSetFrame),
        set.contentsHash = set.getContentsHash sorter digest →
        set'.contentsHash = set'.getContentsHash other digest →
        set.previousLedgerHash = set'.previousLedgerHash →
        set.transactions.Perm set'.transactions →
        SeqsDiffer set.transactions → HashesDiffer set.transactions →
        set.sortForApply sorter = set'.sortForApply other := by
  refine ⟨sortForApply_perm sorter set, ?_, ?_, ?_⟩
  · intro accountID
    rw [ofAccount_sortForApply]
    exact (sorter.sorted Transaction.seqNum set.transactions).filter _
  · intro first second earlier
    exact turnAt_lt sorter set earlier
  · intro digest other set' contents contents' previous perm seqs hashes
    apply sortForApply_eq sorter other perm _ seqs hashes
    rw [contents, contents']
    exact contentsHash_eq sorter other perm digest hashes previous rfl rfl

def bareTransaction (sourceAccount : AccountID) (seqNum : Fin 100)
    (fullHash : Hash) : Transaction where
  sourceAccount
  fee := 100
  fee_lt := by decide
  seqNum
  seqNum_lt := by omega
  timeBounds := none
  operations := []
  signatures := []
  contentsHash := fullHash
  fullHash

def mixHashes (previousLedgerHash : Hash) (txs : List Transaction) : Hash :=
  txs.foldl (fun hash tx => hash ^^^ tx.fullHash) previousLedgerHash

theorem sortForApply_order_two :
    (TxSetFrame.mk 9 [bareTransaction 1 4 6, bareTransaction 1 3 5]
        (mixHashes 9 [bareTransaction 1 3 5, bareTransaction 1 4 6])
      ).sortForApply Sorter.insertion =
    (TxSetFrame.mk 9 [bareTransaction 1 3 5, bareTransaction 1 4 6]
        (mixHashes 9 [bareTransaction 1 3 5, bareTransaction 1 4 6])
      ).sortForApply Sorter.insertion :=
  (sortForApply_order Sorter.insertion _).2.2.2 mixHashes Sorter.insertion _
    rfl rfl rfl (List.Perm.swap _ _ []) (by simp [SeqsDiffer, bareTransaction])
    (by simp [HashesDiffer, bareTransaction])

end StellarCore.Herder
