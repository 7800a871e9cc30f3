import StellarCore.Herder.PendingTransactions
import StellarCore.Herder.TrimmedSets

/-!
# The proposed set

`HerderImpl::triggerNextLedger` up to the contents hash of the set: all
pending transactions are trimmed and surge priced, and the set that is left
has to pass its own check.  Trimming leaves every account a settled list,
surge pricing cuts such a list at its end, and a set of settled lists is
valid.
-/

namespace StellarCore.Herder

open StellarCore.Lib
open StellarCore.Transactions

/-- The set that is proposed, and the transactions that stay pending. -/
def triggerNextLedger (sorter : Sorter) (crypto : Crypto) (lclHash : Hash)
    (pending : PendingTransactions) :
    Ledger (TxSetFrame × PendingTransactions) := do
  let proposedSet : TxSetFrame :=
    { previousLedgerHash := lclHash
      transactions := pending.flatMap transactionsOf
      contentsHash := 0 }
  let (proposedSet, removed) ← proposedSet.trimInvalid sorter crypto
  let pending := removeReceivedTxs pending removed
  let header ← getHeader
  let proposedSet := proposedSet.surgePricingFilter sorter header
  if ← proposedSet.checkValid sorter crypto lclHash then
    return (proposedSet, pending)
  else
    throw (.runtimeError "wanting to emit an invalid txSet")

/-! ## The transactions by account -/

/-- The map has the transactions of every account that has any. -/
structure GroupsOf (txs : List Transaction)
    (map : List (AccountID × List Transaction)) : Prop where
  ascending : Ascending map
  looked : ∀ accountID, map.lookup accountID =
    if ofAccount accountID txs = [] then none
    else some (ofAccount accountID txs)

theorem groupsOf_nil : GroupsOf [] [] where
  ascending := List.Pairwise.nil
  looked _ := rfl

theorem GroupsOf.push {txs : List Transaction}
    {map : List (AccountID × List Transaction)} (groups : GroupsOf txs map)
    (tx : Transaction) :
    GroupsOf (txs ++ [tx]) (upsert tx.sourceAccount
      (fun txs => txs.getD [] ++ [tx]) map) where
  ascending := ascending_upsert groups.ascending
  looked := by
    intro accountID
    rw [lookup_upsert groups.ascending, ofAccount_append]
    by_cases same : accountID = tx.sourceAccount
    · subst same
      rw [if_pos rfl, ofAccount_cons_of_eq rfl, ofAccount_nil,
        groups.looked]
      have grown : ofAccount tx.sourceAccount txs ++ [tx] ≠ [] := by simp
      rw [if_neg grown]
      split
      next none =>
        rw [none]
        rfl
      next => rfl
    · rw [if_neg same, ofAccount_cons_of_ne (Ne.symm same), ofAccount_nil,
        List.append_nil]
      exact groups.looked accountID

theorem groupsOf_accountTxMap (txs : List Transaction) :
    GroupsOf txs (TxSetFrame.accountTxMap txs) := by
  have general : ∀ (rest done : List Transaction)
      (map : List (AccountID × List Transaction)), GroupsOf done map →
      GroupsOf (done ++ rest) (rest.foldl (fun map tx =>
        upsert tx.sourceAccount (fun txs => txs.getD [] ++ [tx]) map)
        map) := by
    intro rest
    induction rest with
    | nil =>
        intro done map groups
        rw [List.append_nil]
        exact groups
    | cons tx rest ih =>
        intro done map groups
        have next := ih (done ++ [tx]) _ (groups.push tx)
        rw [List.append_assoc] at next
        exact next
  exact general txs [] [] groupsOf_nil

theorem GroupsOf.mem {txs : List Transaction}
    {map : List (AccountID × List Transaction)} (groups : GroupsOf txs map)
    {accountID : AccountID} {group : List Transaction}
    (member : (accountID, group) ∈ map) :
    group = ofAccount accountID txs := by
  have found := (Table.lookup_eq_some groups.ascending.nodup).mpr member
  rw [groups.looked] at found
  split at found
  next => cases found
  next => exact (Option.some_inj.mp found).symm

theorem GroupsOf.absent {txs : List Transaction}
    {map : List (AccountID × List Transaction)} (groups : GroupsOf txs map)
    {accountID : AccountID} (absent : accountID ∉ map.map Prod.fst) :
    ofAccount accountID txs = [] := by
  have missed : map.lookup accountID = none := by
    rw [List.lookup_eq_none_iff]
    intro item member
    have differs : accountID ≠ item.1 := by
      rintro rfl
      exact absent (List.mem_map_of_mem member)
    simpa using differs
  rw [groups.looked] at missed
  split at missed
  next none => exact none
  next => cases missed

/-! ## Trimming all accounts -/

section Trimming

variable {crypto : Crypto} {ledger : LedgerState}

theorem Removes.has {accountID other : AccountID} {before after : TxSetFrame}
    (removes : Removes accountID before after) (differs : other ≠ accountID)
    {txs : List Transaction} (has : Has before other txs) :
    Has after other txs := by
  unfold Has
  rw [removes.others other differs]
  exact has

theorem SettledIn.of_nil {set : TxSetFrame} {accountID : AccountID}
    (none : ofAccount accountID set.transactions = []) :
    SettledIn crypto ledger set accountID := by
  refine ⟨[], ?_, Settled.nil⟩
  unfold Has
  rw [none]

theorem totalFee_lt {txs : List Transaction} (few : txs.length < 2 ^ 31) :
    totalFee txs < 2 ^ 63 := by
  have each : totalFee txs ≤ txs.length * (2 ^ 32 : ℤ) := by
    clear few
    induction txs with
    | nil => exact le_rfl
    | cons tx txs ih =>
        have fee := tx.fee_lt
        rw [totalFee_cons, List.length_cons]
        push_cast
        omega
  omega

variable (crypto) in
theorem trimAccounts_settled (sorter : Sorter)
    {groups : List (AccountID × List Transaction)}
    (ascending : Ascending groups)
    (sources : ∀ group ∈ groups, ∀ tx ∈ group.2,
      tx.sourceAccount = group.1)
    (few : ∀ group ∈ groups, group.2.length < 2 ^ 31)
    (fit : BalancesFit ledger) (state : TxSetFrame.TrimState)
    (waiting : ∀ group ∈ groups, Has state.set group.1 group.2)
    (settled : ∀ accountID, accountID ∉ groups.map Prod.fst →
      SettledIn crypto ledger state.set accountID) :
    Ends (TxSetFrame.trimAccounts sorter crypto groups state) ledger
      (fun after finish => finish = ledger ∧
        after.set.transactions.Sublist state.set.transactions ∧
        after.set.previousLedgerHash = state.set.previousLedgerHash ∧
        ∀ accountID, SettledIn crypto ledger after.set accountID)
      (fun reason finish => AccountFailure reason ∧ finish = ledger) := by
  induction groups generalizing state with
  | nil =>
      refine ⟨rfl, List.Sublist.refl _, rfl, ?_⟩
      intro accountID
      exact settled accountID List.not_mem_nil
  | cons group groups ih =>
      obtain ⟨accountID, txs⟩ := group
      obtain ⟨first, later⟩ := List.pairwise_cons.mp ascending
      have perm := sorter.perm seqSorter txs
      have own : ∀ tx ∈ sorter.sort seqSorter txs,
          tx.sourceAccount = accountID := fun tx member =>
        sources (accountID, txs) List.mem_cons_self tx (perm.subset member)
      have fees : totalFee (sorter.sort seqSorter txs) < 2 ^ 63 := by
        rw [totalFee_perm perm]
        exact totalFee_lt (few (accountID, txs) List.mem_cons_self)
      have has : Has state.set accountID (sorter.sort seqSorter txs) :=
        (waiting (accountID, txs) List.mem_cons_self).trans perm.symm
      rw [TxSetFrame.trimAccounts, Ends.bind_iff]
      refine (trimAccount_settled crypto own
        (sorter.sorted Transaction.seqNum txs) fit fees state has).mono ?_
        (fun _ _ failed => failed)
      rintro middle finish ⟨rfl, removes, here⟩
      refine (ih later
        (fun group member => sources group (List.mem_cons_of_mem _ member))
        (fun group member => few group (List.mem_cons_of_mem _ member))
        middle ?_ ?_).mono ?_ (fun _ _ failed => failed)
      · intro group member
        exact removes.has (first group member).ne'
          (waiting group (List.mem_cons_of_mem _ member))
      · intro other absent
        by_cases same : other = accountID
        · rw [same]
          exact here
        · have outside :
              other ∉ ((accountID, txs) :: groups).map Prod.fst := by
            rw [List.map_cons, List.mem_cons]
            rintro (equal | member)
            · exact same equal
            · exact absent member
          obtain ⟨kept, had, good⟩ := settled other outside
          exact ⟨kept, removes.has same had, good⟩
      · rintro after last ⟨same, sublist, previous, all⟩
        exact ⟨same, sublist.trans removes.sublist,
          previous.trans removes.previous, all⟩

/-- Trimming leaves every account a settled list. -/
theorem trimInvalid_settled (sorter : Sorter) (crypto : Crypto)
    (fit : BalancesFit ledger) (set : TxSetFrame)
    (few : set.transactions.length < 2 ^ 31) :
    Ends (set.trimInvalid sorter crypto) ledger
      (fun trimmed finish => finish = ledger ∧
        trimmed.1.transactions.Sublist
          (set.sortForHash sorter).transactions ∧
        trimmed.1.previousLedgerHash = set.previousLedgerHash ∧
        ∀ accountID, SettledIn crypto ledger trimmed.1 accountID)
      (fun reason finish => AccountFailure reason ∧ finish = ledger) := by
  have perm : (set.sortForHash sorter).transactions.Perm set.transactions :=
    sorter.perm hashTxSorter set.transactions
  have groups := groupsOf_accountTxMap (set.sortForHash sorter).transactions
  unfold TxSetFrame.trimInvalid
  simp only [Ends.bind_iff]
  refine (trimAccounts_settled crypto sorter groups.ascending ?_ ?_ fit _ ?_
    ?_).mono ?_ (fun _ _ failed => failed)
  · rintro ⟨accountID, txs⟩ member tx inside
    rw [groups.mem member] at inside
    exact (mem_ofAccount.mp inside).2
  · rintro ⟨accountID, txs⟩ member
    rw [groups.mem member]
    refine (List.length_filter_le _ _).trans_lt ?_
    rw [perm.length_eq]
    exact few
  · rintro ⟨accountID, txs⟩ member
    rw [groups.mem member]
    exact List.Perm.refl _
  · intro accountID absent
    exact .of_nil (groups.absent absent)
  · rintro after finish ⟨same, sublist, previous, all⟩
    exact ⟨same, sublist, previous, all⟩

end Trimming

/-! ## Surge pricing -/

/-- The order of `SurgeSorter`, where all fee ratios are numbers. -/
def surgeKey (accountFee : AccountID → Double) (tx : Transaction) :
    (WithTop ℚ)ᵒᵈ ×ₗ AccountID ×ₗ ℕ :=
  toLex (OrderDual.toDual (accountFee tx.sourceAccount).rank,
    toLex (tx.sourceAccount, tx.seqNum))

theorem surgeSorter_eq {accountFee : AccountID → Double}
    (numbers : ∀ accountID, accountFee accountID ≠ .nan) :
    TxSetFrame.surgeSorter accountFee = fun tx1 tx2 =>
      decide (surgeKey accountFee tx1 < surgeKey accountFee tx2) := by
  funext tx1 tx2
  have fee1 := numbers tx1.sourceAccount
  have fee2 := numbers tx2.sourceAccount
  unfold TxSetFrame.surgeSorter surgeKey
  simp only [Prod.Lex.toLex_lt_toLex, OrderDual.toDual_lt_toDual,
    OrderDual.toDual_inj]
  by_cases same : tx1.sourceAccount = tx2.sourceAccount
  · rw [if_pos same, same]
    simp
  · rw [if_neg same, Double.eq_iff fee1 fee2, Double.lt_iff fee2 fee1]
    by_cases ranks : (accountFee tx1.sourceAccount).rank =
        (accountFee tx2.sourceAccount).rank
    · simp [ranks, same]
    · simp [ranks]

/-- The least ratio is a number where the fees of all transactions are
positive. -/
theorem accountFeeMap_number {header : LedgerHeader}
    {txs : List Transaction}
    (priced : ∀ tx ∈ txs, tx.getFeeRatio header ≠ .nan)
    (accountID : AccountID) :
    TxSetFrame.accountFeeMap header txs accountID ≠ .nan := by
  unfold TxSetFrame.accountFeeMap
  refine List.foldlRecOn
    (motive := fun map : AccountID → Double => map accountID ≠ .nan) _ _
    (by simp) ?_
  intro map number tx member
  have ratio := priced tx member
  have updated : Function.update map tx.sourceAccount
      (tx.getFeeRatio header) accountID ≠ .nan := by
    by_cases same : accountID = tx.sourceAccount
    · rw [same, Function.update_self]
      exact ratio
    · rw [Function.update_of_ne same]
      exact number
  split
  · exact updated
  · split
    · exact updated
    · exact number

theorem foldl_removeTx (txs : List Transaction) (set : TxSetFrame) :
    txs.foldl TxSetFrame.removeTx set =
      { set with transactions := set.transactions.diff txs } := by
  induction txs generalizing set with
  | nil => rfl
  | cons tx txs ih =>
      rw [List.foldl_cons, ih, List.diff_cons]
      rfl

theorem diff_perm {α : Type} [DecidableEq α] {list first second : List α}
    (perm : list.Perm (first ++ second)) : (list.diff second).Perm first := by
  rw [← Multiset.coe_eq_coe, ← Multiset.coe_sub, Multiset.coe_eq_coe.mpr perm,
    ← Multiset.coe_add, add_tsub_cancel_right]

section Surge

variable {crypto : Crypto} {ledger : LedgerState} (sorter : Sorter)

/-- What the filter keeps. -/
structure Cut (header : LedgerHeader) (before after : TxSetFrame) : Prop where
  sublist : after.transactions.Sublist before.transactions
  previous : after.previousLedgerHash = before.previousLedgerHash
  size : after.transactions.length ≤ header.maxTxSetSize
  prefixes : ∀ accountID kept, Has before accountID kept →
    kept.Pairwise (fun tx1 tx2 => tx1.seqNum < tx2.seqNum) →
    ∃ rest cut, kept = rest ++ cut ∧ Has after accountID rest

/-- A sorted list of an account is the only one. -/
theorem eq_of_strict {first second : List Transaction}
    (perm : first.Perm second)
    (sorted : first.Pairwise (fun tx1 tx2 => tx1.seqNum ≤ tx2.seqNum))
    (strict : second.Pairwise (fun tx1 tx2 => tx1.seqNum < tx2.seqNum)) :
    first = second := by
  refine List.Perm.eq_of_pairwise ?_ sorted (strict.imp le_of_lt) perm
  intro tx1 tx2 inFirst inSecond le ge
  by_contra apart
  have symmetric : Std.Symm (fun tx1 tx2 : Transaction =>
      tx1.seqNum ≠ tx2.seqNum) := ⟨fun _ _ differ => differ.symm⟩
  exact (strict.imp ne_of_lt).forall (perm.subset inFirst) inSecond apart
    (le_antisymm le ge)

theorem surgePricingFilter_cut {header : LedgerHeader} {set : TxSetFrame}
    (priced : ∀ tx ∈ set.transactions, tx.getFeeRatio header ≠ .nan) :
    Cut header set (set.surgePricingFilter sorter header) := by
  unfold TxSetFrame.surgePricingFilter
  dsimp only
  split
  next tooMany =>
    rw [surgeSorter_eq (accountFeeMap_number priced), foldl_removeTx]
    obtain ⟨sorted, ordered⟩ : ∃ sorted, sorted = sorter.sort
        (fun tx1 tx2 => decide (
          surgeKey (TxSetFrame.accountFeeMap header set.transactions) tx1 <
          surgeKey (TxSetFrame.accountFeeMap header set.transactions) tx2))
        set.transactions := ⟨_, rfl⟩
    rw [← ordered]
    have perm : sorted.Perm set.transactions := by
      rw [ordered]
      exact sorter.perm _ _
    have left : (set.transactions.diff (sorted.drop header.maxTxSetSize)).Perm
        (sorted.take header.maxTxSetSize) := by
      apply diff_perm
      rw [List.take_append_drop]
      exact perm.symm
    refine {
      sublist := List.diff_sublist _ _
      previous := rfl
      size := ?_
      prefixes := ?_ }
    · rw [left.length_eq]
      exact List.length_take_le _ _
    · intro accountID kept has strict
      have bySeq : (ofAccount accountID sorted).Pairwise
          (fun tx1 tx2 => tx1.seqNum ≤ tx2.seqNum) := by
        have keys := sorter.sorted
          (surgeKey (TxSetFrame.accountFeeMap header set.transactions))
          set.transactions
        rw [← ordered] at keys
        refine (keys.filter _).imp_of_mem ?_
        intro tx1 tx2 inOne inTwo le
        have source1 := (mem_ofAccount.mp inOne).2
        have source2 := (mem_ofAccount.mp inTwo).2
        unfold surgeKey at le
        rw [source1, source2] at le
        simpa [Prod.Lex.toLex_le_toLex] using le
      have whole : ofAccount accountID sorted = kept :=
        eq_of_strict ((ofAccount_perm perm accountID).trans has) bySeq strict
      refine ⟨ofAccount accountID (sorted.take header.maxTxSetSize),
        ofAccount accountID (sorted.drop header.maxTxSetSize), ?_,
        ofAccount_perm left accountID⟩
      rw [← ofAccount_append, List.take_append_drop, whole]
  next fits =>
    refine {
      sublist := List.Sublist.refl _
      previous := rfl
      size := not_lt.mp fits
      prefixes := ?_ }
    intro accountID kept has _
    exact ⟨kept, [], (List.append_nil kept).symm, has⟩

theorem Cut.settled {header : LedgerHeader} {before after : TxSetFrame}
    {accountID : AccountID} (cut : Cut header before after)
    (settled : SettledIn crypto ledger before accountID) :
    SettledIn crypto ledger after accountID := by
  obtain ⟨kept, has, good⟩ := settled
  obtain ⟨rest, last, rfl, left⟩ := cut.prefixes accountID kept has good.strict
  exact ⟨rest, left, good.take⟩

end Surge

/-! ## The check of a set of settled lists -/

section Check

variable {crypto : Crypto} {ledger : LedgerState} (sorter : Sorter)

theorem checkAccount_chain {account : AccountEntry} {current : ℕ}
    {txs : List Transaction}
    (chain : Chain crypto ledger account current txs) {totFee : ℤ}
    {lastTx : Option AccountEntry}
    (last : ∀ other, lastTx = some other → other = account)
    (balance : account.balance ≤ int64Max) (positive : 0 ≤ totFee)
    (funds : account.getMinimumBalance ledger.header ≤
      account.balance - (totFee + totalFee txs)) :
    TxSetFrame.checkAccount crypto current totFee lastTx txs ledger =
      .ok true ledger := by
  have reserve : 0 ≤ account.getMinimumBalance ledger.header :=
    Int.natCast_nonneg _
  unfold int64Max at balance
  apply Ends.eq_ok
  induction chain generalizing totFee lastTx with
  | nil =>
      unfold TxSetFrame.checkAccount
      cases lastTx with
      | none => exact ⟨rfl, rfl⟩
      | some other =>
          rw [totalFee_nil, add_zero] at funds
          dsimp only
          rw [last other rfl, Ends.bind_iff, getHeader_ends, Ends.pure_iff,
            wrap64_eq (by omega) (by omega)]
          exact ⟨by simpa using funds, rfl⟩
  | @cons current tx rest accepted later ih =>
      obtain ⟨validity, checked, succeeded, signing⟩ := accepted.checked
      have fees := totalFee_nonneg rest
      rw [totalFee_cons] at funds
      rw [TxSetFrame.checkAccount, Ends.bind_iff, Ends.run_iff checked,
        if_neg (not_not.mpr succeeded), wrap64_eq (by omega) (by omega)]
      refine ih ?_ (by omega) (by omega)
      intro other same
      rw [signing] at same
      exact (Option.some_inj.mp same).symm

theorem checkAccount_settled {accountID : AccountID}
    {txs : List Transaction} (fit : BalancesFit ledger)
    (settled : Settled crypto ledger accountID txs) :
    TxSetFrame.checkAccount crypto 0 0 none txs ledger = .ok true ledger := by
  rcases settled.chained with rfl | ⟨account, chain, loads, funds⟩
  · rfl
  · refine checkAccount_chain chain (by simp) (Loads.balance_le fit loads).2
      le_rfl ?_
    rw [zero_add]
    exact funds

theorem checkAccounts_settled {set : TxSetFrame}
    (fit : BalancesFit ledger)
    (settled : ∀ accountID, SettledIn crypto ledger set accountID)
    {groups : List (AccountID × List Transaction)}
    (grouped : ∀ group ∈ groups,
      group.2 = ofAccount group.1 set.transactions) :
    TxSetFrame.checkAccounts sorter crypto groups ledger =
      .ok true ledger := by
  apply Ends.eq_ok
  induction groups with
  | nil => exact ⟨rfl, rfl⟩
  | cons group groups ih =>
      obtain ⟨accountID, txs⟩ := group
      obtain ⟨kept, has, good⟩ := settled accountID
      have contents : txs = ofAccount accountID set.transactions :=
        grouped (accountID, txs) List.mem_cons_self
      have sorted : sorter.sort seqSorter txs = kept := by
        refine eq_of_strict ((sorter.perm seqSorter txs).trans ?_)
          (sorter.sorted Transaction.seqNum txs) good.strict
        rw [contents]
        exact has
      rw [TxSetFrame.checkAccounts, Ends.bind_iff, sorted,
        Ends.run_iff (checkAccount_settled fit good), if_pos rfl]
      exact ih (fun group member =>
        grouped group (List.mem_cons_of_mem _ member))

theorem sortedByHash_iff {lastHash : Hash} {txs : List Transaction} :
    TxSetFrame.sortedByHash lastHash txs = true ↔
      (∀ tx ∈ txs, lastHash.toNat ≤ tx.fullHash.toNat) ∧
        txs.Pairwise (fun tx1 tx2 =>
          tx1.fullHash.toNat ≤ tx2.fullHash.toNat) := by
  induction txs generalizing lastHash with
  | nil => simp [TxSetFrame.sortedByHash]
  | cons tx rest ih =>
      rw [TxSetFrame.sortedByHash, List.pairwise_cons]
      split
      next before =>
        simp only [Bool.false_eq_true, false_iff]
        rintro ⟨above, -⟩
        exact absurd (above tx List.mem_cons_self) (not_le.mpr before)
      next ordered =>
        rw [ih]
        have here : lastHash.toNat ≤ tx.fullHash.toNat := not_lt.mp ordered
        constructor
        · rintro ⟨above, sorted⟩
          refine ⟨?_, above, sorted⟩
          intro other member
          rcases List.mem_cons.mp member with rfl | member
          · exact here
          · exact here.trans (above other member)
        · rintro ⟨-, above, sorted⟩
          exact ⟨above, sorted⟩

/-- A set of settled lists passes its check. -/
theorem checkValid_settled {set : TxSetFrame} (fit : BalancesFit ledger)
    (size : set.transactions.length ≤ ledger.header.maxTxSetSize)
    (sorted : set.transactions.Pairwise (fun tx1 tx2 =>
      tx1.fullHash.toNat ≤ tx2.fullHash.toNat))
    (settled : ∀ accountID, SettledIn crypto ledger set accountID) :
    set.checkValid sorter crypto set.previousLedgerHash ledger =
      .ok true ledger := by
  have groups := groupsOf_accountTxMap set.transactions
  have hashes : TxSetFrame.sortedByHash 0 set.transactions = true :=
    sortedByHash_iff.mpr ⟨fun _ _ => Nat.zero_le _, sorted⟩
  apply Ends.eq_ok
  unfold TxSetFrame.checkValid
  rw [Ends.bind_iff, getHeader_ends, if_neg (not_not.mpr rfl),
    if_neg (not_lt.mpr size), hashes]
  have checked := checkAccounts_settled sorter fit settled
    (fun group member => groups.mem member)
  exact (Ends.run_iff checked).mpr ⟨rfl, rfl⟩

end Check

/-! ## The proposal -/

theorem getFeeRatio_ne_nan {tx : Transaction} {header : LedgerHeader}
    (priced : 0 < tx.getMinFee header) : tx.getFeeRatio header ≠ .nan := by
  unfold Transaction.getFeeRatio
  rw [Ne, Double.div_eq_nan_iff]
  omega

/-- Where no transaction is free, a node never wants to emit an invalid set:
whatever transactions are pending, the set that is proposed passes its
check. -/
theorem triggerNextLedger_proposes (sorter : Sorter) (crypto : Crypto)
    (ledger : LedgerState) (lclHash : Hash) (pending : PendingTransactions)
    (fit : BalancesFit ledger)
    (few : (pending.flatMap transactionsOf).length < 2 ^ 31)
    (priced : ∀ tx ∈ pending.flatMap transactionsOf,
      0 < tx.getMinFee ledger.header) :
    Ends (triggerNextLedger sorter crypto lclHash pending) ledger
      (fun proposed finish => finish = ledger ∧
        proposed.1.transactions ⊆ pending.flatMap transactionsOf ∧
        proposed.1.checkValid sorter crypto lclHash ledger =
          .ok true ledger)
      (fun reason finish => AccountFailure reason ∧ finish = ledger) := by
  unfold triggerNextLedger
  rw [Ends.bind_iff]
  refine (trimInvalid_settled sorter crypto fit _ few).mono ?_
    (fun _ _ failed => failed)
  rintro ⟨trimmed, removed⟩ finish ⟨rfl, sublist, previous, settled⟩
  have perm := sorter.perm hashTxSorter (pending.flatMap transactionsOf)
  have inside : trimmed.transactions ⊆ pending.flatMap transactionsOf :=
    fun tx member => perm.subset (sublist.subset member)
  have cut : Cut finish.header trimmed
      (trimmed.surgePricingFilter sorter finish.header) :=
    surgePricingFilter_cut sorter
      (fun tx member => getFeeRatio_ne_nan (priced tx (inside member)))
  have sorted : (trimmed.surgePricingFilter sorter
      finish.header).transactions.Pairwise (fun tx1 tx2 =>
        tx1.fullHash.toNat ≤ tx2.fullHash.toNat) :=
    (sorter.sorted (fun tx => tx.fullHash.toNat)
      (pending.flatMap transactionsOf)).sublist (cut.sublist.trans sublist)
  have checked : (trimmed.surgePricingFilter sorter finish.header).checkValid
      sorter crypto lclHash finish = .ok true finish := by
    have passes := checkValid_settled sorter fit cut.size sorted
      (fun accountID => cut.settled (settled accountID))
    rw [cut.previous, previous] at passes
    exact passes
  dsimp only
  rw [Ends.bind_iff, getHeader_ends, Ends.bind_iff, Ends.run_iff checked,
    if_pos rfl]
  exact ⟨rfl, fun tx member => inside (cut.sublist.subset member), checked⟩

/-- Every signature is accepted. -/
def trustingCrypto : Crypto where
  verifySig _ _ _ := true
  sha256 _ := 0

def payerLedger : LedgerState :=
  { accounts :=
      { rows := [(1, { AccountEntry.fresh 1 with balance := 1000000000 })]
        distinct := by decide }
    trustLines := .empty
    offers := .empty
    data := .empty
    header :=
      { ledgerVersion := 9, closeTime := 0, ledgerSeq := 2
        totalCoins := 1000000000, feePool := 0, inflationSeq := 0
        idPool := 0, baseFee := 100, baseReserve := 100000000
        maxTxSetSize := 1 } }

theorem hundred_small : 100 < 2 ^ 32 := by
  decide

theorem byte_small (seqNum : UInt8) : seqNum.toNat < 2 ^ 64 :=
  seqNum.toNat_lt.trans (by decide)

def inflationTransaction (seqNum : UInt8) (fullHash : Hash) :
    Transaction where
  sourceAccount := 1
  fee := 100
  fee_lt := hundred_small
  seqNum := seqNum.toNat
  seqNum_lt := byte_small seqNum
  timeBounds := none
  operations := [{ sourceAccount := none, body := .inflation }]
  signatures := [{ hint := 1, signature := [] }]
  contentsHash := fullHash
  fullHash

/-- Three transactions, of which the last one does not follow the others. -/
def threePending : PendingTransactions :=
  [receive (inflationTransaction 4 9) (receive (inflationTransaction 2 5)
    (receive (inflationTransaction 1 6) .empty))]

def proposedSeqs : EStateM.Result Failure LedgerState
    (TxSetFrame × PendingTransactions) → List ℕ
  | .ok proposed _ => proposed.1.transactions.map Transaction.seqNum
  | .error _ _ => []

theorem triggerNextLedger_proposes_first :
    ∃ proposed, triggerNextLedger Sorter.insertion trustingCrypto 7
        threePending payerLedger = .ok proposed payerLedger ∧
      proposed.1.transactions.map Transaction.seqNum = [1] ∧
      proposed.1.checkValid Sorter.insertion trustingCrypto 7 payerLedger =
        .ok true payerLedger := by
  have fit : BalancesFit payerLedger := by
    intro row member
    obtain rfl := List.mem_singleton.mp member
    decide
  have ends := triggerNextLedger_proposes Sorter.insertion trustingCrypto
    payerLedger 7 threePending fit (by decide +kernel) (by decide +kernel)
  have seqs : proposedSeqs (triggerNextLedger Sorter.insertion trustingCrypto
      7 threePending payerLedger) = [1] := by
    decide +kernel
  cases result : triggerNextLedger Sorter.insertion trustingCrypto 7
      threePending payerLedger with
  | error reason finish =>
      rw [result] at seqs
      cases seqs
  | ok proposed finish =>
      rw [result] at seqs
      obtain ⟨rfl, -, checked⟩ := ends.of_ok result
      exact ⟨proposed, rfl, seqs, checked⟩

end StellarCore.Herder
