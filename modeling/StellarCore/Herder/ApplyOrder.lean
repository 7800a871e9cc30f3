import StellarCore.Herder.TxSetFrame

/-!
# The order of application

The order of `sortForApply` permutes the set and keeps, for every account, the
order by sequence numbers: the i-th transaction of an account is the only one
of it in the i-th batch.
-/

namespace StellarCore.Herder

open StellarCore.Lib
open StellarCore.Transactions

/-- The transactions of an account. -/
def ofAccount (accountID : AccountID) (txs : List Transaction) :
    List Transaction :=
  txs.filter (fun tx => tx.sourceAccount = accountID)

@[simp] theorem ofAccount_nil (accountID : AccountID) :
    ofAccount accountID [] = [] :=
  rfl

@[simp] theorem ofAccount_append (accountID : AccountID)
    (first second : List Transaction) :
    ofAccount accountID (first ++ second) =
      ofAccount accountID first ++ ofAccount accountID second :=
  List.filter_append ..

theorem ofAccount_cons_of_eq {accountID : AccountID} {tx : Transaction}
    (same : tx.sourceAccount = accountID) (txs : List Transaction) :
    ofAccount accountID (tx :: txs) = tx :: ofAccount accountID txs :=
  List.filter_cons_of_pos (by simpa using same)

theorem ofAccount_cons_of_ne {accountID : AccountID} {tx : Transaction}
    (other : tx.sourceAccount ≠ accountID) (txs : List Transaction) :
    ofAccount accountID (tx :: txs) = ofAccount accountID txs :=
  List.filter_cons_of_neg (by simpa using other)

theorem mem_ofAccount {accountID : AccountID} {tx : Transaction}
    {txs : List Transaction} :
    tx ∈ ofAccount accountID txs ↔
      tx ∈ txs ∧ tx.sourceAccount = accountID := by
  simp [ofAccount]

theorem ofAccount_perm {first second : List Transaction}
    (same : first.Perm second) (accountID : AccountID) :
    (ofAccount accountID first).Perm (ofAccount accountID second) :=
  same.filter _

/-! ## Batches -/

theorem getD_resize (batches : List (List Transaction)) (size i : ℕ) :
    (TxBatches.resize batches size).getD i [] = batches.getD i [] := by
  simp only [TxBatches.resize, List.getD_eq_getElem?_getD]
  by_cases inside : i < batches.length
  · rw [List.getElem?_append_left inside]
  · have outside : batches.length ≤ i := not_lt.mp inside
    rw [List.getElem?_append_right outside, List.getElem?_eq_none outside,
      List.getElem?_replicate]
    split
    · rfl
    · rfl

theorem flatten_resize (batches : List (List Transaction)) (size : ℕ) :
    (TxBatches.resize batches size).flatten = batches.flatten := by
  simp [TxBatches.resize]

theorem getD_modify {batches : List (List Transaction)} {v : ℕ}
    (inside : v < batches.length) (tx : Transaction) (i : ℕ) :
    (batches.modify v (fun batch => batch ++ [tx])).getD i [] =
      if i = v then batches.getD i [] ++ [tx] else batches.getD i [] := by
  simp only [List.getD_eq_getElem?_getD, List.getElem?_modify]
  by_cases same : i = v
  · subst same
    simp [List.getElem?_eq_getElem inside]
  · simp [same, Ne.symm same]

theorem flatten_modify {batches : List (List Transaction)} {v : ℕ}
    (inside : v < batches.length) (tx : Transaction) :
    (batches.modify v (fun batch => batch ++ [tx])).flatten.Perm
      (batches.flatten ++ [tx]) := by
  induction batches generalizing v with
  | nil => exact absurd inside (Nat.not_lt_zero v)
  | cons batch batches ih =>
      cases v with
      | zero =>
          simp only [List.modify_zero_cons, List.flatten_cons,
            List.append_assoc]
          exact List.Perm.append_left batch List.perm_append_comm
      | succ v =>
          simp only [List.modify_succ_cons, List.flatten_cons,
            List.append_assoc]
          exact List.Perm.append_left batch
            (ih (Nat.lt_of_succ_lt_succ inside))

/-- After the transactions `done`, the i-th batch has the i-th transaction of
every account. -/
structure TxBatches.Filled (batches : TxBatches)
    (done : List Transaction) : Prop where
  counts : ∀ accountID,
    batches.accountTxCountMap accountID = (ofAccount accountID done).length
  slots : ∀ accountID i,
    ofAccount accountID (batches.txBatches.getD i []) =
      (ofAccount accountID done)[i]?.toList
  contents : batches.txBatches.flatten.Perm done

theorem filled_start : TxBatches.start.Filled [] := by
  constructor
  · intro accountID
    rfl
  · intro accountID i
    have empty : TxBatches.start.txBatches.getD i [] = [] := by
      unfold TxBatches.start
      rw [List.getD_eq_getElem?_getD, List.getElem?_replicate]
      split
      · rfl
      · rfl
    rw [empty]
    rfl
  · exact List.Perm.refl _

theorem filled_push {batches : TxBatches} {done : List Transaction}
    (filled : batches.Filled done) (tx : Transaction) :
    (batches.push tx).Filled (done ++ [tx]) := by
  obtain ⟨counts, slots, contents⟩ := filled
  -- the batches once there is one for the transaction
  obtain ⟨grown, grownEq⟩ : ∃ grown, grown =
      if batches.accountTxCountMap tx.sourceAccount ≥
          batches.txBatches.length then
        TxBatches.resize batches.txBatches
          (batches.accountTxCountMap tx.sourceAccount + 4)
      else
        batches.txBatches := ⟨_, rfl⟩
  have inside :
      batches.accountTxCountMap tx.sourceAccount < grown.length := by
    rw [grownEq]
    split
    · simp only [TxBatches.resize, List.length_append,
        List.length_replicate]
      omega
    · omega
  have grownGetD : ∀ i, grown.getD i [] = batches.txBatches.getD i [] := by
    intro i
    rw [grownEq]
    split
    · exact getD_resize ..
    · rfl
  have grownFlatten : grown.flatten = batches.txBatches.flatten := by
    rw [grownEq]
    split
    · exact flatten_resize ..
    · rfl
  have pushed : (batches.push tx).txBatches =
      grown.modify (batches.accountTxCountMap tx.sourceAccount)
        (fun batch => batch ++ [tx]) := by
    rw [grownEq]
    rfl
  constructor
  · intro accountID
    show Function.update batches.accountTxCountMap tx.sourceAccount _
      accountID = _
    by_cases same : accountID = tx.sourceAccount
    · subst same
      rw [Function.update_self, counts, ofAccount_append,
        ofAccount_cons_of_eq rfl]
      simp
    · rw [Function.update_of_ne same, counts, ofAccount_append,
        ofAccount_cons_of_ne (Ne.symm same)]
      simp
  · intro accountID i
    rw [pushed, getD_modify inside, grownGetD]
    by_cases same : tx.sourceAccount = accountID
    · subst same
      rw [ofAccount_append, ofAccount_cons_of_eq rfl, ofAccount_nil]
      have full := counts tx.sourceAccount
      by_cases slot : i = batches.accountTxCountMap tx.sourceAccount
      · rw [if_pos slot, ofAccount_append, slots, slot, full,
          ofAccount_cons_of_eq rfl]
        simp
      · rw [if_neg slot, slots]
        rcases Nat.lt_or_gt_of_ne slot with earlier | later
        · rw [List.getElem?_append_left (by omega)]
        · rw [List.getElem?_eq_none (by omega),
            List.getElem?_eq_none (by simp; omega)]
    · have untouched : ofAccount accountID (done ++ [tx]) =
          ofAccount accountID done := by
        rw [ofAccount_append, ofAccount_cons_of_ne same]
        simp
      rw [untouched, ← slots]
      split
      · rw [ofAccount_append, ofAccount_cons_of_ne same]
        simp
      · rfl
  · rw [pushed]
    apply (flatten_modify inside tx).trans
    rw [grownFlatten]
    exact contents.append_right [tx]

theorem filled_foldl {batches : TxBatches} {done : List Transaction}
    (filled : batches.Filled done) (txs : List Transaction) :
    (txs.foldl TxBatches.push batches).Filled (done ++ txs) := by
  induction txs generalizing batches done with
  | nil => simpa using filled
  | cons tx txs ih =>
      have step := ih (filled_push filled tx)
      rwa [List.append_assoc] at step

/-! ## Concatenated batches -/

theorem flatMap_slots {batches : List (List Transaction)}
    {select : List Transaction → List Transaction}
    {txs : List Transaction}
    (slots : ∀ i, i < batches.length →
      select (batches.getD i []) = txs[i]?.toList) :
    batches.flatMap select = txs.take batches.length := by
  induction batches generalizing txs with
  | nil => simp
  | cons batch batches ih =>
      have head : select batch = txs[0]?.toList := slots 0 (by simp)
      have tail : batches.flatMap select =
          (txs.drop 1).take batches.length := by
        apply ih
        intro i inside
        have slot := slots (i + 1) (by simpa using inside)
        simpa [Nat.add_comm] using slot
      rw [List.flatMap_cons, head, tail]
      cases txs with
      | nil => simp
      | cons tx txs => simp

theorem flatMap_perm {batches : List (List Transaction)}
    {order : List Transaction → List Transaction}
    (permutes : ∀ batch, (order batch).Perm batch) :
    (batches.flatMap order).Perm batches.flatten := by
  induction batches with
  | nil => exact List.Perm.refl _
  | cons batch batches ih => exact (permutes batch).append ih

/-! ## The batches of a set -/

variable (sorter : Sorter) (set : TxSetFrame)

/-- The batches before they are sorted. -/
def setBatches : List (List Transaction) :=
  ((sorter.sort seqSorter set.transactions).foldl TxBatches.push
    TxBatches.start).txBatches

theorem ofAccount_setBatches (accountID : AccountID) (i : ℕ) :
    ofAccount accountID ((setBatches sorter set).getD i []) =
      (ofAccount accountID
        (sorter.sort seqSorter set.transactions))[i]?.toList := by
  have filled := filled_foldl filled_start
    (sorter.sort seqSorter set.transactions)
  rw [List.nil_append] at filled
  exact filled.slots accountID i

/-- The batches as they are applied. -/
def appliedBatches : List (List Transaction) :=
  (setBatches sorter set).map
    (sorter.sort (applyTxSorter set.contentsHash))

theorem sortForApply_eq_flatten :
    set.sortForApply sorter = (appliedBatches sorter set).flatten :=
  List.flatMap_def

theorem appliedBatches_getD (i : ℕ) :
    (appliedBatches sorter set).getD i [] =
      sorter.sort (applyTxSorter set.contentsHash)
        ((setBatches sorter set).getD i []) := by
  have empty : sorter.sort (applyTxSorter set.contentsHash) [] = [] :=
    (sorter.perm (applyTxSorter set.contentsHash) []).eq_nil
  unfold appliedBatches
  rw [List.getD_eq_getElem?_getD, List.getD_eq_getElem?_getD,
    List.getElem?_map]
  cases (setBatches sorter set)[i]? with
  | none => exact empty.symm
  | some batch => rfl

theorem ofAccount_batch (accountID : AccountID) (i : ℕ) :
    ofAccount accountID ((appliedBatches sorter set).getD i []) =
      (ofAccount accountID
        (sorter.sort seqSorter set.transactions))[i]?.toList := by
  have permuted := ofAccount_perm
    (sorter.perm (applyTxSorter set.contentsHash)
      ((setBatches sorter set).getD i [])) accountID
  rw [ofAccount_setBatches, ← appliedBatches_getD] at permuted
  -- one transaction at most is left where it is
  cases slot : (ofAccount accountID
      (sorter.sort seqSorter set.transactions))[i]? with
  | none =>
      rw [slot] at permuted
      exact permuted.eq_nil
  | some tx =>
      rw [slot] at permuted
      exact List.perm_singleton.mp permuted

theorem sortForApply_perm :
    (set.sortForApply sorter).Perm set.transactions := by
  have filled := filled_foldl filled_start
    (sorter.sort seqSorter set.transactions)
  apply (flatMap_perm (sorter.perm (applyTxSorter set.contentsHash))).trans
  apply filled.contents.trans
  exact sorter.perm seqSorter set.transactions

theorem ofAccount_sortForApply (accountID : AccountID) :
    ofAccount accountID (set.sortForApply sorter) =
      ofAccount accountID (sorter.sort seqSorter set.transactions) := by
  have slots := ofAccount_batch sorter set accountID
  have joined := flatMap_slots
    (fun i (_ : i < (appliedBatches sorter set).length) => slots i)
  have last := slots (appliedBatches sorter set).length
  rw [List.getD_eq_getElem?_getD, List.getElem?_eq_none le_rfl,
    Option.getD_none, ofAccount_nil] at last
  have room := List.getElem?_eq_none_iff.mp
    (Option.toList_eq_nil_iff.mp last.symm)
  rw [List.take_of_length_le room] at joined
  rw [sortForApply_eq_flatten, ← joined, List.flatMap_def, ofAccount,
    List.filter_flatten]
  rfl

end StellarCore.Herder
