import StellarCore.Transactions.BigDivide
import StellarCore.Transactions.BookWalk
import StellarCore.Transactions.EntryOperationSteps

/-!
# Inflation deals out all coins

The winners have no more votes than there are coins, so that what is dealt
out is never more than the new coins and the fee pool together, and the rest
goes back to the pool.
-/

namespace StellarCore.Transactions

open StellarCore.Lib

/-! ## Numbers -/

theorem wrap64_fits {value : ℤ} (nonneg : 0 ≤ value)
    (most : value ≤ int64Max) : wrap64 value = value := by
  unfold int64Max at most
  unfold wrap64
  apply Int.bmod_eq_of_le
  · omega
  · omega

/-- The quotient of numbers of 64 bits that fits. -/
theorem bigDivide_down {a b c : ℤ} (left : 0 ≤ a ∧ a ≤ int64Max)
    (right : 0 ≤ b ∧ b ≤ int64Max) (divisor : 0 < c ∧ c ≤ int64Max)
    (fits : a * b / c ≤ int64Max) :
    bigDivide a b c .roundDown = .ok (a * b / c) := by
  obtain ⟨a, rfl⟩ := Int.eq_ofNat_of_zero_le left.1
  obtain ⟨b, rfl⟩ := Int.eq_ofNat_of_zero_le right.1
  obtain ⟨c, rfl⟩ := Int.eq_ofNat_of_zero_le divisor.1.le
  have positive : 0 < c := by exact_mod_cast divisor.1
  have product : a * b ≤ (2 ^ 63 - 1) * (2 ^ 63 - 1) := by
    apply Nat.mul_le_mul
    · have := left.2
      unfold int64Max at this
      omega
    · have := right.2
      unfold int64Max at this
      omega
  have small : a * b + c ≤ 2 ^ 128 := by
    have := divisor.2
    unfold int64Max at this
    omega
  have quotient : (Rounding.roundDown.quotient a b c : ℤ) =
      (a : ℤ) * b / c := by
    have floor : Rounding.roundDown.quotient a b c = a * b / c := by
      unfold Rounding.quotient
      have cast : (a * b : ℚ) / c = ((a * b : ℕ) : ℚ) / c := by push_cast; rfl
      rw [cast]
      exact Nat.floor_div_eq_div _ _
    rw [floor]
    push_cast
    rfl
  unfold bigDivide
  rw [bigDivide?_quotient .roundDown positive small, quotient, if_pos fits]
  rfl

/-! ## Votes -/

theorem votesOf_cons (a : AccountEntry) (rows : List AccountEntry)
    (inflationDest : AccountID) :
    votesOf (a :: rows) inflationDest =
      (if a.votesFor = some inflationDest then a.balance else 0) +
        votesOf rows inflationDest := by
  unfold votesOf
  by_cases chosen : a.votesFor = some inflationDest
  · simp [chosen]
  · simp [chosen]

theorem votesOf_nonneg {rows : List AccountEntry}
    (nonneg : ∀ a ∈ rows, 0 ≤ a.balance) (inflationDest : AccountID) :
    0 ≤ votesOf rows inflationDest := by
  apply List.sum_nonneg
  intro balance member
  obtain ⟨a, listed, rfl⟩ := List.mem_map.mp member
  exact nonneg a (List.mem_of_mem_filter listed)

/-- An account votes for one destination at most. -/
theorem sum_vote_le {vote : Option AccountID} {balance : ℤ}
    (nonneg : 0 ≤ balance) {dests : List AccountID} (nodup : dests.Nodup) :
    (dests.map (fun inflationDest =>
      if vote = some inflationDest then balance else 0)).sum ≤ balance := by
  induction dests with
  | nil => exact nonneg
  | cons inflationDest dests ih =>
      obtain ⟨absent, rest⟩ := List.nodup_cons.mp nodup
      rw [List.map_cons, List.sum_cons]
      by_cases chosen : vote = some inflationDest
      · have none : (dests.map (fun inflationDest =>
            if vote = some inflationDest then balance else 0)).sum = 0 := by
          apply List.sum_eq_zero
          intro amount member
          obtain ⟨other, listed, rfl⟩ := List.mem_map.mp member
          apply if_neg
          rintro same
          cases chosen.symm.trans same
          exact absent listed
        rw [if_pos chosen, none, add_zero]
      · rw [if_neg chosen, zero_add]
        exact ih rest

theorem sum_votesOf_le {rows : List AccountEntry}
    (nonneg : ∀ a ∈ rows, 0 ≤ a.balance) {dests : List AccountID}
    (nodup : dests.Nodup) :
    (dests.map (votesOf rows)).sum ≤
      (rows.map AccountEntry.balance).sum := by
  induction rows with
  | nil =>
      have none : dests.map (votesOf []) = dests.map (fun _ => 0) := rfl
      rw [none]
      simp
  | cons a rows ih =>
      have others : ∀ a ∈ rows, 0 ≤ a.balance :=
        fun a member => nonneg a (List.mem_cons_of_mem _ member)
      have split : dests.map (votesOf (a :: rows)) =
          dests.map (fun inflationDest =>
            (if a.votesFor = some inflationDest then a.balance else 0) +
              votesOf rows inflationDest) :=
        List.map_congr_left (fun inflationDest _ =>
          votesOf_cons a rows inflationDest)
      rw [split, List.sum_map_add, List.map_cons, List.sum_cons]
      exact add_le_add (sum_vote_le (nonneg a List.mem_cons_self) nodup)
        (ih others)

/-- The votes of the winners are balances of different accounts. -/
structure Elected (rows : List AccountEntry) (winners : List InflationVotes) :
    Prop where
  nonneg : ∀ w ∈ winners, 0 ≤ w.votes
  few : (winners.map InflationVotes.votes).sum ≤
    (rows.map AccountEntry.balance).sum

theorem elected_tally {rows : List AccountEntry}
    (nonneg : ∀ a ∈ rows, 0 ≤ a.balance) : Elected rows (tally rows) where
  nonneg w member := by
    obtain ⟨inflationDest, _, rfl⟩ := List.mem_map.mp member
    exact votesOf_nonneg nonneg inflationDest
  few := by
    unfold tally
    rw [List.map_map]
    exact sum_votesOf_le nonneg (List.nodup_dedup _)

theorem Elected.subperm {rows : List AccountEntry}
    {winners fewer : List InflationVotes} (elected : Elected rows winners)
    (less : List.Subperm fewer winners) : Elected rows fewer := by
  obtain ⟨same, perm, sublist⟩ := less
  have within : ∀ w ∈ same, 0 ≤ w.votes :=
    fun w member => elected.nonneg w (sublist.subset member)
  have fewerVotes : (same.map InflationVotes.votes).sum ≤
      (winners.map InflationVotes.votes).sum := by
    apply (sublist.map InflationVotes.votes).sum_le_sum
    intro votes member
    obtain ⟨w, listed, rfl⟩ := List.mem_map.mp member
    exact elected.nonneg w listed
  refine ⟨fun w member => within w (perm.mem_iff.mpr member), ?_⟩
  rw [← (perm.map InflationVotes.votes).sum_eq]
  exact fewerVotes.trans elected.few

theorem elected_winners {rows : List AccountEntry}
    (nonneg : ∀ a ∈ rows, 0 ≤ a.balance) (minBalance : ℤ) :
    Elected rows ((inflationVotes rows).takeWhile
      (fun votes => minBalance ≤ votes.votes)) := by
  refine (elected_tally nonneg).subperm ?_
  have prefixed := (List.takeWhile_prefix (l := inflationVotes rows)
    (p := fun votes => decide (minBalance ≤ votes.votes))).sublist.subperm
  have cut := (List.take_sublist inflationNumWinners
    ((tally rows).insertionSort
      (fun first second => first.precedes second))).subperm
  exact prefixed.trans (cut.trans (List.perm_insertionSort _ _).subperm)

/-- Without an account that may vote nobody is elected. -/
theorem inflationVotes_poor {rows : List AccountEntry}
    (poor : ∀ a ∈ rows, a.balance < 1000000000) :
    inflationVotes rows = [] := by
  have none : rows.filterMap AccountEntry.votesFor = [] := by
    rw [List.filterMap_eq_nil_iff]
    intro a member
    exact if_neg (not_le.mpr (poor a member))
  have empty : tally rows = [] := by
    unfold tally
    rw [none]
    rfl
  unfold inflationVotes
  rw [empty]
  rfl

/-! ## Doling out -/

section Doling

variable {start ledger : LedgerState} {amount totalVotes : ℤ}
  {dole : Dole} {winner : AccountEntry} {w : InflationVotes}
  {rest : List InflationVotes}

theorem countDealt_eq (version : ledger.header.ledgerVersion = 9) :
    countDealt amount ledger = .ok () ledger := by
  have header : getHeader ledger = .ok ledger.header ledger := rfl
  unfold countDealt
  rw [run_bind, header]
  simp only [version]
  rfl

def AccountEntry.paid (winner : AccountEntry) (amount : ℤ) : AccountEntry :=
  { winner with balance := winner.balance + amount }

theorem payWinner_ends (valid : ledger.Valid)
    (version : ledger.header.ledgerVersion = 9)
    (found : ledger.accounts.find? winner.accountID = some winner)
    (nonneg : 0 ≤ amount)
    (room : ledger.total .native + amount ≤ int64Max)
    (left : amount ≤ dole.leftAfterDole)
    (most : dole.leftAfterDole ≤ int64Max) :
    Ends (payWinner dole winner amount) ledger
      (fun next after =>
        next.leftAfterDole = dole.leftAfterDole - amount ∧
          after = ledger.putAccount (winner.paid amount))
      (fun _ _ => False) := by
  have stored := valid.accounts.found found
  have holds := (AccountEntry.isValid_iff.mp stored.valid).balance
  have part := valid.balance_le found
  have storable : (winner.paid amount).isValid = true :=
    AccountEntry.isValid_balance stored.valid (by omega)
  have present : ledger.accounts.contains
      (winner.paid amount).accountID = true :=
    Table.contains_eq_true.mpr ⟨winner, found⟩
  unfold payWinner
  rw [Ends.bind_iff]
  refine .of_run (countDealt_eq version) ?_
  rw [Ends.bind_iff]
  refine .of_run (AccountEntry.addBalance_fits holds (by omega)
    (by omega)) ?_
  simp only
  rw [Ends.bind_iff]
  refine .of_run (valid.storeChangeAccount storable present) ?_
  exact ⟨wrap64_fits (by omega) (by omega), rfl⟩

/-- What is dealt out, and that it fits in with all balances. -/
structure Dealing (start : LedgerState) (amount totalVotes : ℤ) : Prop where
  version : start.header.ledgerVersion = 9
  nonneg : 0 ≤ amount
  began : 0 ≤ start.total .native
  room : start.total .native + amount ≤ int64Max
  positive : 0 < totalVotes
  fits : totalVotes ≤ int64Max

/-- Between two turns of the loop: what was dealt out has come to accounts,
and there is enough left for the winners that follow. -/
structure Doling (start : LedgerState) (amount totalVotes : ℤ)
    (rest : List InflationVotes) (dole : Dole) (ledger : LedgerState) :
    Prop where
  valid : ledger.Valid
  header : ledger.header = start.header
  numbers : ∀ id a, ledger.accounts.find? id = some a →
    ∃ b, start.accounts.find? id = some b ∧ a.seqNum = b.seqNum
  dealt : ledger.total .native + dole.leftAfterDole =
    start.total .native + amount
  left : 0 ≤ dole.leftAfterDole
  votes : ∀ w ∈ rest, 0 ≤ w.votes ∧ w.votes ≤ int64Max
  enough : amount * (rest.map InflationVotes.votes).sum ≤
    dole.leftAfterDole * totalVotes

/-- The share of a winner, and that there is enough left without it. -/
theorem Doling.share (dealing : Dealing start amount totalVotes)
    (doling : Doling start amount totalVotes (w :: rest) dole ledger) :
    0 ≤ amount * w.votes / totalVotes ∧
      amount * w.votes / totalVotes ≤ dole.leftAfterDole ∧
      amount * (rest.map InflationVotes.votes).sum ≤
        (dole.leftAfterDole - amount * w.votes / totalVotes) *
          totalVotes := by
  have positive := dealing.positive
  have voted := (doling.votes w List.mem_cons_self).1
  have others : 0 ≤ amount * (rest.map InflationVotes.votes).sum := by
    refine mul_nonneg dealing.nonneg (List.sum_nonneg ?_)
    intro votes member
    obtain ⟨other, listed, rfl⟩ := List.mem_map.mp member
    exact (doling.votes other (List.mem_cons_of_mem _ listed)).1
  have rounded : amount * w.votes / totalVotes * totalVotes ≤
      amount * w.votes := Int.ediv_mul_le _ positive.ne'
  have enough := doling.enough
  rw [List.map_cons, List.sum_cons, mul_add] at enough
  refine ⟨Int.ediv_nonneg (mul_nonneg dealing.nonneg voted) positive.le,
    ?_, ?_⟩
  · exact le_of_mul_le_mul_right (by omega) positive
  · rw [sub_mul]
    omega

theorem Doling.skip (dealing : Dealing start amount totalVotes)
    (doling : Doling start amount totalVotes (w :: rest) dole ledger) :
    Doling start amount totalVotes rest dole ledger := by
  obtain ⟨nonneg, _, enough⟩ := doling.share dealing
  have given := mul_nonneg nonneg dealing.positive.le
  rw [sub_mul] at enough
  exact { doling with
    votes := fun other member =>
      doling.votes other (List.mem_cons_of_mem _ member)
    enough := by omega }

theorem Doling.pay {next : Dole} {share : ℤ}
    (doling : Doling start amount totalVotes (w :: rest) dole ledger)
    (found : ledger.accounts.find? winner.accountID = some winner)
    (nonneg : 0 ≤ share)
    (rests : next.leftAfterDole = dole.leftAfterDole - share)
    (affords : share ≤ dole.leftAfterDole)
    (enough : amount * (rest.map InflationVotes.votes).sum ≤
      (dole.leftAfterDole - share) * totalVotes)
    (most : winner.balance + share ≤ int64Max) :
    Doling start amount totalVotes rest next
      (ledger.putAccount (winner.paid share)) := by
  have stored := doling.valid.accounts.found found
  have counted := doling.valid.counted.found found
  have holds := (AccountEntry.isValid_iff.mp stored.valid).balance
  have row : ledger.accounts.find? (winner.paid share).accountID =
      some winner := found
  have moved : (ledger.putAccount (winner.paid share)).total .native =
      ledger.total .native - winner.balance + (winner.balance + share) :=
    LedgerState.total_putAccount row
  have dealt := doling.dealt
  refine ⟨?_, doling.header, ?_, ?_, ?_, ?_, ?_⟩
  · exact doling.valid.putAccount
      (AccountEntry.isValid_balance stored.valid (by omega)) most
      (fun _ _ => rfl) counted
  · intro id a present
    obtain ⟨b, old, same⟩ := numbers_putAccount row rfl id a present
    obtain ⟨c, first, equal⟩ := doling.numbers id b old
    exact ⟨c, first, same.trans equal⟩
  · rw [moved, rests]
    omega
  · rw [rests]
    omega
  · exact fun other member =>
      doling.votes other (List.mem_cons_of_mem _ member)
  · rw [rests]
    exact enough

theorem doleOut_ends (dealing : Dealing start amount totalVotes)
    (doling : Doling start amount totalVotes (w :: rest) dole ledger) :
    Ends (doleOut amount totalVotes dole w) ledger
      (fun next after => Doling start amount totalVotes rest next after)
      (fun _ _ => False) := by
  obtain ⟨nonneg, affords, enough⟩ := doling.share dealing
  have skipped := doling.skip dealing
  have valid := doling.valid
  have held := valid.total_nonneg
  have dealt := doling.dealt
  have left := doling.left
  have room := dealing.room
  have began := dealing.began
  have whole : amount ≤ int64Max := by omega
  have most : dole.leftAfterDole ≤ int64Max := by omega
  have version : ledger.header.ledgerVersion = 9 := by
    rw [doling.header]
    exact dealing.version
  unfold doleOut
  rw [Ends.bind_iff, ofExcept_ends,
    bigDivide_down ⟨dealing.nonneg, whole⟩ (doling.votes w List.mem_cons_self)
      ⟨dealing.positive, dealing.fits⟩ (affords.trans most)]
  generalize amount * w.votes / totalVotes = share at nonneg affords enough ⊢
  simp only
  rw [Ends.ite_iff]
  refine ⟨fun _ => skipped, fun _ => ?_⟩
  rw [Ends.bind_iff]
  refine .of_run (valid.loadAccount w.inflationDest) ?_
  cases found : ledger.accounts.find? w.inflationDest with
  | none => exact skipped
  | some winner =>
      have stored := valid.accounts.found found
      have row : ledger.accounts.find? winner.accountID = some winner := by
        rw [stored.keyed]
        exact found
      refine (payWinner_ends valid version row nonneg (by omega) affords
        most).mono ?_ (fun _ _ impossible => impossible)
      rintro next _ ⟨rests, rfl⟩
      have part := valid.balance_le row
      exact doling.pay row nonneg rests affords enough (by omega)

theorem doleOut_loop (dealing : Dealing start amount totalVotes)
    (winners : List InflationVotes)
    (doling : Doling start amount totalVotes winners dole ledger) :
    Ends (winners.foldlM (doleOut amount totalVotes) dole) ledger
      (fun next after => Doling start amount totalVotes [] next after)
      (fun _ _ => False) := by
  induction winners generalizing dole ledger with
  | nil => exact doling
  | cons w rest ih =>
      rw [List.foldlM_cons, Ends.bind_iff]
      exact (doleOut_ends dealing doling).mono (fun _ _ reached => ih reached)
        (fun _ _ impossible => impossible)

end Doling

/-! ## The operation -/

section Inflation

variable {ledger after : LedgerState}

theorem Elected.votes_le {rows : List AccountEntry}
    {winners : List InflationVotes} (elected : Elected rows winners) :
    ∀ w ∈ winners, 0 ≤ w.votes ∧
      w.votes ≤ (rows.map AccountEntry.balance).sum := by
  intro w member
  refine ⟨elected.nonneg w member, le_trans ?_ elected.few⟩
  refine List.single_le_sum ?_ _ (List.mem_map_of_mem member)
  intro votes listed
  obtain ⟨other, present, rfl⟩ := List.mem_map.mp listed
  exact elected.nonneg other present

/-- The rows of the accounts, whose balances are all coins but the pool. -/
theorem sum_balances (ledger : LedgerState) :
    ((ledger.accounts.rows.map Prod.snd).map AccountEntry.balance).sum =
      ledger.total .native := by
  rw [LedgerState.total, if_pos rfl, List.map_map]
  rfl

theorem balances_nonneg (valid : ledger.Valid) :
    ∀ a ∈ ledger.accounts.rows.map Prod.snd, 0 ≤ a.balance := by
  intro a member
  obtain ⟨row, listed, rfl⟩ := List.mem_map.mp member
  exact (AccountEntry.isValid_iff.mp
    (valid.accounts row listed).valid).balance

/-- The header after inflation, with what is left in the pool. -/
def LedgerHeader.inflate (header : LedgerHeader) (left : ℤ) : LedgerHeader :=
  { header with
    feePool := left
    totalCoins := inflated header.totalCoins
    inflationSeq := header.inflationSeq + 1 }

/-- What is dealt out: the new coins and the fee pool. -/
def LedgerHeader.toDole (header : LedgerHeader) : ℤ :=
  inflated header.totalCoins - header.totalCoins + header.feePool

theorem LedgerState.Running.coins_nonneg (running : ledger.Running) :
    0 ≤ ledger.header.totalCoins ∧
      ledger.total .native ≤ ledger.header.totalCoins := by
  have held := running.valid.total_nonneg
  have backed := running.backed
  have pool := running.pool
  unfold LedgerState.coins at backed
  omega

theorem LedgerState.Running.inflated_le (running : ledger.Running)
    (soon : ledger.header.inflationSeq ≤ 11000) :
    inflated ledger.header.totalCoins ≤
        coinsAfter (ledger.header.inflationSeq + 1) ∧
      inflated ledger.header.totalCoins ≤ int64Max := by
  have minted : inflated ledger.header.totalCoins ≤
      coinsAfter (ledger.header.inflationSeq + 1) := by
    rw [coinsAfter_succ]
    exact inflated_mono running.minted
  exact ⟨minted, minted.trans (coinsAfter_le (Nat.succ_le_succ soon))⟩

theorem applied_inflate {left : ℤ} (running : ledger.Running)
    (soon : ledger.header.inflationSeq ≤ 11000) (valid : after.Valid)
    (header : after.header = ledger.header.inflate left)
    (numbers : ∀ id a, after.accounts.find? id = some a →
      ∃ b, ledger.accounts.find? id = some b ∧ a.seqNum = b.seqNum)
    (pool : 0 ≤ left)
    (dealt : after.total .native + left =
      ledger.total .native + ledger.header.toDole) :
    Applied ledger after where
  running := by
    have most := running.inflated_le soon
    have backed := running.backed
    unfold LedgerState.coins at backed
    unfold LedgerHeader.toDole at dealt
    exact {
      valid
      pool := by
        rw [header]
        exact pool
      backed := by
        unfold LedgerState.coins
        rw [header]
        show after.total .native + left = inflated ledger.header.totalCoins
        omega
      most := by
        rw [header]
        exact most.2
      version := by
        rw [header]
        exact running.version
      numbers := by
        rw [header]
        exact running.numbers
      timely := by
        rw [header]
        exact running.timely
      paced := by
        rw [header]
        exact Nat.succ_le_succ soon
      minted := by
        rw [header]
        exact most.1 }
  fixed := by
    rw [header]
    rfl
  coins := by
    rw [header]
    exact ⟨1, rfl, rfl⟩
  numbers id a found := .inl (numbers id a found)

/-- The ledger in which the pool is dealt out. -/
def LedgerState.poured (ledger : LedgerState) : LedgerState :=
  { ledger with
    header :=
      { ledger.header with
        feePool := 0
        inflationSeq := (ledger.header.inflationSeq + 1) % 2 ^ 32 } }

theorem countMinted_eq {left : ℤ} (running : ledger.Running)
    (soon : ledger.header.inflationSeq ≤ 11000)
    (header : after.header = ledger.poured.header) (pool : 0 ≤ left)
    (small : left ≤ int64Max) :
    countMinted (inflated ledger.header.totalCoins -
        ledger.header.totalCoins) left after =
      .ok () { after with header := ledger.header.inflate left } := by
  obtain ⟨nonneg, _⟩ := running.coins_nonneg
  have minted := le_inflated nonneg
  have most := (running.inflated_le soon).2
  have added : ledger.header.totalCoins +
      (inflated ledger.header.totalCoins - ledger.header.totalCoins) =
        inflated ledger.header.totalCoins := by omega
  have seq : (ledger.header.inflationSeq + 1) % 2 ^ 32 =
      ledger.header.inflationSeq + 1 := Nat.mod_eq_of_lt (by omega)
  have newer : ledger.header.ledgerVersion > 7 := by
    rw [running.version]
    decide
  show EStateM.Result.ok () { after with header := _ } = _
  rw [header]
  unfold LedgerState.poured LedgerHeader.inflate
  simp only [zero_add, added, seq, if_pos newer, wrap64_fits pool small,
    wrap64_fits (nonneg.trans minted) most]

theorem poured_doling (running : ledger.Running) (minBalance : ℤ)
    (amount : 0 ≤ ledger.header.toDole) :
    Doling ledger.poured ledger.header.toDole ledger.header.totalCoins
      ((inflationVotes (ledger.accounts.rows.map Prod.snd)).takeWhile
        (fun votes => minBalance ≤ votes.votes))
      { leftAfterDole := ledger.header.toDole, payouts := [] }
      ledger.poured := by
  obtain ⟨nonneg, within⟩ := running.coins_nonneg
  have elected := elected_winners (balances_nonneg running.valid) minBalance
  have few := elected.few
  rw [sum_balances] at few
  have total := running.total_le
  refine ⟨running.valid.withHeader le_rfl running.valid.started
    running.valid.sequence, rfl, fun _ a found => ⟨a, found, rfl⟩, rfl, amount,
    ?_, mul_le_mul_of_nonneg_left (few.trans within) amount⟩
  intro w member
  obtain ⟨positive, least⟩ := elected.votes_le w member
  rw [sum_balances] at least
  exact ⟨positive, least.trans total⟩

theorem poured_loop (running : ledger.Running) (minBalance : ℤ)
    (amount : 0 ≤ ledger.header.toDole)
    (room : ledger.total .native + ledger.header.toDole ≤ int64Max) :
    Ends (((inflationVotes (ledger.accounts.rows.map Prod.snd)).takeWhile
        (fun votes => minBalance ≤ votes.votes)).foldlM
          (doleOut ledger.header.toDole ledger.header.totalCoins)
          { leftAfterDole := ledger.header.toDole, payouts := [] })
      ledger.poured
      (fun next after => Doling ledger.poured ledger.header.toDole
        ledger.header.totalCoins [] next after)
      (fun _ _ => False) := by
  obtain ⟨nonneg, within⟩ := running.coins_nonneg
  have doling := poured_doling running minBalance amount
  rcases nonneg.eq_or_lt with zero | positive
  · have poor : ∀ a ∈ ledger.accounts.rows.map Prod.snd,
        a.balance < 1000000000 := by
      intro a member
      have part : a.balance ≤ ledger.total .native := by
        rw [← sum_balances]
        refine List.single_le_sum ?_ _ (List.mem_map_of_mem member)
        intro balance listed
        obtain ⟨other, present, rfl⟩ := List.mem_map.mp listed
        exact balances_nonneg running.valid other present
      omega
    rw [inflationVotes_poor poor] at doling ⊢
    exact doling
  · have dealing : Dealing ledger.poured ledger.header.toDole
        ledger.header.totalCoins :=
      ⟨running.version, amount, running.valid.total_nonneg, room, positive,
        running.most⟩
    exact doleOut_loop dealing _ doling

theorem inflate_ends (running : ledger.Running)
    (soon : ledger.header.inflationSeq ≤ 11000) :
    Ends (inflate ledger.header) ledger
      (fun _ after => Applied ledger after) (fun _ _ => False) := by
  obtain ⟨nonneg, within⟩ := running.coins_nonneg
  have most := running.most
  have pool := running.pool
  have backed := running.backed
  unfold LedgerState.coins at backed
  have minted := running.inflated_le soon
  have grown : inflated ledger.header.totalCoins = ledger.header.totalCoins +
      ledger.header.totalCoins * inflationRateTrillionths / trillion := rfl
  have share : 0 ≤ ledger.header.totalCoins * inflationRateTrillionths /
      trillion :=
    Int.ediv_nonneg (mul_nonneg nonneg (by decide)) (by decide)
  have held := running.valid.total_nonneg
  have dole : ledger.header.totalCoins * inflationRateTrillionths /
      trillion + ledger.header.feePool = ledger.header.toDole := by
    unfold LedgerHeader.toDole
    omega
  have amount : 0 ≤ ledger.header.toDole := by omega
  have room : ledger.total .native + ledger.header.toDole ≤ int64Max := by
    omega
  have least : ledger.header.totalCoins * inflationWinMinPercent /
      trillion ≤ int64Max := by
    unfold inflationWinMinPercent trillion
    omega
  unfold inflate
  rw [Ends.bind_iff, ofExcept_ends,
    bigDivide_down ⟨nonneg, most⟩ (by decide) (by decide) least]
  simp only
  rw [Ends.bind_iff]
  refine .of_run rfl ?_
  rw [Ends.bind_iff, ofExcept_ends,
    bigDivide_down ⟨nonneg, most⟩ (by decide) (by decide) (by omega)]
  simp only
  rw [dole, wrap64_fits amount (by omega), Ends.bind_iff]
  refine .of_run rfl ?_
  rw [Ends.bind_iff]
  refine (poured_loop running _ amount room).mono ?_
    (fun _ _ impossible => impossible)
  intro next middle doling
  have dealt : middle.total .native + next.leftAfterDole =
      ledger.total .native + ledger.header.toDole := doling.dealt
  have rest := doling.valid.total_nonneg
  have new : ledger.header.totalCoins * inflationRateTrillionths / trillion =
      inflated ledger.header.totalCoins - ledger.header.totalCoins := by
    omega
  have idPool : middle.header.idPool ≤ ledger.header.idPool := by
    rw [doling.header]
    exact le_rfl
  rw [new, Ends.bind_iff]
  refine .of_run (countMinted_eq running soon doling.header doling.left
    (by omega)) ?_
  exact applied_inflate running soon
    (doling.valid.withHeader idPool running.valid.started
      running.valid.sequence) rfl doling.numbers doling.left dealt

/-- Inflation never fails: it is not its time, or the coins grow by the share
that all of them have together. -/
theorem inflationDoApply_ends (running : ledger.Running) :
    Ends inflationDoApply ledger (fun _ after => Applied ledger after)
      (fun _ _ => False) := by
  unfold inflationDoApply
  rw [Ends.bind_iff, getHeader_ends, Ends.ite_iff]
  refine ⟨fun _ => .refl running, fun due => inflate_ends running ?_⟩
  have timely := running.timely
  have paced := running.paced
  unfold horizon inflationStartTime inflationFrequency at timely
  unfold inflationTime inflationStartTime inflationFrequency at due
  have bound : int64Max = 2 ^ 63 - 1 := by decide
  rw [wrap64_fits (by omega) (by omega),
    wrap64_fits (by omega) (by omega)] at due
  omega

end Inflation

end StellarCore.Transactions
