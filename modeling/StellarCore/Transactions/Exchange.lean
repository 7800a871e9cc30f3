import StellarCore.Transactions.EntryRules

/-!
# Exchange arithmetic

How much of an offer is taken, as `exchangeV2` and `exchangeV3` compute it.
The divisions are made in 128 bits and their results are cut off at the
largest 64-bit integer; both functions are shown equal to the same formulas
over unbounded integers.
-/

namespace StellarCore.Transactions

open StellarCore.Lib

inductive Rounding where
  | roundDown
  | roundUp
  deriving DecidableEq

def Rounding.divide128 (rounding : Rounding) (a b c : ℕ) : ℕ :=
  match rounding with
  | .roundDown => a * b % 2 ^ 128 / c
  | .roundUp => (a * b + c - 1) % 2 ^ 128 / c

/-- `bigDivide` for unsigned integers: the quotient as a 64-bit integer, and
whether it is one. -/
def bigDivideUnsigned (a b c : ℕ) (rounding : Rounding) : ℕ × Bool :=
  let x := rounding.divide128 a b c
  (x % 2 ^ 64, x ≤ 2 ^ 64 - 1)

/-- `bigDivide` with a result by reference, `none` where it returns false. -/
def bigDivide? (a b c : ℤ) (rounding : Rounding) :
    Except Failure (Option ℤ) :=
  if 0 ≤ a ∧ 0 ≤ b ∧ 0 < c then
    let (r2, res) := bigDivideUnsigned a.toNat b.toNat c.toNat rounding
    .ok (if res && r2 ≤ int64Max then some r2 else none)
  else
    .error .assertion

def bigDivide (a b c : ℤ) (rounding : Rounding) : Except Failure ℤ := do
  match ← bigDivide? a b c rounding with
  | some res => return res
  | none =>
      throw (.runtimeError "overflow while performing bigDivide")

inductive ExchangeResultType where
  | normal
  | reducedToZero
  | bogus
  deriving DecidableEq

structure ExchangeResult where
  numWheatReceived : ℤ
  numSheepSend : ℤ
  reduced : Bool
  deriving DecidableEq

def ExchangeResult.type (result : ExchangeResult) : ExchangeResultType :=
  if result.numWheatReceived ≠ 0 ∧ result.numSheepSend ≠ 0 then
    .normal
  else if result.reduced then
    .reducedToZero
  else
    .bogus

def exchangeV2 (wheatReceived : ℤ) (price : Price)
    (maxWheatReceive maxSheepSend : ℤ) : Except Failure ExchangeResult := do
  let reduced := decide (wheatReceived > maxWheatReceive)
  let wheatReceived := min wheatReceived maxWheatReceive
  let numSheepSend :=
    (← bigDivide? wheatReceived price.n price.d .roundDown).getD int64Max
  let reduced := reduced || numSheepSend > maxSheepSend
  let numSheepSend := min numSheepSend maxSheepSend
  let numWheatReceived ← bigDivide numSheepSend price.d price.n .roundDown
  return { numWheatReceived, numSheepSend, reduced }

def exchangeV3 (wheatReceived : ℤ) (price : Price)
    (maxWheatReceive maxSheepSend : ℤ) : Except Failure ExchangeResult := do
  let reduced := decide (wheatReceived > maxWheatReceive)
  let numWheatReceived := min wheatReceived maxWheatReceive
  let divided ← bigDivide? numWheatReceived price.n price.d .roundUp
  let reduced := reduced || divided.isNone
  let numSheepSend := divided.getD int64Max
  let reduced := reduced || numSheepSend > maxSheepSend
  let numSheepSend := min numSheepSend maxSheepSend
  let newWheatReceived :=
    (← bigDivide? numSheepSend price.d price.n .roundDown).getD int64Max
  let numWheatReceived := min numWheatReceived newWheatReceived
  return { numWheatReceived, numSheepSend, reduced }

/-! ## Quotients -/

def Rounding.divide (rounding : Rounding) (x c : ℤ) : ℤ :=
  match rounding with
  | .roundDown => x / c
  | .roundUp => (x + c - 1) / c

theorem lt_divide_roundUp_iff {k x c : ℤ} (positive : 0 < c) :
    k < Rounding.divide .roundUp x c ↔ k * c < x := by
  unfold Rounding.divide
  rw [Int.lt_iff_add_one_le, Int.le_ediv_iff_mul_le positive, add_mul]
  omega

theorem divide_roundUp_le_iff {k x c : ℤ} (positive : 0 < c) :
    Rounding.divide .roundUp x c ≤ k ↔ x ≤ k * c := by
  rw [← not_lt, lt_divide_roundUp_iff positive, not_lt]

theorem divide_nonneg {rounding : Rounding} {x c : ℤ} (product : 0 ≤ x)
    (positive : 0 < c) : 0 ≤ rounding.divide x c := by
  cases rounding with
  | roundDown => exact Int.ediv_nonneg product positive.le
  | roundUp => exact Int.ediv_nonneg (by omega) positive.le

theorem divide128_eq {a b c : ℕ} (rounding : Rounding) (positive : 0 < c)
    (small : a * b + c ≤ 2 ^ 128) :
    (rounding.divide128 a b c : ℤ) = rounding.divide (a * b : ℤ) c := by
  cases rounding with
  | roundDown =>
      unfold Rounding.divide128 Rounding.divide
      rw [Nat.mod_eq_of_lt (by omega)]
      push_cast
      rfl
  | roundUp =>
      have fits : a * b + c - 1 < 2 ^ 128 := by omega
      unfold Rounding.divide128 Rounding.divide
      simp only [Nat.mod_eq_of_lt fits]
      push_cast [Nat.cast_sub (show 1 ≤ a * b + c by omega)]
      rfl

theorem signed_quotient (x : ℕ) :
    (if decide (x ≤ 2 ^ 64 - 1) && decide (((x % 2 ^ 64 : ℕ) : ℤ) ≤ int64Max)
      then some ((x % 2 ^ 64 : ℕ) : ℤ) else none) =
      if (x : ℤ) ≤ int64Max then some (x : ℤ) else none := by
  by_cases most : x ≤ 2 ^ 64 - 1
  · have less : x < 2 ^ 64 := by omega
    simp only [Nat.mod_eq_of_lt less, decide_eq_true most, Bool.true_and,
      decide_eq_true_eq]
  · have wide : ¬ (x : ℤ) ≤ int64Max := by
      unfold int64Max
      omega
    rw [if_neg wide, decide_eq_false most, Bool.false_and]
    rfl

/-- The quotient is exact where it fits into 64 bits. -/
theorem bigDivide?_eq {a b c : ℤ} {rounding : Rounding}
    (amount : 0 ≤ a ∧ a ≤ int64Max) (factor : 0 ≤ b ∧ b ≤ int32Max)
    (divisor : 0 < c ∧ c ≤ int32Max) :
    bigDivide? a b c rounding =
      .ok (if rounding.divide (a * b) c ≤ int64Max then
        some (rounding.divide (a * b) c)
      else none) := by
  obtain ⟨a, rfl⟩ := Int.eq_ofNat_of_zero_le amount.1
  obtain ⟨b, rfl⟩ := Int.eq_ofNat_of_zero_le factor.1
  obtain ⟨c, rfl⟩ := Int.eq_ofNat_of_zero_le divisor.1.le
  have positive : 0 < c := by exact_mod_cast divisor.1
  have product : a * b ≤ (2 ^ 63 - 1) * (2 ^ 31 - 1) := by
    apply Nat.mul_le_mul
    · have := amount.2
      unfold int64Max at this
      omega
    · have := factor.2
      unfold int32Max at this
      omega
  have small : c ≤ 2 ^ 31 - 1 := by
    have := divisor.2
    unfold int32Max at this
    omega
  rw [← divide128_eq rounding positive (by omega)]
  unfold bigDivide? bigDivideUnsigned
  rw [if_pos ⟨amount.1, factor.1, divisor.1⟩]
  simp only [Int.toNat_natCast]
  exact congrArg Except.ok (signed_quotient _)

/-! ## The formulas -/

/-- A price as an offer may have it: two positive 32-bit integers. -/
structure Price.Positive (price : Price) : Prop where
  n : 0 < price.n ∧ price.n ≤ int32Max
  d : 0 < price.d ∧ price.d ≤ int32Max

/-- The amounts that `exchangeV2` and `exchangeV3` are given. -/
structure ExchangeInput (wheat : ℤ) (price : Price)
    (maxWheat maxSheep : ℤ) : Prop where
  wheat : 0 ≤ wheat ∧ wheat ≤ int64Max
  price : price.Positive
  maxWheat : 0 < maxWheat ∧ maxWheat ≤ int64Max
  maxSheep : 0 < maxSheep ∧ maxSheep ≤ int64Max

/-- A quotient that is cut off at the largest integer, then at a bound. -/
def cutOff (q : ℤ) : Option ℤ :=
  if q ≤ int64Max then some q else none

theorem min_cutOff {q bound : ℤ} (small : bound ≤ int64Max) :
    min ((cutOff q).getD int64Max) bound = min q bound := by
  unfold cutOff
  split
  · rfl
  · simp only [Option.getD_none]
    omega

/-- What the buyer pays for `wheat`, if the price is rounded up or down. -/
def Price.cost (price : Price) (rounding : Rounding) (wheat : ℤ) : ℤ :=
  rounding.divide (wheat * price.n) price.d

/-- What `sheep` buys. -/
def Price.worth (price : Price) (sheep : ℤ) : ℤ :=
  sheep * price.d / price.n

variable {wheat maxWheat maxSheep : ℤ} {price : Price}

theorem Price.Positive.bigDivide?_cost (positive : price.Positive)
    (rounding : Rounding) (amount : 0 ≤ wheat ∧ wheat ≤ int64Max) :
    bigDivide? wheat price.n price.d rounding =
      .ok (cutOff (price.cost rounding wheat)) :=
  bigDivide?_eq amount ⟨positive.n.1.le, positive.n.2⟩ positive.d

theorem Price.Positive.bigDivide?_worth {sheep : ℤ} (positive : price.Positive)
    (amount : 0 ≤ sheep ∧ sheep ≤ int64Max) :
    bigDivide? sheep price.d price.n .roundDown =
      .ok (cutOff (price.worth sheep)) :=
  bigDivide?_eq amount ⟨positive.d.1.le, positive.d.2⟩ positive.n

theorem Price.Positive.cost_nonneg (positive : price.Positive)
    (rounding : Rounding) (amount : 0 ≤ wheat) :
    0 ≤ price.cost rounding wheat :=
  divide_nonneg (mul_nonneg amount positive.n.1.le) positive.d.1

theorem Price.Positive.worth_nonneg {sheep : ℤ} (positive : price.Positive)
    (amount : 0 ≤ sheep) : 0 ≤ price.worth sheep :=
  Int.ediv_nonneg (mul_nonneg amount positive.d.1.le) positive.n.1.le

theorem Price.Positive.le_worth_iff {sheep : ℤ} (positive : price.Positive) :
    wheat ≤ price.worth sheep ↔ wheat * price.n ≤ sheep * price.d :=
  Int.le_ediv_iff_mul_le positive.n.1

theorem Price.Positive.lt_cost_iff {sheep : ℤ} (positive : price.Positive) :
    sheep < price.cost .roundUp wheat ↔ sheep * price.d < wheat * price.n :=
  lt_divide_roundUp_iff positive.d.1

/-- What `exchangeV3` computes where nothing is cut off. -/
def exactExchange (rounding : Rounding) (wheat : ℤ) (price : Price)
    (maxWheat maxSheep : ℤ) : ExchangeResult :=
  let most := min wheat maxWheat
  let sheep := min (price.cost rounding most) maxSheep
  { numWheatReceived := min most (price.worth sheep)
    numSheepSend := sheep
    reduced := wheat > maxWheat || price.cost rounding most > maxSheep }

theorem ExchangeInput.most
    (input : ExchangeInput wheat price maxWheat maxSheep) :
    0 ≤ min wheat maxWheat ∧ min wheat maxWheat ≤ int64Max := by
  have := input.wheat
  have := input.maxWheat
  omega

theorem ExchangeInput.sheep
    (input : ExchangeInput wheat price maxWheat maxSheep)
    (rounding : Rounding) :
    0 ≤ min (price.cost rounding (min wheat maxWheat)) maxSheep ∧
      min (price.cost rounding (min wheat maxWheat)) maxSheep ≤ int64Max := by
  have := input.price.cost_nonneg rounding input.most.1
  have := input.maxSheep
  omega

theorem ExchangeInput.exceeds
    (input : ExchangeInput wheat price maxWheat maxSheep) (q : ℤ) :
    ((cutOff q).isNone || decide ((cutOff q).getD int64Max > maxSheep)) =
      decide (q > maxSheep) := by
  have := input.maxSheep
  unfold cutOff
  by_cases fits : q ≤ int64Max
  · simp [fits]
  · have more : q > maxSheep := by omega
    simp [fits, more]

theorem exchangeV3_eq (input : ExchangeInput wheat price maxWheat maxSheep) :
    exchangeV3 wheat price maxWheat maxSheep =
      .ok (exactExchange .roundUp wheat price maxWheat maxSheep) := by
  have small : min wheat maxWheat ≤ int64Max := input.most.2
  unfold exchangeV3 exactExchange
  simp only [input.price.bigDivide?_cost .roundUp input.most,
    bind, Except.bind, min_cutOff input.maxSheep.2,
    input.price.bigDivide?_worth (input.sheep .roundUp), Bool.or_assoc,
    input.exceeds, min_comm (min wheat maxWheat) (Option.getD _ _),
    min_cutOff small, min_comm (min wheat maxWheat) (price.worth _)]
  rfl

theorem Price.Positive.worth_cost_le (positive : price.Positive) {sheep : ℤ}
    (affordable : sheep ≤ price.cost .roundDown wheat) :
    price.worth sheep ≤ wheat := by
  have paid : sheep * price.d ≤ wheat * price.n :=
    (Int.le_ediv_iff_mul_le positive.d.1).mp affordable
  exact Int.ediv_le_of_le_mul positive.n.1 paid

/-- The flag compares the sheep after it is cut off. -/
theorem exchangeV2_eq (input : ExchangeInput wheat price maxWheat maxSheep) :
    exchangeV2 wheat price maxWheat maxSheep =
      .ok { exactExchange .roundDown wheat price maxWheat maxSheep with
        reduced := wheat > maxWheat ||
          (cutOff (price.cost .roundDown (min wheat maxWheat))).getD int64Max >
            maxSheep } := by
  have less : price.worth
      (min (price.cost .roundDown (min wheat maxWheat)) maxSheep) ≤
        min wheat maxWheat :=
    input.price.worth_cost_le (min_le_left _ _)
  have fits := less.trans input.most.2
  have divided := input.price.bigDivide?_worth (input.sheep .roundDown)
  rw [cutOff, if_pos fits] at divided
  unfold exchangeV2 exactExchange bigDivide
  simp only [input.price.bigDivide?_cost .roundDown input.most, bind,
    Except.bind, min_cutOff input.maxSheep.2, divided, min_eq_right less]
  rfl

/-- What the two sides of an exchange may rely on. -/
structure FairExchange (wheat : ℤ) (price : Price) (maxWheat maxSheep : ℤ)
    (result : ExchangeResult) : Prop where
  wheatReceived : 0 ≤ result.numWheatReceived ∧
    result.numWheatReceived ≤ min wheat maxWheat
  sheepSend : 0 ≤ result.numSheepSend ∧ result.numSheepSend ≤ maxSheep
  seller : result.numWheatReceived * price.n ≤ result.numSheepSend * price.d

theorem exactExchange_fair (rounding : Rounding)
    (input : ExchangeInput wheat price maxWheat maxSheep) :
    FairExchange wheat price maxWheat maxSheep
      (exactExchange rounding wheat price maxWheat maxSheep) := by
  have paid := input.sheep rounding
  refine ⟨⟨?_, min_le_left _ _⟩, ⟨paid.1, min_le_right _ _⟩, ?_⟩
  · exact le_min input.most.1 (input.price.worth_nonneg paid.1)
  · exact input.price.le_worth_iff.mp (min_le_right _ _)

/-- Either the buyer gets all that it asks for and pays for less than a unit
of sheep too much, or it pays all that it may and less than a unit of wheat is
kept back. -/
theorem exactExchange_cases
    (input : ExchangeInput wheat price maxWheat maxSheep) :
    let most := min wheat maxWheat
    let result := exactExchange .roundUp wheat price maxWheat maxSheep
    (price.cost .roundUp most ≤ maxSheep ∧ result.numWheatReceived = most ∧
      result.numSheepSend * price.d < most * price.n + price.d) ∨
    (maxSheep < price.cost .roundUp most ∧ result.numWheatReceived < most ∧
      result.numSheepSend * price.d <
        result.numWheatReceived * price.n + price.n) := by
  intro most result
  by_cases affordable : price.cost .roundUp most ≤ maxSheep
  · left
    have sheep : result.numSheepSend = price.cost .roundUp most :=
      min_eq_left affordable
    have enough : most * price.n ≤ result.numSheepSend * price.d :=
      (divide_roundUp_le_iff input.price.d.1).mp sheep.ge
    refine ⟨affordable, min_eq_left (input.price.le_worth_iff.mpr enough), ?_⟩
    have before : (result.numSheepSend - 1) * price.d < most * price.n :=
      input.price.lt_cost_iff.mp (by omega)
    rw [sub_mul] at before
    omega
  · right
    rw [not_le] at affordable
    have sheep : result.numSheepSend = maxSheep :=
      min_eq_right affordable.le
    have short : result.numSheepSend * price.d < most * price.n := by
      rw [sheep]
      exact input.price.lt_cost_iff.mp affordable
    have less : price.worth result.numSheepSend < most := by
      rw [← not_le, input.price.le_worth_iff, not_le]
      exact short
    have received : result.numWheatReceived =
        price.worth result.numSheepSend :=
      min_eq_right less.le
    refine ⟨affordable, received ▸ less, ?_⟩
    rw [received]
    have next : result.numSheepSend * price.d <
        (price.worth result.numSheepSend + 1) * price.n :=
      Int.lt_ediv_add_one_mul_self _ input.price.n.1
    rw [add_mul, one_mul] at next
    exact next

/-- Neither version fails on amounts it can be given, and both favour the
seller; `exchangeV3` does so by less than one unit and reports exactly when
less than the whole amount changes hands. -/
theorem exchange_fair (wheat : ℤ) (price : Price) (maxWheat maxSheep : ℤ)
    (input : ExchangeInput wheat price maxWheat maxSheep) :
    (∃ result, exchangeV3 wheat price maxWheat maxSheep = .ok result ∧
      FairExchange wheat price maxWheat maxSheep result ∧
      result.numSheepSend * price.d - result.numWheatReceived * price.n <
        max price.n price.d ∧
      (result.reduced = true ↔ result.numWheatReceived < wheat)) ∧
    ∃ result, exchangeV2 wheat price maxWheat maxSheep = .ok result ∧
      FairExchange wheat price maxWheat maxSheep result := by
  refine ⟨⟨_, exchangeV3_eq input, exactExchange_fair .roundUp input, ?_, ?_⟩,
    _, exchangeV2_eq input, ?_⟩
  · obtain ⟨_, received, excess⟩ | ⟨_, _, excess⟩ := exactExchange_cases input
    · rw [received]
      omega
    · omega
  · have flag : (exactExchange .roundUp wheat price maxWheat
        maxSheep).reduced = true ↔ wheat > maxWheat ∨
          price.cost .roundUp (min wheat maxWheat) > maxSheep := by
      simp [exactExchange]
    rw [flag]
    obtain ⟨affordable, received, _⟩ | ⟨exceeds, less, _⟩ :=
      exactExchange_cases input
    · rw [received]
      omega
    · omega
  · obtain ⟨received, sent, seller⟩ := exactExchange_fair .roundDown input
    exact ⟨received, sent, seller⟩

/-- A price of 3 for 2: two units of wheat cost three sheep, and one that is
left over is not enough for another. -/
theorem exchange_fair_thirds :
    ExchangeInput 10 ⟨3, 2⟩ 10 4 ∧
      exchangeV3 10 ⟨3, 2⟩ 10 4 = .ok ⟨2, 4, true⟩ ∧
      FairExchange 10 ⟨3, 2⟩ 10 4 ⟨2, 4, true⟩ := by
  have input : ExchangeInput 10 ⟨3, 2⟩ 10 4 :=
    ⟨by decide, ⟨by decide, by decide⟩, by decide, by decide⟩
  obtain ⟨⟨result, computed, fair, _⟩, _⟩ := exchange_fair 10 ⟨3, 2⟩ 10 4 input
  have value : exchangeV3 10 ⟨3, 2⟩ 10 4 = .ok ⟨2, 4, true⟩ := by
    decide +kernel
  rw [value] at computed
  cases computed
  exact ⟨input, value, fair⟩

end StellarCore.Transactions
