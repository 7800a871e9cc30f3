import Mathlib.Tactic

/-!
# Enumerators of bitsets

`BitsetEnumerator.cpp`.  An enumerator is a state; `operator++` and `reset`
give the next one.  The enumerators that a product works on are copies: they
are reset whenever they are selected, and nothing looks at them in between.
The assertion of `PermutationEnumerator::operator*`, that its number of bits
is the one asked for, is left to a proof.
-/

namespace StellarCore.Quorum

/-- `std::bitset<64>`. -/
abbrev Bitset := BitVec 64

inductive Enumerator where
  | constant (mBits : Bitset) (mDone : Bool)
  | permutation (mCur : UInt64) (mSet mTot : ℕ)
  | powerset (mCur mLim : UInt64)
  | product (mInnerEnums : List Enumerator)
  | selection (mInnerEnums : List Enumerator) (mIndexEnum : Enumerator)
      (mProduct : List Enumerator)

/-- The loop that shifts a bit in, `nSet` times. -/
def lowestBits : ℕ → UInt64 → UInt64
  | 0, mCur => mCur
  | nSet + 1, mCur => lowestBits nSet ((mCur <<< 1) ||| 1)

def uneg (n : UInt64) : UInt64 := ~~~n + 1

def nextPermutation (mCur : UInt64) : UInt64 :=
  let t := (mCur ||| (mCur - 1)) + 1
  t ||| ((((t &&& uneg t) / (mCur &&& uneg mCur)) >>> 1) - 1)

namespace Enumerator

/-- `ConstantEnumerator::bitNumber`; the bit number is below 64. -/
def bitNumber (n : ℕ) : Option Enumerator := do
  guard (n < 64)
  return constant (BitVec.ofNat 64 (2 ^ n)) false

def newPermutation (nSet nTotal : ℕ) : Option Enumerator := do
  guard (nSet ≤ nTotal)
  guard (0 < nSet ∧ nSet ≤ 64)
  guard (0 < nTotal ∧ nTotal ≤ 64)
  return permutation (lowestBits nSet 0) nSet nTotal

def newPowerset (nBits : ℕ) : Option Enumerator := do
  guard (nBits < 64)
  return powerset 1 (1 <<< UInt64.ofNat nBits)

mutual

/-- `operator bool`. -/
def isLive : Enumerator → Bool
  | constant _ mDone => !mDone
  | permutation mCur _ mTot =>
      (mCur &&& ~~~((1 <<< UInt64.ofNat mTot) - 1)) == 0
  | powerset mCur mLim => decide (mCur < mLim)
  | product mInnerEnums => anyLive mInnerEnums
  | selection _ mIndexEnum mProduct =>
      anyLive mProduct || isLive mIndexEnum

def anyLive : List Enumerator → Bool
  | [] => false
  | e :: enums => isLive e || anyLive enums

end

mutual

/-- `operator*`. -/
def value : Enumerator → Bitset
  | constant mBits _ => mBits
  | permutation mCur _ _ => mCur.toBitVec
  | powerset mCur _ => mCur.toBitVec
  | product mInnerEnums => valueAll mInnerEnums
  | selection _ _ mProduct => valueAll mProduct

def valueAll : List Enumerator → Bitset
  | [] => 0
  | e :: enums => value e ||| valueAll enums

end

mutual

def reset : Enumerator → Enumerator
  | constant mBits _ => constant mBits false
  | permutation _ mSet mTot => permutation (lowestBits mSet 0) mSet mTot
  | powerset _ mLim => powerset 1 mLim
  | product mInnerEnums => product (resetAll mInnerEnums)
  | selection mInnerEnums mIndexEnum _ =>
      selection mInnerEnums (reset mIndexEnum)
        (select (value (reset mIndexEnum)) mInnerEnums)

def resetAll : List Enumerator → List Enumerator
  | [] => []
  | e :: enums => reset e :: resetAll enums

/-- The product over the enumerators at the places of the bits. -/
def select : Bitset → List Enumerator → List Enumerator
  | _, [] => []
  | bits, e :: innerEnums =>
      if bits.getLsbD 0 then reset e :: select (bits >>> 1) innerEnums
      else select (bits >>> 1) innerEnums

end

mutual

/-- `operator++`. -/
def next : Enumerator → Enumerator
  | constant mBits _ => constant mBits true
  | permutation mCur mSet mTot =>
      permutation (nextPermutation mCur) mSet mTot
  | powerset mCur mLim => powerset (mCur + 1) mLim
  | product mInnerEnums => product (nextAll mInnerEnums)
  | selection mInnerEnums mIndexEnum mProduct =>
      let mProduct := if anyLive mProduct then nextAll mProduct else mProduct
      if anyLive mProduct then selection mInnerEnums mIndexEnum mProduct
      else
        let mIndexEnum := next mIndexEnum
        if isLive mIndexEnum then
          selection mInnerEnums mIndexEnum
            (select (value mIndexEnum) mInnerEnums)
        else selection mInnerEnums mIndexEnum mProduct

/-- `CartesianProductEnumerator::operator++`, from some place on.  After a
carry only the enumerator that started it is reset, and after a carry that
failed the rest of the loop passes over exhausted enumerators. -/
def nextAll : List Enumerator → List Enumerator
  | [] => []
  | curr :: enums =>
      if !isLive curr then curr :: nextAll enums
      else
        let curr := next curr
        if isLive curr then curr :: enums
        else
          match carry enums with
          | (enums, true) => reset curr :: enums
          | (enums, false) => curr :: enums

/-- The inner loop: advance until one remains live. -/
def carry : List Enumerator → List Enumerator × Bool
  | [] => ([], false)
  | curr :: enums =>
      let curr := next curr
      if isLive curr then (curr :: enums, true)
      else (curr :: (carry enums).1, (carry enums).2)

end

def newProduct (innerEnums : List Enumerator) : Enumerator :=
  product (resetAll innerEnums)

def newSelection (index : Enumerator) (innerEnums : List Enumerator) :
    Enumerator :=
  selection (resetAll innerEnums) index (select (value index) innerEnums)

end Enumerator

end StellarCore.Quorum
