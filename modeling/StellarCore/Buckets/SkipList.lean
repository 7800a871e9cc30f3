import Mathlib.Tactic

/-!
# The skip list

`BucketManagerImpl::calculateSkipValues`.  A header keeps the hashes of four
earlier bucket lists.  Each slot records one multiple of its period, and each
but the first takes its value over from the slot before it, later by the
period of that slot.
-/

namespace StellarCore.Buckets

/-! ## Records of multiples -/

/-- A multiple of the period that is recorded when ledger `n` is closed. -/
structure Recordable (period offset n m : ℕ) : Prop where
  positive : 0 < m
  multiple : period ∣ m
  recorded : m + offset ≤ n

def Latest (period offset n m : ℕ) : Prop :=
  IsGreatest {m | Recordable period offset n m} m

/-- Ledger `n` is the one in which a multiple is recorded. -/
def Due (period offset n : ℕ) : Prop :=
  offset < n ∧ period ∣ n - offset

instance (period offset n : ℕ) : Decidable (Due period offset n) :=
  inferInstanceAs (Decidable (_ ∧ _))

section Records

variable {η : Type} {hashes : ℕ → η} {initial value : η}
  {period offset n m : ℕ}

theorem Due.latest (due : Due period offset n) :
    Latest period offset n (n - offset) := by
  obtain ⟨later, multiple⟩ := due
  refine ⟨⟨Nat.sub_pos_of_lt later, multiple, by omega⟩, ?_⟩
  intro m recordable
  have recorded := recordable.recorded
  omega

theorem recordable_succ (notDue : ¬ Due period offset (n + 1)) :
    Recordable period offset (n + 1) m ↔ Recordable period offset n m := by
  constructor
  · rintro ⟨positive, multiple, recorded⟩
    refine ⟨positive, multiple, ?_⟩
    by_contra later
    have last : m = n + 1 - offset := by omega
    exact notDue ⟨by omega, last ▸ multiple⟩
  · rintro ⟨positive, multiple, recorded⟩
    exact ⟨positive, multiple, recorded.trans (Nat.le_succ n)⟩

/-- The value is the hash for the latest multiple, or the initial one as long
as there is none. -/
def Records (hashes : ℕ → η) (initial : η) (period offset n : ℕ)
    (value : η) : Prop :=
  (∃ m, Latest period offset n m ∧ value = hashes m) ∨
    ((∀ m, ¬ Recordable period offset n m) ∧ value = initial)

theorem Records.start (hashes : ℕ → η) (initial : η)
    (period offset : ℕ) : Records hashes initial period offset 0 initial := by
  refine .inr ⟨?_, rfl⟩
  rintro m ⟨positive, _, recorded⟩
  omega

theorem Records.keep (records : Records hashes initial period offset n value)
    (notDue : ¬ Due period offset (n + 1)) :
    Records hashes initial period offset (n + 1) value := by
  unfold Records Latest
  simp only [recordable_succ notDue]
  exact records

/-- A slot takes over what the slot before it recorded one of its periods
ago. -/
theorem Records.shift {longer : ℕ} {other : η} (positive : 0 < period)
    (nested : period ∣ longer)
    (due : Due longer (offset + period) (n + 1))
    (records : Records hashes initial period offset n value) :
    Records hashes other longer (offset + period) (n + 1) value := by
  have latest := due.latest
  have later := due.1
  have multiple := nested.trans due.2
  have last : Latest period offset n (n + 1 - (offset + period)) := by
    refine ⟨⟨latest.1.positive, multiple, by omega⟩, ?_⟩
    intro m recordable
    have recorded := recordable.recorded
    by_contra more
    have apart : period ∣ m - (n + 1 - (offset + period)) :=
      Nat.dvd_sub recordable.multiple multiple
    have less : m - (n + 1 - (offset + period)) < period := by omega
    have same := Nat.eq_zero_of_dvd_of_lt apart less
    omega
  obtain ⟨m, found, rfl⟩ | ⟨none, _⟩ := records
  · rw [found.unique last]
    exact .inl ⟨_, latest, rfl⟩
  · exact absurd last.1 (none _)

end Records

/-! ## The skip list of a header -/

def SKIP_1 : BitVec 32 := 50

def SKIP_2 : BitVec 32 := 5000

def SKIP_3 : BitVec 32 := 50000

def SKIP_4 : BitVec 32 := 500000

/-- What `calculateSkipValues` reads and writes of a `LedgerHeader`. -/
structure SkipHeader (η : Type) where
  ledgerSeq : BitVec 32
  bucketListHash : η
  skipList : Vector η 4
  deriving DecidableEq

variable {η : Type}

namespace SkipHeader

/-- The differences are unsigned, and signed as the variable `v`. -/
def dueFor (v period : BitVec 32) : Bool :=
  v.toInt > 0 && v.toInt.tmod period.toInt = 0

def calculateSkipValues (currentHeader : SkipHeader η) : SkipHeader η :=
  let ledgerSeq := currentHeader.ledgerSeq
  let old := currentHeader.skipList
  if ledgerSeq % SKIP_1 = 0 then
    let skipList :=
      if dueFor (ledgerSeq - SKIP_1) SKIP_2 then
        let skipList :=
          if dueFor (ledgerSeq - SKIP_2 - SKIP_1) SKIP_3 then
            let skipList :=
              if dueFor (ledgerSeq - SKIP_3 - SKIP_2 - SKIP_1) SKIP_4 then
                old.set 3 old[2]
              else
                old
            skipList.set 2 skipList[1]
          else
            old
        skipList.set 1 skipList[0]
      else
        old
    { currentHeader with
      skipList := skipList.set 0 currentHeader.bucketListHash }
  else
    currentHeader

theorem toInt_ofNat_small {n : ℕ} (small : n < 2 ^ 31) :
    (BitVec.ofNat 32 n).toInt = n := by
  rw [BitVec.toInt_ofNat', Int.bmod_eq_of_le (by omega) (by omega)]

theorem dueFor_iff {n k period : ℕ} (small : n < 2 ^ 31)
    (periodSmall : period < 2 ^ 31) :
    dueFor (BitVec.ofNat 32 (n - k)) (BitVec.ofNat 32 period) = true ↔
      Due period k n := by
  have difference := toInt_ofNat_small (n := n - k) (by omega)
  unfold dueFor Due
  rw [difference, toInt_ofNat_small periodSmall, Bool.and_eq_true,
    decide_eq_true_eq, decide_eq_true_eq, ← Int.ofNat_tmod,
    Int.natCast_eq_zero, Nat.dvd_iff_mod_eq_zero]
  exact and_congr_left' (by omega)

theorem sub_ofNat {n k : ℕ} (small : n < 2 ^ 32) (less : k ≤ n) :
    BitVec.ofNat 32 n - BitVec.ofNat 32 k = BitVec.ofNat 32 (n - k) := by
  apply BitVec.eq_of_toNat_eq
  simp only [BitVec.toNat_sub, BitVec.toNat_ofNat]
  omega

/-- Each slot is written exactly in the ledgers that are due for it. -/
theorem skipList_calculateSkipValues {n : ℕ} (positive : 0 < n)
    (small : n < 2 ^ 31) (bucketListHash : η) (old : Vector η 4) :
    (calculateSkipValues
      ⟨BitVec.ofNat 32 n, bucketListHash, old⟩).skipList =
      #v[if Due 50 0 n then bucketListHash else old[0],
        if Due 5000 50 n then old[0] else old[1],
        if Due 50000 5050 n then old[1] else old[2],
        if Due 500000 55050 n then old[2] else old[3]] := by
  have skip1 : SKIP_1 = BitVec.ofNat 32 50 := rfl
  have skip2 : SKIP_2 = BitVec.ofNat 32 5000 := rfl
  have skip3 : SKIP_3 = BitVec.ofNat 32 50000 := rfl
  have first : BitVec.ofNat 32 n % SKIP_1 = 0 ↔ Due 50 0 n := by
    have zero : (0 : BitVec 32).toNat = 0 := rfl
    have period : 50 % 2 ^ 32 = 50 := rfl
    have whole : n % 2 ^ 32 = n := Nat.mod_eq_of_lt (by omega)
    rw [skip1, ← BitVec.toNat_inj, BitVec.toNat_umod, BitVec.toNat_ofNat,
      BitVec.toNat_ofNat, zero, whole, period, Due, Nat.sub_zero,
      Nat.dvd_iff_mod_eq_zero]
    exact ⟨fun multiple => ⟨positive, multiple⟩, And.right⟩
  have second : 50 ≤ n → (dueFor (BitVec.ofNat 32 n - SKIP_1) SKIP_2 =
      true ↔ Due 5000 50 n) := by
    intro less
    rw [skip1, sub_ofNat (by omega) less]
    exact dueFor_iff small (by decide)
  have third : 5050 ≤ n → (dueFor (BitVec.ofNat 32 n - SKIP_2 - SKIP_1)
      SKIP_3 = true ↔ Due 50000 5050 n) := by
    intro less
    have less' : 5000 ≤ n := by omega
    rw [skip2, skip1, sub_ofNat (by omega) less',
      sub_ofNat (by omega) (by omega), Nat.sub_sub]
    exact dueFor_iff small (by decide)
  have fourth : 55050 ≤ n → (dueFor (BitVec.ofNat 32 n - SKIP_3 - SKIP_2 -
      SKIP_1) SKIP_4 = true ↔ Due 500000 55050 n) := by
    intro less
    have less' : 50000 ≤ n := by omega
    have less'' : 5000 ≤ n - 50000 := by omega
    rw [skip3, skip2, skip1, sub_ofNat (by omega) less',
      sub_ofNat (by omega) less'', sub_ofNat (by omega) (by omega),
      Nat.sub_sub, Nat.sub_sub]
    exact dueFor_iff small (by decide)
  by_cases a : Due 50 0 n
  case neg =>
    have b : ¬ Due 5000 50 n := by unfold Due at *; omega
    have c : ¬ Due 50000 5050 n := by unfold Due at *; omega
    have d : ¬ Due 500000 55050 n := by unfold Due at *; omega
    rw [if_neg a, if_neg b, if_neg c, if_neg d]
    simp only [calculateSkipValues, mt first.mp a, ↓reduceIte]
    ext i less
    interval_cases i
    all_goals rfl
  have least : 50 ≤ n := by unfold Due at a; omega
  by_cases b : Due 5000 50 n
  case neg =>
    have c : ¬ Due 50000 5050 n := by unfold Due at *; omega
    have d : ¬ Due 500000 55050 n := by unfold Due at *; omega
    rw [if_pos a, if_neg b, if_neg c, if_neg d]
    simp only [calculateSkipValues, first.mpr a, mt (second least).mp b,
      Bool.false_eq_true, ↓reduceIte]
    ext i less
    interval_cases i
    all_goals simp
  have more : 5050 ≤ n := by unfold Due at b; omega
  by_cases c : Due 50000 5050 n
  case neg =>
    have d : ¬ Due 500000 55050 n := by unfold Due at *; omega
    rw [if_pos a, if_pos b, if_neg c, if_neg d]
    simp only [calculateSkipValues, first.mpr a, (second least).mpr b,
      mt (third more).mp c, Bool.false_eq_true, ↓reduceIte]
    ext i less
    interval_cases i
    all_goals simp
  have most : 55050 ≤ n := by unfold Due at c; omega
  by_cases d : Due 500000 55050 n
  case neg =>
    rw [if_pos a, if_pos b, if_pos c, if_neg d]
    simp only [calculateSkipValues, first.mpr a, (second least).mpr b,
      (third more).mpr c, mt (fourth most).mp d, Bool.false_eq_true,
      ↓reduceIte]
    ext i less
    interval_cases i
    all_goals simp
  rw [if_pos a, if_pos b, if_pos c, if_pos d]
  simp only [calculateSkipValues, first.mpr a, (second least).mpr b,
    (third more).mpr c, (fourth most).mpr d, ↓reduceIte]
  ext i less
  interval_cases i
  all_goals simp

/-! ## Chains of headers -/

/-- Each header starts from the skip list of the one before it. -/
structure Chain (headers : ℕ → SkipHeader η) (n : ℕ) : Prop where
  next : ∀ i < n, ∃ bucketListHash, headers (i + 1) =
    calculateSkipValues
      ⟨BitVec.ofNat 32 (i + 1), bucketListHash, (headers i).skipList⟩

theorem bucketListHash_calculateSkipValues (header : SkipHeader η) :
    header.calculateSkipValues.bucketListHash = header.bucketListHash := by
  unfold calculateSkipValues
  simp only
  split
  · rfl
  · rfl

theorem Chain.shorter {headers : ℕ → SkipHeader η} {n : ℕ}
    (chain : Chain headers (n + 1)) : Chain headers n :=
  ⟨fun i less => chain.next i (less.trans (Nat.lt_succ_self n))⟩

/-- The four slots after ledger `n`. -/
structure Recorded (headers : ℕ → SkipHeader η) (n : ℕ) : Prop where
  first : Records (fun m => (headers m).bucketListHash)
    (headers 0).skipList[0] 50 0 n (headers n).skipList[0]
  second : Records (fun m => (headers m).bucketListHash)
    (headers 0).skipList[1] 5000 (0 + 50) n (headers n).skipList[1]
  third : Records (fun m => (headers m).bucketListHash)
    (headers 0).skipList[2] 50000 (0 + 50 + 5000) n (headers n).skipList[2]
  fourth : Records (fun m => (headers m).bucketListHash)
    (headers 0).skipList[3] 500000 (0 + 50 + 5000 + 50000) n
      (headers n).skipList[3]

theorem Recorded.step {headers : ℕ → SkipHeader η} {n : ℕ}
    (recorded : Recorded headers n) (small : n + 1 < 2 ^ 31)
    {bucketListHash : η}
    (next : headers (n + 1) = calculateSkipValues
      ⟨BitVec.ofNat 32 (n + 1), bucketListHash, (headers n).skipList⟩) :
    Recorded headers (n + 1) := by
  have slots := skipList_calculateSkipValues (Nat.succ_pos n) small
    bucketListHash (headers n).skipList
  have hash : bucketListHash = (headers (n + 1)).bucketListHash := by
    rw [next, bucketListHash_calculateSkipValues]
  rw [← next] at slots
  refine ⟨?_, ?_, ?_, ?_⟩
  · have slot : (headers (n + 1)).skipList[0] =
        if Due 50 0 (n + 1) then bucketListHash
        else (headers n).skipList[0] := by rw [slots]; rfl
    rw [slot]
    split
    case isTrue due => exact .inl ⟨_, due.latest, hash⟩
    case isFalse notDue => exact recorded.first.keep notDue
  · have slot : (headers (n + 1)).skipList[1] =
        if Due 5000 (0 + 50) (n + 1) then (headers n).skipList[0]
        else (headers n).skipList[1] := by rw [slots]; rfl
    rw [slot]
    split
    case isTrue due =>
        exact recorded.first.shift (by decide) (by decide) due
    case isFalse notDue => exact recorded.second.keep notDue
  · have slot : (headers (n + 1)).skipList[2] =
        if Due 50000 (0 + 50 + 5000) (n + 1) then (headers n).skipList[1]
        else (headers n).skipList[2] := by rw [slots]; rfl
    rw [slot]
    split
    case isTrue due =>
        exact recorded.second.shift (by decide) (by decide) due
    case isFalse notDue => exact recorded.third.keep notDue
  · have slot : (headers (n + 1)).skipList[3] =
        if Due 500000 (0 + 50 + 5000 + 50000) (n + 1) then
          (headers n).skipList[2]
        else (headers n).skipList[3] := by rw [slots]; rfl
    rw [slot]
    split
    case isTrue due =>
        exact recorded.third.shift (by decide) (by decide) due
    case isFalse notDue => exact recorded.fourth.keep notDue

theorem Chain.recorded {headers : ℕ → SkipHeader η} {n : ℕ}
    (chain : Chain headers n) (small : n < 2 ^ 31) : Recorded headers n := by
  induction n with
  | zero => exact ⟨.start _ _ _ _, .start _ _ _ _, .start _ _ _ _,
      .start _ _ _ _⟩
  | succ n ih =>
      obtain ⟨bucketListHash, next⟩ := chain.next n (Nat.lt_succ_self n)
      exact (ih chain.shorter (by omega)).step small next

end SkipHeader

/-- What the four slots hold after a chain of ledgers. -/
structure SkipListRecords (headers : ℕ → SkipHeader η) (n : ℕ) : Prop where
  first : Records (fun m => (headers m).bucketListHash)
    (headers 0).skipList[0] SKIP_1.toNat 0 n (headers n).skipList[0]
  second : Records (fun m => (headers m).bucketListHash)
    (headers 0).skipList[1] SKIP_2.toNat SKIP_1.toNat n
      (headers n).skipList[1]
  third : Records (fun m => (headers m).bucketListHash)
    (headers 0).skipList[2] SKIP_3.toNat (SKIP_2.toNat + SKIP_1.toNat) n
      (headers n).skipList[2]
  fourth : Records (fun m => (headers m).bucketListHash)
    (headers 0).skipList[3] SKIP_4.toNat
      (SKIP_3.toNat + SKIP_2.toNat + SKIP_1.toNat) n
      (headers n).skipList[3]

theorem skipList_records (headers : ℕ → SkipHeader η) (n : ℕ)
    (chain : SkipHeader.Chain headers n) (small : n ≤ 2 ^ 31 - 1) :
    SkipListRecords headers n := by
  have recorded := chain.recorded (by omega)
  exact ⟨recorded.first, recorded.second, recorded.third, recorded.fourth⟩

/-- Headers whose bucket lists hash to their numbers. -/
def numberedHeaders : ℕ → SkipHeader ℕ
  | 0 => ⟨0, 0, #v[0, 0, 0, 0]⟩
  | n + 1 => SkipHeader.calculateSkipValues
      ⟨BitVec.ofNat 32 (n + 1), n + 1, (numberedHeaders n).skipList⟩

theorem skipList_records_numbered : SkipListRecords numberedHeaders 55050 :=
  skipList_records numberedHeaders 55050 ⟨fun _ _ => ⟨_, rfl⟩⟩ (by decide)

end StellarCore.Buckets
