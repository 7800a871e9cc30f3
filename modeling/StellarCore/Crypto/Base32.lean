import Mathlib.Tactic
import StellarCore.Lib.Digits

/-!
# Base 32

`basen.h` for groups of five bits.  Characters are bytes, and a `char` that is
shifted or masked is the number of its bit pattern.  The decoder goes on after
a character that it does not know; the encoder is proved right against it, and
texts without such characters are read in one way only.
-/

namespace StellarCore.Crypto

open StellarCore.Lib

/-! ## Characters -/

/-- The letters and the digits from 2 to 7. -/
def dictionary : List UInt8 :=
  [65, 66, 67, 68, 69, 70, 71, 72, 73, 74, 75, 76, 77, 78, 79, 80, 81, 82,
    83, 84, 85, 86, 87, 88, 89, 90, 50, 51, 52, 53, 54, 55]

def encodeChar (index : ℕ) : UInt8 :=
  dictionary.getD index 0

/-- `none` is the value -1 of the source. -/
def decodeChar (c : UInt8) : Option ℕ :=
  if 65 ≤ c ∧ c ≤ 90 then some (c.toNat - 65)
  else if 50 ≤ c ∧ c ≤ 55 then some (c.toNat - 50 + 26)
  else none

def isspace (c : UInt8) : Bool :=
  c = 32 || (9 ≤ c && c ≤ 13)

/-! ## Decoding -/

structure Decoding where
  out : List UInt8 := []
  buffer : ℕ := 0
  outputCurrentBit : ℕ := 0
  trailingEqual : ℕ := 0

/-- The value of a character goes into the buffer, and from there to the
output whenever a byte is complete. -/
def Decoding.take (d : Decoding) (value : ℕ) : Decoding :=
  let bitsInCurrentByte := min (d.outputCurrentBit + 5) 8 -
    d.outputCurrentBit
  if bitsInCurrentByte = 5 then
    let buffer := d.buffer |||
      ((value <<< (8 - d.outputCurrentBit - 5)) &&& 0xFF)
    let outputCurrentBit := d.outputCurrentBit + 5
    if outputCurrentBit = 8 then
      { d with
        out := d.out ++ [UInt8.ofNat buffer]
        buffer := 0
        outputCurrentBit := 0 }
    else
      { d with buffer, outputCurrentBit }
  else
    let bitsInNextByte := 5 - bitsInCurrentByte
    let buffer := d.buffer ||| (value >>> bitsInNextByte)
    { d with
      out := d.out ++ [UInt8.ofNat buffer]
      buffer := (value <<< (8 - bitsInNextByte)) &&& 0xFF
      outputCurrentBit := bitsInNextByte }

def decodeStep (d : Decoding) (c : UInt8) : Decoding :=
  if c = 61 then
    { d with trailingEqual := d.trailingEqual + 1 }
  else if isspace c then
    d
  else
    match decodeChar c with
    | none => d
    | some value => d.take value

def decodeB32 (v : List UInt8) : List UInt8 :=
  let d := v.foldl decodeStep {}
  if d.outputCurrentBit ≠ 0 ∧
      (d.trailingEqual * 5 + d.outputCurrentBit) &&& 7 ≠ 0 then
    d.out ++ [UInt8.ofNat d.buffer]
  else
    d.out

/-! ## Encoding -/

def extractPartialBits (value startBit bitsCount : ℕ) : ℕ :=
  (value >>> (8 - bitsCount - startBit)) &&& (2 ^ bitsCount - 1)

def extractOverlappingBits (previous next startBit bitsCount : ℕ) : ℕ :=
  let bitsCountInPrevious := 8 - startBit
  let bitsCountInNext := bitsCount - bitsCountInPrevious
  let t1 := (previous <<< bitsCountInNext) &&& 0xFF
  let t2 := (next >>> (8 - bitsCountInNext)) &&& (2 ^ bitsCountInNext - 1)
  (t1 ||| t2) &&& (2 ^ bitsCount - 1)

/-- The loop of `encode`, as the indices of its characters and its last
`start_bit`.  After a value that fits within the byte the next one does not,
so a turn of this loop takes a byte. -/
def encodeLoop : ℕ → List UInt8 → List ℕ × ℕ
  | startBit, [] => ([], startBit)
  | startBit, byte :: rest =>
      let next := (rest.headD 0).toNat
      if startBit + 5 < 8 then
        let first := extractPartialBits byte.toNat startBit 5
        let startBit := startBit + 5
        let second := extractOverlappingBits byte.toNat next startBit 5
        let later := encodeLoop ((startBit + 5) % 8) rest
        (first :: second :: later.1, later.2)
      else
        let only := extractOverlappingBits byte.toNat next startBit 5
        let later := encodeLoop ((startBit + 5) % 8) rest
        (only :: later.1, later.2)

/-- The loop that pads; seven turns are enough for every remainder. -/
def padding : ℕ → ℕ → List UInt8
  | 0, _ => []
  | turns + 1, startBit =>
      if startBit ≠ 0 then 61 :: padding turns ((startBit + 5) % 8) else []

def encodeB32 (v : List UInt8) : List UInt8 :=
  let encoded := encodeLoop 0 v
  encoded.1.map encodeChar ++ padding 7 encoded.2

def encodedSize32 (rawsize : ℕ) : ℕ :=
  (rawsize + 4) / 5 * 8

/-! ## The characters and their values -/

theorem decodeChar_encodeChar {index : ℕ} (small : index < 32) :
    decodeChar (encodeChar index) = some index := by
  have all : ∀ index : Fin 32,
      decodeChar (encodeChar index) = some index.val := by decide
  exact all ⟨index, small⟩

theorem encodeChar_ne {index : ℕ} (small : index < 32) :
    encodeChar index ≠ 61 ∧ isspace (encodeChar index) = false := by
  have all : ∀ index : Fin 32, encodeChar index ≠ 61 ∧
      isspace (encodeChar index) = false := by decide
  exact all ⟨index, small⟩

private theorem encodeChar_letter {c : UInt8} (letter : 65 ≤ c ∧ c ≤ 90) :
    c.toNat - 65 < 26 ∧ encodeChar (c.toNat - 65) = c := by
  have all : ∀ place : Fin 26,
      encodeChar place = UInt8.ofNat (65 + place) := by decide
  have low : 65 ≤ c.toNat := UInt8.le_iff_toNat_le.mp letter.1
  have high : c.toNat ≤ 90 := UInt8.le_iff_toNat_le.mp letter.2
  have small : c.toNat - 65 < 26 := by omega
  have byte : 65 + (c.toNat - 65) = c.toNat := by omega
  have here := all ⟨c.toNat - 65, small⟩
  simp only [byte, UInt8.ofNat_toNat] at here
  exact ⟨small, here⟩

private theorem encodeChar_digit {c : UInt8} (digit : 50 ≤ c ∧ c ≤ 55) :
    c.toNat - 50 < 6 ∧ encodeChar (c.toNat - 50 + 26) = c := by
  have all : ∀ place : Fin 6,
      encodeChar (place + 26) = UInt8.ofNat (50 + place) := by decide
  have low : 50 ≤ c.toNat := UInt8.le_iff_toNat_le.mp digit.1
  have high : c.toNat ≤ 55 := UInt8.le_iff_toNat_le.mp digit.2
  have small : c.toNat - 50 < 6 := by omega
  have byte : 50 + (c.toNat - 50) = c.toNat := by omega
  have here := all ⟨c.toNat - 50, small⟩
  simp only [byte, UInt8.ofNat_toNat] at here
  exact ⟨small, here⟩

theorem decodeChar_spec {c : UInt8} {value : ℕ}
    (decoded : decodeChar c = some value) :
    value < 32 ∧ encodeChar value = c := by
  unfold decodeChar at decoded
  split at decoded
  · rename_i letter
    obtain ⟨small, same⟩ := encodeChar_letter letter
    obtain rfl := Option.some.inj decoded
    exact ⟨by omega, same⟩
  · split at decoded
    · rename_i digit
      obtain ⟨small, same⟩ := encodeChar_digit digit
      obtain rfl := Option.some.inj decoded
      exact ⟨by omega, same⟩
    · cases decoded

/-- The values of the characters that the decoder knows. -/
def values (v : List UInt8) : List ℕ :=
  v.filterMap decodeChar

theorem values_lt (v : List UInt8) : ∀ value ∈ values v, value < 32 := by
  intro value member
  obtain ⟨c, _, decoded⟩ := List.mem_filterMap.mp member
  exact (decodeChar_spec decoded).1

/-! ## Reading bits -/

/-- The bytes that are complete, and the highest bits of the next one. -/
structure Reader where
  out : List ℕ
  bits : ℕ
  count : ℕ

def Reader.read (r : Reader) (value : ℕ) : Reader :=
  if r.count + 5 < 8 then
    { r with bits := 32 * r.bits + value, count := r.count + 5 }
  else
    { out := r.out ++
        [2 ^ (8 - r.count) * r.bits + value / 2 ^ (r.count - 3)]
      bits := value % 2 ^ (r.count - 3)
      count := r.count - 3 }

/-- The reader has read the values: they stand for the same number. -/
structure Reader.Holds (r : Reader) (read : List ℕ) : Prop where
  count : r.count < 8
  bits : r.bits < 2 ^ r.count
  bytes : ∀ byte ∈ r.out, byte < 256
  length : 8 * r.out.length + r.count = 5 * read.length
  value : number 256 r.out * 2 ^ r.count + r.bits = number 32 read

theorem Reader.Holds.read {r : Reader} {before : List ℕ} {value : ℕ}
    (holds : r.Holds before) (small : value < 32) :
    (r.read value).Holds (before ++ [value]) := by
  obtain ⟨out, bits, count⟩ := r
  obtain ⟨bound, low, bytes, length, same⟩ := holds
  simp only at bound low bytes length same
  unfold Reader.read
  split
  · rename_i fits
    simp only at fits
    refine ⟨fits, ?_, bytes, ?_, ?_⟩
    · simp only [Nat.pow_add]
      omega
    · simp only [List.length_append, List.length_singleton]
      omega
    · rw [number_append_singleton, ← same]
      ring
  · rename_i full
    simp only at full
    obtain ⟨next, rfl⟩ := Nat.exists_eq_add_of_le' (show 3 ≤ count by omega)
    have places : 8 - (next + 3) = 5 - next := by omega
    have split : 2 ^ (5 - next) * 2 ^ next = 32 := by
      rw [← Nat.pow_add, Nat.sub_add_cancel (by omega)]
    have positive := Nat.two_pow_pos next
    have quotient : value / 2 ^ next < 2 ^ (5 - next) := by
      rw [Nat.div_lt_iff_lt_mul positive, split]
      exact small
    have byte : 2 ^ (5 - next) * bits + value / 2 ^ next < 256 := by
      have room : 2 ^ (5 - next) * (bits + 1) ≤
          2 ^ (5 - next) * 2 ^ (next + 3) := Nat.mul_le_mul_left _ low
      rw [Nat.pow_add 2 next, ← Nat.mul_assoc, split, Nat.mul_add] at room
      omega
    simp only [Nat.add_sub_cancel, places]
    have fewer : next < 8 := by omega
    refine ⟨fewer, Nat.mod_lt _ positive, ?_, ?_, ?_⟩
    · intro one member
      rcases List.mem_append.mp member with older | last
      · exact bytes one older
      · rw [List.mem_singleton.mp last]
        exact byte
    · simp only [List.length_append, List.length_singleton]
      omega
    · have parts := Nat.div_add_mod value (2 ^ next)
      rw [number_append_singleton, number_append_singleton, ← same]
      calc
        (number 256 out * 256 +
              (2 ^ (5 - next) * bits + value / 2 ^ next)) * 2 ^ next +
            value % 2 ^ next =
            number 256 out * (2 ^ next * 8) * 32 +
              2 ^ (5 - next) * 2 ^ next * bits +
              (2 ^ next * (value / 2 ^ next) + value % 2 ^ next) := by
          ring
        _ = (number 256 out * 2 ^ (next + 3) + bits) * 32 + value := by
          rw [split, parts, Nat.pow_add]
          ring

def Reader.readAll (r : Reader) (read : List ℕ) : Reader :=
  read.foldl Reader.read r

theorem Reader.Holds.readAll {r : Reader} {before after : List ℕ}
    (holds : r.Holds before) (small : ∀ value ∈ after, value < 32) :
    (r.readAll after).Holds (before ++ after) := by
  induction after generalizing r before with
  | nil =>
      rw [List.append_nil]
      exact holds
  | cons value after ih =>
      have first := holds.read (small value List.mem_cons_self)
      have rest := ih first
        (fun other member => small other (List.mem_cons_of_mem _ member))
      rw [List.append_assoc, List.singleton_append] at rest
      exact rest

def Reader.start : Reader :=
  ⟨[], 0, 0⟩

theorem Reader.start_readAll {read : List ℕ}
    (small : ∀ value ∈ read, value < 32) :
    (Reader.start.readAll read).Holds read := by
  have holds : Reader.start.Holds [] :=
    ⟨by decide, by decide, by simp [start], rfl, rfl⟩
  exact holds.readAll small

/-! ## The decoder reads -/

/-- The buffer holds the bits at the top of a byte. -/
structure Reads (d : Decoding) (r : Reader) : Prop where
  out : d.out.map UInt8.toNat = r.out
  buffer : d.buffer = 2 ^ (8 - r.count) * r.bits
  count : d.outputCurrentBit = r.count

private theorem and_byte (n : ℕ) : n &&& 0xFF = n % 256 :=
  Nat.and_two_pow_sub_one_eq_mod n 8

private theorem shifted_low {value k : ℕ} (small : value < 32)
    (fits : k ≤ 3) : (value <<< k) &&& 0xFF = 2 ^ k * value := by
  have factor : 2 ^ k ≤ 2 ^ 3 := Nat.pow_le_pow_right (by norm_num) fits
  have byte : 2 ^ k * value < 256 :=
    (Nat.mul_le_mul_right value factor).trans_lt (by omega)
  rw [and_byte, Nat.shiftLeft_eq, Nat.mul_comm, Nat.mod_eq_of_lt byte]

private theorem shifted_high {n next : ℕ} (fits : next ≤ 8) :
    (n <<< (8 - next)) &&& 0xFF = 2 ^ (8 - next) * (n % 2 ^ next) := by
  have width : 256 = 2 ^ (8 - next) * 2 ^ next := by
    rw [← Nat.pow_add, Nat.sub_add_cancel fits]
  rw [and_byte, Nat.shiftLeft_eq, Nat.mul_comm, width,
    Nat.mul_mod_mul_left]

private theorem or_low {i high low : ℕ} (small : low < 2 ^ i) :
    2 ^ i * high ||| low = 2 ^ i * high + low :=
  (Nat.two_pow_add_eq_or_of_lt small high).symm

theorem Reads.take {d : Decoding} {r : Reader} {value : ℕ} {old : List ℕ}
    (reads : Reads d r) (holds : r.Holds old) (small : value < 32) :
    Reads (d.take value) (r.read value) ∧
      (d.take value).trailingEqual = d.trailingEqual := by
  obtain ⟨out, buffer, count, trailing⟩ := d
  obtain ⟨rout, bits, rcount⟩ := r
  obtain ⟨sameOut, sameBuffer, sameCount⟩ := reads
  simp only at sameOut sameBuffer sameCount
  subst sameOut sameBuffer sameCount
  have after := holds.read small
  obtain ⟨bound, low, _, _, _⟩ := holds
  simp only at bound low
  unfold Reader.read at after ⊢
  unfold Decoding.take
  rcases Nat.lt_trichotomy count 3 with less | rfl | more
  · -- the value stays within the byte
    obtain ⟨k, rest⟩ := Nat.exists_eq_add_of_lt less
    have fits : count + 5 < 8 := by omega
    have all : min (count + 5) 8 - count = 5 := by omega
    have unfinished : count + 5 ≠ 8 := by omega
    have left : 8 - (count + 5) = k + 1 := by omega
    have places : 8 - count = k + 1 + 5 := by omega
    have inside : 2 ^ (k + 1) * value < 2 ^ (k + 1 + 5) := by
      rw [Nat.pow_add 2 (k + 1)]
      exact Nat.mul_lt_mul_of_pos_left small (Nat.two_pow_pos _)
    simp only [all, unfinished, fits, if_true, if_false, places,
      Nat.add_sub_cancel, shifted_low small (show k + 1 ≤ 3 by omega),
      or_low inside]
    refine ⟨⟨rfl, ?_, rfl⟩, trivial⟩
    simp only [left]
    ring
  · -- the value ends with the byte
    have byte : 2 ^ 5 * bits + value < 256 := by omega
    have stored : (UInt8.ofNat (2 ^ 5 * bits + value)).toNat =
        2 ^ 5 * bits + value := by
      rw [UInt8.toNat_ofNat']
      exact Nat.mod_eq_of_lt byte
    have joined : 2 ^ 5 * bits ||| (value <<< 0) &&& 0xFF =
        2 ^ 5 * bits + value := by
      rw [shifted_low small (by omega), Nat.pow_zero, Nat.one_mul,
        or_low small]
    refine ⟨⟨?_, ?_, rfl⟩, rfl⟩
    · show (out ++ [UInt8.ofNat
        (2 ^ 5 * bits ||| (value <<< 0) &&& 0xFF)]).map UInt8.toNat =
          out.map UInt8.toNat ++ [2 ^ 5 * bits + value / 1]
      rw [joined, List.map_append, List.map_singleton, stored, Nat.div_one]
    · show 0 = 2 ^ 8 * (value % 1)
      rw [Nat.mod_one, Nat.mul_zero]
  · -- the value goes on in the next byte
    obtain ⟨next, rfl⟩ := Nat.exists_eq_add_of_le' more.le
    have notInside : ¬ next + 3 + 5 < 8 := by omega
    have places : 8 - (next + 3) = 5 - next := by omega
    have quotient : value / 2 ^ next < 2 ^ (5 - next) := by
      rw [Nat.div_lt_iff_lt_mul (Nat.two_pow_pos next), ← Nat.pow_add,
        Nat.sub_add_cancel (by omega)]
      exact small
    have byte : 2 ^ (5 - next) * bits + value / 2 ^ next < 256 := by
      apply after.bytes
      simp only [notInside, if_false, places, Nat.add_sub_cancel,
        List.mem_append, List.mem_singleton, or_true]
    have stored : (UInt8.ofNat
        (2 ^ (5 - next) * bits + value / 2 ^ next)).toNat =
          2 ^ (5 - next) * bits + value / 2 ^ next := by
      rw [UInt8.toNat_ofNat']
      exact Nat.mod_eq_of_lt byte
    have part : min (next + 3 + 5) 8 - (next + 3) = 5 - next := by omega
    have notAll : 5 - next ≠ 5 := by omega
    have rest : 5 - (5 - next) = next := by omega
    simp only [part, notAll, notInside, rest, places, if_false,
      Nat.add_sub_cancel, Nat.shiftRight_eq_div_pow, or_low quotient,
      shifted_high (show next ≤ 8 by omega)]
    refine ⟨⟨?_, rfl, rfl⟩, trivial⟩
    simp only [List.map_append, List.map_cons, List.map_nil, stored]

theorem decodeStep_known {d : Decoding} {c : UInt8} {value : ℕ}
    (known : decodeChar c = some value) : decodeStep d c = d.take value := by
  obtain ⟨small, rfl⟩ := decodeChar_spec known
  obtain ⟨notEqual, notSpace⟩ := encodeChar_ne small
  simp only [decodeStep, notEqual, notSpace, known, if_false,
    Bool.false_eq_true]

theorem decodeStep_unknown {d : Decoding} {c : UInt8}
    (unknown : decodeChar c = none) :
    decodeStep d c =
      { d with trailingEqual := d.trailingEqual + [c].count 61 } := by
  unfold decodeStep
  by_cases equal : c = 61
  · subst equal
    rfl
  · rw [if_neg equal, unknown, List.count_singleton]
    simp [equal]

theorem foldl_reads {d : Decoding} {r : Reader} {old : List ℕ}
    (reads : Reads d r) (holds : r.Holds old) (v : List UInt8) :
    Reads (v.foldl decodeStep d) (r.readAll (values v)) ∧
      (v.foldl decodeStep d).trailingEqual =
        d.trailingEqual + v.count 61 := by
  induction v generalizing d r old with
  | nil => exact ⟨reads, rfl⟩
  | cons c v ih =>
      rw [List.foldl_cons, values, List.filterMap_cons, List.count_cons]
      cases known : decodeChar c with
      | none =>
          obtain ⟨out, buffer, count⟩ := reads
          rw [decodeStep_unknown known]
          obtain ⟨same, equals⟩ :=
            ih (d := { d with trailingEqual :=
              d.trailingEqual + [c].count 61 })
              ⟨out, buffer, count⟩ holds
          refine ⟨same, ?_⟩
          rw [equals]
          show d.trailingEqual + [c].count 61 + v.count 61 = _
          rw [List.count_singleton]
          omega
      | some value =>
          obtain ⟨small, isChar⟩ := decodeChar_spec known
          obtain ⟨notEqual, _⟩ := encodeChar_ne small
          obtain ⟨taken, unchanged⟩ := reads.take holds small
          rw [decodeStep_known known]
          obtain ⟨same, equals⟩ := ih taken (holds.read small)
          refine ⟨same, ?_⟩
          rw [equals, unchanged, ← isChar]
          simp [notEqual]

/-- What the text decodes to, by the reader of its known characters. -/
theorem decodeB32_eq (v : List UInt8) :
    decodeB32 v =
      let r := Reader.start.readAll (values v)
      if r.count ≠ 0 ∧ (v.count 61 * 5 + r.count) % 8 ≠ 0 then
        (r.out ++ [2 ^ (8 - r.count) * r.bits]).map UInt8.ofNat
      else
        r.out.map UInt8.ofNat := by
  have begins : Reads {} Reader.start := ⟨rfl, rfl, rfl⟩
  have nothing : Reader.start.Holds [] :=
    ⟨by decide, by decide, by simp [Reader.start], rfl, rfl⟩
  obtain ⟨⟨out, buffer, count⟩, equals⟩ := foldl_reads begins nothing v
  have bytes : (Reader.start.readAll (values v)).out.map UInt8.ofNat =
      (v.foldl decodeStep {}).out := by
    rw [← out, List.map_map]
    simp [Function.comp_def]
  have remainder (n : ℕ) : n &&& 7 = n % 8 :=
    Nat.and_two_pow_sub_one_eq_mod n 3
  simp only [decodeB32, equals, Nat.zero_add, remainder, count, buffer,
    List.map_append, List.map_singleton, bytes]

/-! ## The encoder is read back -/

theorem extractPartialBits_eq (byte startBit : ℕ) :
    extractPartialBits byte startBit 5 = byte / 2 ^ (3 - startBit) % 32 := by
  rw [extractPartialBits, Nat.shiftRight_eq_div_pow]
  exact Nat.and_two_pow_sub_one_eq_mod _ 5

theorem extractOverlappingBits_eq {previous next k : ℕ} (few : k < 5)
    (byte : next < 256) :
    extractOverlappingBits previous next (k + 3) 5 =
      2 ^ k * (previous % 2 ^ (5 - k)) + next / 2 ^ (8 - k) := by
  have inNext : 5 - (8 - (k + 3)) = k := by omega
  have width : 2 ^ (8 - k) * 2 ^ k = 256 := by
    rw [← Nat.pow_add, Nat.sub_add_cancel (by omega)]
  have group : 32 = 2 ^ k * 2 ^ (5 - k) := by
    rw [← Nat.pow_add, Nat.add_sub_cancel' (by omega)]
  have divides : 2 ^ (5 - k) ∣ 2 ^ (8 - k) :=
    Nat.pow_dvd_pow 2 (by omega)
  have quotient : next / 2 ^ (8 - k) < 2 ^ k := by
    rw [Nat.div_lt_iff_lt_mul (Nat.two_pow_pos _), Nat.mul_comm, width]
    exact byte
  have high : (previous <<< k) &&& 0xFF =
      2 ^ k * (previous % 2 ^ (8 - k)) := by
    rw [and_byte, Nat.shiftLeft_eq, Nat.mul_comm, ← width,
      Nat.mul_comm (2 ^ (8 - k)), Nat.mul_mod_mul_left]
  have mask (n : ℕ) : n &&& (2 ^ 5 - 1) = n % 32 :=
    Nat.and_two_pow_sub_one_eq_mod n 5
  simp only [extractOverlappingBits, inNext, high, mask,
    Nat.shiftRight_eq_div_pow, Nat.and_two_pow_sub_one_eq_mod,
    Nat.mod_eq_of_lt quotient, or_low quotient]
  have lowest : (2 ^ k * (previous % 2 ^ (8 - k)) +
      next / 2 ^ (8 - k)) % 2 ^ k = next / 2 ^ (8 - k) := by
    rw [Nat.mul_add_mod, Nat.mod_eq_of_lt quotient]
  have upper : (2 ^ k * (previous % 2 ^ (8 - k)) +
      next / 2 ^ (8 - k)) / 2 ^ k = previous % 2 ^ (8 - k) := by
    rw [Nat.mul_add_div (Nat.two_pow_pos k), Nat.div_eq_of_lt quotient,
      Nat.add_zero]
  rw [group, Nat.mod_mul, lowest, upper, Nat.mod_mod_of_dvd _ divides,
    Nat.add_comm]

theorem extract_lt (n : ℕ) : n &&& (2 ^ 5 - 1) < 32 := by
  rw [Nat.and_two_pow_sub_one_eq_mod]
  exact Nat.mod_lt _ (by norm_num)

theorem encodeLoop_lt (startBit : ℕ) (v : List UInt8) :
    ∀ value ∈ (encodeLoop startBit v).1, value < 32 := by
  induction v generalizing startBit with
  | nil => intro value member; cases member
  | cons byte rest ih =>
      intro value member
      rw [encodeLoop] at member
      split at member
      · rcases List.mem_cons.mp member with rfl | member
        · exact extract_lt _
        · rcases List.mem_cons.mp member with rfl | later
          · exact extract_lt _
          · exact ih _ value later
      · rcases List.mem_cons.mp member with rfl | later
        · exact extract_lt _
        · exact ih _ value later

/-- A turn never ends with a whole group of the next byte taken. -/
theorem encodeLoop_few {startBit : ℕ} (few : startBit ≤ 4)
    (v : List UInt8) : (encodeLoop startBit v).2 ≤ 4 := by
  induction v generalizing startBit with
  | nil => exact few
  | cons byte rest ih =>
      rw [encodeLoop]
      split
      · exact ih (by omega)
      · exact ih (by omega)

/-- Reading a value that ends a byte, after the part of it before that. -/
private theorem read_overlapping {r : Reader} {byte next k : ℕ}
    (few : k < 5) (count : r.count = k + 3)
    (bits : r.bits = byte / 2 ^ (5 - k)) (small : next < 256) :
    r.read (extractOverlappingBits byte next (k + 3) 5) =
      ⟨r.out ++ [byte], next / 2 ^ (8 - k), k⟩ := by
  have full : ¬ k + 3 + 5 < 8 := by omega
  have places : 8 - (k + 3) = 5 - k := by omega
  have width : 2 ^ (8 - k) * 2 ^ k = 256 := by
    rw [← Nat.pow_add, Nat.sub_add_cancel (by omega)]
  have quotient : next / 2 ^ (8 - k) < 2 ^ k := by
    rw [Nat.div_lt_iff_lt_mul (Nat.two_pow_pos _), Nat.mul_comm, width]
    exact small
  rw [extractOverlappingBits_eq few small, Reader.read]
  simp only [count, full, if_false, places, bits, Nat.add_sub_cancel,
    Nat.mul_add_div (Nat.two_pow_pos k), Nat.div_eq_of_lt quotient,
    Nat.mul_add_mod, Nat.mod_eq_of_lt quotient, Nat.add_zero,
    Nat.div_add_mod]

private theorem read_partial {r : Reader} {byte startBit : ℕ}
    (low : startBit < 3) (count : r.count = startBit)
    (bits : r.bits = byte / 2 ^ (8 - startBit)) :
    r.read (extractPartialBits byte startBit 5) =
      ⟨r.out, byte / 2 ^ (3 - startBit), startBit + 5⟩ := by
  have fits : startBit + 5 < 8 := by omega
  have split : 2 ^ (8 - startBit) = 2 ^ (3 - startBit) * 32 := by
    rw [show 32 = 2 ^ 5 from rfl, ← Nat.pow_add]
    congr 1
    omega
  rw [extractPartialBits_eq, Reader.read]
  simp only [count, fits, if_true, bits, split, ← Nat.div_div_eq_div_mul,
    Nat.div_add_mod]

theorem readAll_encodeLoop {r : Reader} {startBit : ℕ}
    (few : startBit ≤ 4) (v : List UInt8) (count : r.count = startBit)
    (bits : r.bits = (v.headD 0).toNat / 2 ^ (8 - startBit)) :
    r.readAll (encodeLoop startBit v).1 =
      ⟨r.out ++ v.map UInt8.toNat, 0, (encodeLoop startBit v).2⟩ := by
  induction v generalizing r startBit with
  | nil =>
      obtain ⟨out, _, _⟩ := r
      simp only [List.headD_nil, UInt8.toNat_zero, Nat.zero_div] at bits
      simp only at count bits
      subst count bits
      simp [encodeLoop, Reader.readAll]
  | cons byte rest ih =>
      have byteLt := (rest.headD 0).toNat_lt
      rw [List.headD_cons] at bits
      rw [encodeLoop]
      split
      · rename_i fits
        have turn : (startBit + 5 + 5) % 8 = startBit + 2 := by omega
        have place : startBit + 5 = startBit + 2 + 3 := by omega
        have left : 3 - startBit = 5 - (startBit + 2) := by omega
        have later : startBit + 2 ≤ 4 := by omega
        have first := read_partial (by omega) count bits
        rw [left] at first
        simp only [Reader.readAll, List.foldl_cons, turn, place] at ih first ⊢
        rw [first, read_overlapping (by omega) rfl rfl byteLt,
          ih later rfl rfl]
        simp
      · rename_i full
        obtain ⟨k, rfl⟩ :=
          Nat.exists_eq_add_of_le' (show 3 ≤ startBit by omega)
        have turn : (k + 3 + 5) % 8 = k := by omega
        have left : 8 - (k + 3) = 5 - k := by omega
        have later : k ≤ 4 := by omega
        rw [left] at bits
        simp only [Reader.readAll, List.foldl_cons, turn] at ih ⊢
        rw [read_overlapping (by omega) count bits byteLt,
          ih later rfl rfl]
        simp

theorem start_readAll_encodeLoop (v : List UInt8) :
    Reader.start.readAll (encodeLoop 0 v).1 =
      ⟨v.map UInt8.toNat, 0, (encodeLoop 0 v).2⟩ := by
  have byte := (v.headD 0).toNat_lt
  have begins : Reader.start.bits = (v.headD 0).toNat / 2 ^ (8 - 0) :=
    (Nat.div_eq_of_lt byte).symm
  exact readAll_encodeLoop (Nat.zero_le 4) v rfl begins

/-! ## Round trips -/

private theorem padding_spec {last : ℕ} (few : last ≤ 4) :
    values (padding 7 last) = [] ∧
      ((padding 7 last).count 61 * 5 + last) % 8 = 0 := by
  have all : ∀ last : Fin 5, values (padding 7 last) = [] ∧
      ((padding 7 last).count 61 * 5 + last.val) % 8 = 0 := by decide
  exact all ⟨last, by omega⟩

private theorem values_map_encodeChar {indices : List ℕ}
    (small : ∀ index ∈ indices, index < 32) :
    values (indices.map encodeChar) = indices ∧
      (indices.map encodeChar).count 61 = 0 := by
  induction indices with
  | nil => exact ⟨rfl, rfl⟩
  | cons index indices ih =>
      have first := small index List.mem_cons_self
      obtain ⟨same, none⟩ := ih
        (fun other member => small other (List.mem_cons_of_mem _ member))
      have notEqual := (encodeChar_ne first).1
      rw [values] at same ⊢
      refine ⟨?_, ?_⟩
      · rw [List.map_cons, List.filterMap_cons, decodeChar_encodeChar first,
          same]
      · rw [List.map_cons, List.count_cons, none]
        simp [notEqual]

theorem values_encodeB32 (v : List UInt8) :
    values (encodeB32 v) = (encodeLoop 0 v).1 := by
  have few : (encodeLoop 0 v).2 ≤ 4 := encodeLoop_few (Nat.zero_le 4) v
  have chars := (values_map_encodeChar (encodeLoop_lt 0 v)).1
  have pads := (padding_spec few).1
  rw [values] at chars pads ⊢
  rw [encodeB32, List.filterMap_append, chars, pads, List.append_nil]

/-- What is encoded is decoded to the same bytes, with or without padding. -/
theorem decodeB32_encodeB32 (v : List UInt8) :
    decodeB32 (encodeB32 v) = v := by
  have few : (encodeLoop 0 v).2 ≤ 4 := encodeLoop_few (Nat.zero_le 4) v
  have equals : (encodeB32 v).count 61 =
      (padding 7 (encodeLoop 0 v).2).count 61 := by
    rw [encodeB32, List.count_append,
      (values_map_encodeChar (encodeLoop_lt 0 v)).2, Nat.zero_add]
  have complete := (padding_spec few).2
  rw [decodeB32_eq, values_encodeB32, equals, start_readAll_encodeLoop]
  simp [complete, Function.comp_def]

/-- Whole groups of five bytes need no padding. -/
theorem encodeLoop_groups {v : List UInt8} {groups : ℕ}
    (size : v.length = 5 * groups) :
    (encodeLoop 0 v).2 = 0 ∧ (encodeLoop 0 v).1.length = 8 * groups := by
  have few : (encodeLoop 0 v).2 ≤ 4 := encodeLoop_few (Nat.zero_le 4) v
  have holds := Reader.start_readAll (encodeLoop_lt 0 v)
  have length := holds.length
  rw [start_readAll_encodeLoop] at length
  simp only [List.length_map, size] at length
  omega

theorem encodeB32_groups {v : List UInt8} {groups : ℕ}
    (size : v.length = 5 * groups) :
    encodeB32 v = (encodeLoop 0 v).1.map encodeChar := by
  rw [encodeB32, (encodeLoop_groups size).1]
  exact List.append_nil _

theorem map_encodeChar_values {s : List UInt8}
    (known : ∀ c ∈ s, decodeChar c ≠ none) :
    (values s).map encodeChar = s := by
  induction s with
  | nil => rfl
  | cons c s ih =>
      have rest := ih
        (fun other member => known other (List.mem_cons_of_mem _ member))
      obtain ⟨value, decoded⟩ := Option.ne_none_iff_exists'.mp
        (known c List.mem_cons_self)
      rw [values] at rest ⊢
      rw [List.filterMap_cons, decoded, List.map_cons, rest,
        (decodeChar_spec decoded).2]

/-- A text of whole groups whose characters are all known is the only one
that is decoded to these bytes. -/
theorem encodeB32_decodeB32 {s : List UInt8} {groups : ℕ}
    (known : ∀ c ∈ s, decodeChar c ≠ none)
    (size : s.length = 8 * groups) :
    encodeB32 (decodeB32 s) = s := by
  have chars := map_encodeChar_values known
  have count : (values s).length = 8 * groups := by
    rw [← size, ← chars, List.length_map, chars]
  have holds := Reader.start_readAll (values_lt s)
  have decoded := decodeB32_eq s
  generalize Reader.start.readAll (values s) = r at holds decoded
  obtain ⟨out, bits, left⟩ := r
  obtain ⟨bound, low, bytes, length, value⟩ := holds
  simp only at bound low bytes length value decoded
  have none : left = 0 := by omega
  subst none
  have nothing : bits = 0 := by omega
  have whole : out.length = 5 * groups := by omega
  simp only [ne_eq, not_true_eq_false, false_and, if_false] at decoded
  have same : (decodeB32 s).map UInt8.toNat = out := by
    rw [decoded, List.map_map]
    calc
      out.map (UInt8.toNat ∘ UInt8.ofNat) = out.map id := by
        apply List.map_congr_left
        intro byte member
        rw [Function.comp_apply, UInt8.toNat_ofNat']
        exact Nat.mod_eq_of_lt (bytes byte member)
      _ = out := List.map_id out
  have decodedSize : (decodeB32 s).length = 5 * groups := by
    rw [decoded, List.length_map, whole]
  obtain ⟨last, encodedSize⟩ := encodeLoop_groups decodedSize
  have encoded := Reader.start_readAll (encodeLoop_lt 0 (decodeB32 s))
  have number := encoded.value
  rw [start_readAll_encodeLoop, same, last] at number
  rw [encodeB32_groups decodedSize, ← chars]
  congr 1
  rw [chars]
  apply number_injective (by norm_num : 1 < 32)
  · rw [encodedSize, count]
  · exact encodeLoop_lt 0 _
  · exact values_lt s
  · rw [← number, ← value, nothing]

end StellarCore.Crypto
