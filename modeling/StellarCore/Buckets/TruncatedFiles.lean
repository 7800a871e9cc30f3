import StellarCore.Buckets.XDRStream

/-!
# Whole and truncated files of records

What a reader makes of every prefix of a file that `writeOne` has written.
-/

namespace StellarCore.Buckets

open StellarCore.Lib

variable {T : Type} (codec : XdrCodec T)

/-- A record in a file. -/
def frame (t : T) : List UInt8 :=
  sizeBytes (UInt32.ofNat (codec.size t)) ++ codec.put t

def frames (records : List T) : List UInt8 :=
  records.flatMap (frame codec)

/-- Where the first `k` records end. -/
def frameEnd (records : List T) (k : ℕ) : ℕ :=
  ((records.take k).map (fun record => codec.size record + 4)).sum

/-- The size limit of a stream lets the record through. -/
def Fits (sizeLimit : UInt32) (record : T) : Prop :=
  sizeLimit = 0 ∨ codec.size record ≤ sizeLimit.toNat

instance (sizeLimit : UInt32) (record : T) :
    Decidable (Fits codec sizeLimit record) :=
  inferInstanceAs (Decidable (_ ∨ _))

/-- What a reader makes of the first `count` bytes of a file. -/
def outcome (sizeLimit : UInt32) :
    List T → ℕ → Except StreamFailure (List T)
  | [], _ => .ok []
  | record :: records, count =>
      if count < 4 then .ok []
      else if ¬ Fits codec sizeLimit record then .ok []
      else if count < codec.size record + 4 then
        .error (.xdrRuntimeError "malformed XDR file")
      else
        (outcome sizeLimit records (count - (codec.size record + 4))).map
          (fun outs => record :: outs)

/-! ## Sizes -/

section Sizes

variable {codec}

/-- The bit that is set in the first byte is the one that is cleared. -/
private theorem clear_set {byte : UInt8} (small : byte.toNat < 2 ^ 7) :
    (byte ||| 0x80) &&& 0x7F = byte := by
  apply UInt8.toNat_inj.mp
  have mask : (0x7F : UInt8).toNat = 2 ^ 7 - 1 := rfl
  have bit : (0x80 : UInt8).toNat % 2 ^ 7 = 0 := rfl
  rw [UInt8.toNat_and, UInt8.toNat_or, mask, Nat.and_two_pow_sub_one_eq_mod,
    Nat.or_mod_two_pow, bit, Nat.or_zero, Nat.mod_eq_of_lt small]

theorem sizeOf_sizeBytes {sz : UInt32} (small : sz.toNat < 2 ^ 31) :
    sizeOf (sizeBytes sz) = sz := by
  have byte3 := toNat_byte sz (by decide : (24 : UInt32).toNat < 32)
  have byte2 := toNat_byte sz (by decide : (16 : UInt32).toNat < 32)
  have byte1 := toNat_byte sz (by decide : (8 : UInt32).toNat < 32)
  have byte0 : (sz &&& 0xFF).toUInt8.toNat = sz.toNat % 256 := by
    rw [UInt32.toNat_toUInt8, UInt32.toNat_and]
    exact (congrArg (· % 2 ^ 8)
      (Nat.and_two_pow_sub_one_eq_mod sz.toNat 8)).trans (Nat.mod_mod _ _)
  have places : (24 : UInt32).toNat = 24 ∧ (16 : UInt32).toNat = 16 ∧
      (8 : UInt32).toNat = 8 := ⟨rfl, rfl, rfl⟩
  rw [places.1] at byte3
  rw [places.2.1] at byte2
  rw [places.2.2] at byte1
  simp only [sizeOf, sizeBytes, List.getD_cons_zero, List.getD_cons_succ]
  rw [clear_set (by omega)]
  apply UInt32.toNat_inj.mp
  generalize ((sz >>> 24) &&& 0xFF).toUInt8 = b3 at byte3 ⊢
  generalize ((sz >>> 16) &&& 0xFF).toUInt8 = b2 at byte2 ⊢
  generalize ((sz >>> 8) &&& 0xFF).toUInt8 = b1 at byte1 ⊢
  generalize (sz &&& 0xFF).toUInt8 = b0 at byte0 ⊢
  have high : b3.toUInt32.toNat = b3.toNat := UInt8.toNat_toUInt32 b3
  have two : (b3.toUInt32 <<< 8 ||| b2.toUInt32).toNat =
      b3.toNat * 256 + b2.toNat := by
    rw [toNat_shift_or b2 (by omega), high]
  have three := toNat_shift_or b1
    (by omega : (b3.toUInt32 <<< 8 ||| b2.toUInt32).toNat < 2 ^ 24)
  rw [toNat_shift_or b0 (by omega), three, two]
  omega

theorem toNat_size {t : T} (small : codec.size t < 2 ^ 31) :
    (UInt32.ofNat (codec.size t)).toNat = codec.size t := by
  rw [UInt32.toNat_ofNat']
  exact Nat.mod_eq_of_lt (by omega)

theorem length_frame (t : T) :
    (frame codec t).length = codec.size t + 4 := by
  simp only [frame, sizeBytes, List.length_append, List.length_cons,
    List.length_nil, XdrCodec.size]
  omega

theorem frameEnd_succ (record : T) (records : List T) (k : ℕ) :
    frameEnd codec (record :: records) (k + 1) =
      codec.size record + 4 + frameEnd codec records k := by
  simp [frameEnd]

/-- A prefix that is longer than the first part goes on in the second. -/
theorem prefix_append {part first second : List UInt8}
    (isPrefix : part <+: first ++ second)
    (long : first.length ≤ part.length) :
    ∃ rest, part = first ++ rest ∧ rest <+: second := by
  have whole : first <+: part :=
    List.prefix_of_prefix_length_le (List.prefix_append first second)
      isPrefix long
  obtain ⟨rest, rfl⟩ := whole
  exact ⟨rest, rfl, (List.prefix_append_right_inj first).mp isPrefix⟩

end Sizes

/-! ## Writing -/

theorem Tally.add_nil (tally : Tally) : tally.add [] = tally := by
  simp [Tally.add]

theorem Tally.add_append (tally : Tally) (first second : List UInt8) :
    tally.add (first ++ second) = (tally.add first).add second := by
  simp [Tally.add, Function.comp_def, List.append_assoc, Nat.add_assoc]

namespace XDROutputFileStream

variable {codec}

theorem writeOne_spec {t : T} {s : XDROutputFileStream} (tally : Tally)
    (small : codec.size t < 2 ^ 31) (good : s.good = true) :
    ∃ mBuf, writeOne codec t tally s =
      .ok (true, tally.add (frame codec t),
        { s with mOut := s.mOut ++ frame codec t, mBuf }) := by
  have size := toNat_size small
  have fits : UInt32.ofNat (codec.size t) < 0x80000000 := by
    rw [UInt32.lt_iff_toNat_lt, size]
    exact small
  have room : ¬ (UInt32.ofNat (codec.size t)).toNat < (codec.put t).length :=
    by rw [size]; exact lt_irrefl _
  have count : (UInt32.ofNat (codec.size t) + 4).toNat =
      (frame codec t).length := by
    have four : (4 : UInt32).toNat = 4 := rfl
    rw [UInt32.toNat_add, size, length_frame, four]
    exact Nat.mod_eq_of_lt (by omega)
  have taken : ∀ old : List UInt8,
      (frame codec t ++ old).take (frame codec t).length = frame codec t :=
    fun old => List.take_left' rfl
  unfold writeOne write
  simp only [fits, room, good, count, if_true, if_false]
  rw [← frame, taken]
  exact ⟨_, rfl⟩

theorem writeAll_spec {records : List T} {s : XDROutputFileStream}
    (tally : Tally) (small : ∀ record ∈ records, codec.size record < 2 ^ 31)
    (good : s.good = true) :
    ∃ mBuf, writeAll codec records tally s =
      .ok (tally.add (frames codec records),
        { s with mOut := s.mOut ++ frames codec records, mBuf }) := by
  induction records generalizing tally s with
  | nil =>
      refine ⟨s.mBuf, ?_⟩
      rw [frames, List.flatMap_nil, Tally.add_nil, List.append_nil]
      rfl
  | cons record records ih =>
      obtain ⟨buf, wrote⟩ := writeOne_spec tally
        (small record List.mem_cons_self) good
      obtain ⟨mBuf, later⟩ := ih (tally.add (frame codec record))
        (s := { s with mOut := s.mOut ++ frame codec record, mBuf := buf })
        (fun other member => small other (List.mem_cons_of_mem _ member))
        good
      refine ⟨mBuf, ?_⟩
      simp only [writeAll, List.foldlM_cons, wrote]
      rw [frames, List.flatMap_cons, Tally.add_append, ← List.append_assoc]
      exact later

end XDROutputFileStream

/-! ## Reading -/

namespace XDRInputFileStream

variable {codec} {t : T} {s : XDRInputFileStream}

variable (codec) in
theorem readOne_short (good : s.mIn.good = true)
    (short : s.mIn.rest.length < 4) :
    ∃ after, readOne codec s = .ok (none, after) := by
  have notLong : ¬ 4 ≤ s.mIn.rest.length := by omega
  refine ⟨{ s with mIn := { rest := [], good := false } }, ?_⟩
  simp [readOne, Ifstream.read, good, notLong]

private theorem stopped_iff (small : codec.size t < 2 ^ 31) :
    (s.mSizeLimit ≠ 0 ∧
      sizeOf (sizeBytes (UInt32.ofNat (codec.size t))) > s.mSizeLimit) ↔
        ¬ Fits codec s.mSizeLimit t := by
  have size := toNat_size small
  rw [sizeOf_sizeBytes (size.trans_lt small), Fits, not_or, gt_iff_lt,
    UInt32.lt_iff_toNat_lt, size, not_le]

section Header

variable {rest : List UInt8}
  (good : s.mIn.good = true) (small : codec.size t < 2 ^ 31)
  (here : s.mIn.rest = sizeBytes (UInt32.ofNat (codec.size t)) ++ rest)
include good here

private theorem read_header :
    s.mIn.read 4 =
      (some (sizeBytes (UInt32.ofNat (codec.size t))), { rest }) := by
  have bytes : (sizeBytes (UInt32.ofNat (codec.size t))).length = 4 := rfl
  have long : 4 ≤ s.mIn.rest.length := by
    rw [here, List.length_append, bytes]
    exact Nat.le_add_right _ _
  rw [Ifstream.read, good, if_neg (by decide), if_pos long, here,
    List.take_left' bytes, List.drop_left' bytes]

include small

theorem readOne_stopped (large : ¬ Fits codec s.mSizeLimit t) :
    ∃ after, readOne codec s = .ok (none, after) := by
  refine ⟨{ s with mIn := { rest } }, ?_⟩
  simp only [readOne, read_header good here]
  exact if_pos ((stopped_iff small).mpr large)

theorem readOne_cut (fits : Fits codec s.mSizeLimit t)
    (short : rest.length < codec.size t) :
    readOne codec s =
      .error (.xdrRuntimeError "malformed XDR file") := by
  have size := toNat_size small
  have notLong : ¬ codec.size t ≤ rest.length := by omega
  simp only [readOne, read_header good here]
  rw [if_neg (fun stops => (stopped_iff small).mp stops fits),
    sizeOf_sizeBytes (size.trans_lt small), size]
  simp [Ifstream.read, notLong]

theorem readOne_whole {later : List UInt8}
    (fits : Fits codec s.mSizeLimit t) (whole : rest = codec.put t ++ later) :
    ∃ mBuf, readOne codec s =
      .ok (some t, { s with mIn := { rest := later }, mBuf }) := by
  have size := toNat_size small
  have payload : Ifstream.read { rest } (codec.size t) =
      (some (codec.put t), { rest := later }) := by
    simp [Ifstream.read, whole, XdrCodec.size]
  have taken : ∀ old : List UInt8,
      (codec.put t ++ old).take (codec.size t) = codec.put t :=
    fun old => List.take_left' rfl
  simp only [readOne, read_header good here]
  rw [if_neg (fun stops => (stopped_iff small).mp stops fits),
    sizeOf_sizeBytes (size.trans_lt small), size, payload]
  simp only [taken, codec.get_put]
  exact ⟨_, rfl⟩

end Header

theorem readAll_of_error {reason : StreamFailure}
    (read : s.readOne codec = .error reason) :
    s.readAll codec = .error reason := by
  rw [readAll]
  split
  · rename_i other failed
    rw [read] at failed
    rw [Except.error.inj failed]
  · rename_i after ended
    rw [read] at ended
    cases ended
  · rename_i out after found
    rw [read] at found
    cases found

theorem readAll_of_none {after : XDRInputFileStream}
    (read : s.readOne codec = .ok (none, after)) :
    s.readAll codec = .ok [] := by
  rw [readAll]
  split
  · rename_i reason failed
    rw [read] at failed
    cases failed
  · rfl
  · rename_i out other found
    rw [read] at found
    cases found

theorem readAll_of_some {out : T} {after : XDRInputFileStream}
    (read : s.readOne codec = .ok (some out, after)) :
    s.readAll codec =
      (after.readAll codec).map (fun outs => out :: outs) := by
  rw [readAll]
  split
  · rename_i reason failed
    rw [read] at failed
    cases failed
  · rename_i other ended
    rw [read] at ended
    cases ended
  · rename_i other next found
    rw [read] at found
    obtain ⟨same, rfl⟩ := Prod.mk.inj (Except.ok.inj found)
    rw [Option.some.inj same]

/-- The loop of a reader on a prefix of a file. -/
theorem readAll_eq_outcome {records : List T} {s : XDRInputFileStream}
    (small : ∀ record ∈ records, codec.size record < 2 ^ 31)
    (good : s.mIn.good = true)
    (isPrefix : s.mIn.rest <+: frames codec records) :
    s.readAll codec =
      outcome codec s.mSizeLimit records s.mIn.rest.length := by
  induction records generalizing s with
  | nil =>
      have empty : s.mIn.rest = [] := List.prefix_nil.mp isPrefix
      obtain ⟨after, read⟩ := readOne_short codec good
        (by rw [empty]; decide)
      rw [readAll_of_none read, outcome]
  | cons record records ih =>
      rw [outcome]
      by_cases short : s.mIn.rest.length < 4
      · obtain ⟨after, read⟩ := readOne_short codec good short
        rw [if_pos short, readAll_of_none read]
      have smallHere := small record List.mem_cons_self
      rw [frames, List.flatMap_cons, frame, List.append_assoc] at isPrefix
      obtain ⟨rest, here, restPrefix⟩ := prefix_append isPrefix
        (Nat.le_of_not_lt short)
      have length : s.mIn.rest.length = rest.length + 4 := by
        rw [here, List.length_append, Nat.add_comm]
        rfl
      rw [if_neg short]
      by_cases fits : Fits codec s.mSizeLimit record
      · rw [if_neg (not_not_intro fits)]
        by_cases cut : s.mIn.rest.length < codec.size record + 4
        · rw [if_pos cut]
          exact readAll_of_error
            (readOne_cut good smallHere here fits (by omega))
        · rw [if_neg cut]
          obtain ⟨later, whole, laterPrefix⟩ := prefix_append restPrefix
            (show codec.size record ≤ rest.length by omega)
          obtain ⟨mBuf, read⟩ :=
            readOne_whole good smallHere here fits whole
          have left : s.mIn.rest.length - (codec.size record + 4) =
              later.length := by
            rw [length, whole, List.length_append, XdrCodec.size]
            omega
          rw [readAll_of_some read, left]
          exact congrArg (Except.map _) (ih
            (fun other member =>
              small other (List.mem_cons_of_mem _ member))
            rfl laterPrefix)
      · rw [if_pos fits]
        obtain ⟨after, read⟩ := readOne_stopped good smallHere here fits
        exact readAll_of_none read

theorem readOne_bad (bad : s.mIn.good = false) :
    readOne codec s = .ok (none, s) := by
  simp [readOne, Ifstream.read, bad]

end XDRInputFileStream

namespace InputIterator

open XDRInputFileStream

variable {codec}

theorem entries_of_none {it : InputIterator T}
    (absent : it.mEntryPtr = none) : it.entries codec = .ok [] := by
  rw [entries]
  split
  · rfl
  · rename_i entry present
    rw [absent] at present
    cases present

variable (codec) in
/-- The step to the next entry is one read of the stream. -/
theorem next_eq (it : InputIterator T) :
    it.next codec = it.loadEntry codec ∨
      it.mIn.readOne codec = .ok (none, it.mIn) ∧
        it.next codec = .ok { it with mEntryPtr := none } := by
  cases good : it.mIn.mIn.good with
  | true => exact .inl (if_pos good)
  | false =>
      refine .inr ⟨readOne_bad good, if_neg ?_⟩
      rw [good]
      exact Bool.false_ne_true

/-- An iterator meets its entry and then what its stream reads. -/
theorem entries_of_some {it : InputIterator T} {entry : T}
    (present : it.mEntryPtr = some entry) :
    it.entries codec =
      (it.mIn.readAll codec).map (fun outs => entry :: outs) := by
  fun_induction InputIterator.entries codec it generalizing entry with
  | case1 it absent =>
      rw [absent] at present
      cases present
  | case2 it other here reason moved =>
      rcases next_eq codec it with loads | ⟨_, ends⟩
      · rw [loads, loadEntry] at moved
        cases read : it.mIn.readOne codec with
        | error failure =>
            rw [read] at moved
            rw [readAll_of_error read, ← Except.error.inj moved]
            rfl
        | ok result =>
            rw [read] at moved
            cases moved
      · rw [ends] at moved
        cases moved
  | case3 it other here after moved ih =>
      obtain rfl := Option.some.inj (here.symm.trans present)
      rcases next_eq codec it with loads | ⟨read, ends⟩
      · rw [loads, loadEntry] at moved
        cases read : it.mIn.readOne codec with
        | error failure =>
            rw [read] at moved
            cases moved
        | ok result =>
            rw [read] at moved
            obtain rfl := Except.ok.inj moved
            obtain ⟨found, mIn⟩ := result
            cases found with
            | none => rw [readAll_of_none read, entries_of_none rfl]
            | some out => rw [readAll_of_some read, ih rfl]
      · rw [ends] at moved
        obtain rfl := Except.ok.inj moved
        rw [readAll_of_none read, entries_of_none rfl]

/-- A loop over the entries of a bucket reads its file. -/
theorem entries_ofBucket (file : List UInt8) :
    (ofBucket codec (some file) >>= entries codec) =
      readAll codec (.open file 0) := by
  have constructed : ofBucket codec (some file) =
      (readOne codec (.open file 0)).map
        (fun read => { mIn := read.2, mEntryPtr := read.1 }) := rfl
  rw [constructed]
  cases read : readOne codec (.open file 0) with
  | error reason =>
      rw [readAll_of_error read]
      rfl
  | ok result =>
      obtain ⟨found, mIn⟩ := result
      cases found with
      | none =>
          rw [readAll_of_none read]
          exact entries_of_none rfl
      | some out =>
          rw [readAll_of_some read]
          exact entries_of_some rfl

end InputIterator

/-! ## Prefixes of a file -/

/-- The first `count` bytes of a file end behind the length of a record and
before its end, and the reader gets that far. -/
def EndsInBody (sizeLimit : UInt32) (records : List T) (count : ℕ) : Prop :=
  ∃ k < records.length, frameEnd codec records k + 4 ≤ count ∧
    count < frameEnd codec records (k + 1) ∧
      ∀ record ∈ records.take (k + 1), Fits codec sizeLimit record

section Outcome

variable {codec} {sizeLimit : UInt32}

theorem frameEnd_zero (records : List T) : frameEnd codec records 0 = 0 :=
  rfl

theorem endsInBody_cons {record : T} {records : List T} {count : ℕ} :
    EndsInBody codec sizeLimit (record :: records) count ↔
      Fits codec sizeLimit record ∧ 4 ≤ count ∧
        (count < codec.size record + 4 ∨
          codec.size record + 4 ≤ count ∧
            EndsInBody codec sizeLimit records
              (count - (codec.size record + 4))) := by
  constructor
  · rintro ⟨k, within, low, high, fits⟩
    rw [frameEnd_succ] at high
    have fitsHere : Fits codec sizeLimit record :=
      fits record (by simp)
    cases k with
    | zero =>
        rw [frameEnd_zero] at low high
        exact ⟨fitsHere, by omega, .inl (by omega)⟩
    | succ k =>
        rw [frameEnd_succ] at low
        refine ⟨fitsHere, by omega, .inr ⟨by omega, k,
          Nat.lt_of_succ_lt_succ within, by omega, by omega, ?_⟩⟩
        intro other member
        exact fits other (List.mem_cons_of_mem record member)
  · rintro ⟨fitsHere, low, here | ⟨high, k, within, lower, upper, fits⟩⟩
    · refine ⟨0, Nat.succ_pos _, ?_, ?_, ?_⟩
      · rw [frameEnd_zero]
        omega
      · rw [frameEnd_succ, frameEnd_zero]
        omega
      · intro other member
        rw [List.mem_singleton.mp member]
        exact fitsHere
    · refine ⟨k + 1, Nat.succ_lt_succ within, ?_, ?_, ?_⟩
      · rw [frameEnd_succ]
        omega
      · rw [frameEnd_succ]
        omega
      · intro other member
        rcases List.mem_cons.mp member with rfl | later
        · exact fitsHere
        · exact fits other later

theorem map_error_iff {result : Except StreamFailure (List T)}
    {f : List T → List T} :
    (∃ reason, result.map f = .error reason) ↔
      ∃ reason, result = .error reason := by
  cases result with
  | error reason => exact ⟨fun _ => ⟨reason, rfl⟩, fun _ => ⟨reason, rfl⟩⟩
  | ok value =>
      constructor
      · rintro ⟨reason, failed⟩
        cases failed
      · rintro ⟨reason, failed⟩
        cases failed

theorem outcome_error_iff {records : List T} {count : ℕ} :
    (∃ reason, outcome codec sizeLimit records count = .error reason) ↔
      EndsInBody codec sizeLimit records count := by
  induction records generalizing count with
  | nil =>
      constructor
      · rintro ⟨reason, failed⟩
        cases failed
      · rintro ⟨k, within, _⟩
        cases within
  | cons record records ih =>
      rw [endsInBody_cons, ← ih, outcome]
      by_cases short : count < 4
      · simp [short]
      by_cases fits : Fits codec sizeLimit record
      · by_cases cut : count < codec.size record + 4
        · simp [short, fits, cut, Nat.le_of_not_lt short]
        · rw [if_neg short, if_neg (not_not_intro fits), if_neg cut,
            map_error_iff]
          simp [fits, cut, Nat.le_of_not_lt short, Nat.le_of_not_lt cut]
      · simp [short, fits]

theorem length_frames_cons (record : T) (records : List T) :
    (frames codec (record :: records)).length =
      codec.size record + 4 + (frames codec records).length := by
  rw [frames, List.flatMap_cons, List.length_append, length_frame, frames]

theorem outcome_length {records : List T} :
    outcome codec sizeLimit records (frames codec records).length =
      .ok records ↔ ∀ record ∈ records, Fits codec sizeLimit record := by
  induction records with
  | nil => simp [outcome]
  | cons record records ih =>
      have rest : codec.size record + 4 + (frames codec records).length -
          (codec.size record + 4) = (frames codec records).length := by
        omega
      rw [outcome, length_frames_cons, if_neg (by omega), rest,
        List.forall_mem_cons, ← ih]
      by_cases fits : Fits codec sizeLimit record
      · rw [if_neg (not_not_intro fits), if_neg (by omega)]
        cases outcome codec sizeLimit records
            (frames codec records).length with
        | error reason => simp [fits, Except.map]
        | ok outs => simp [fits, Except.map]
      · simp [fits]

end Outcome

/-! ## Files that have been written -/

section Files

variable {codec}

/-- A reader on a prefix of a file, opened with or without a limit. -/
theorem readAll_open {records : List T} (sizeLimit : UInt32)
    {part : List UInt8}
    (small : ∀ record ∈ records, codec.size record < 2 ^ 31)
    (isPrefix : part <+: frames codec records) :
    XDRInputFileStream.readAll codec (.open part sizeLimit) =
      outcome codec sizeLimit records part.length :=
  XDRInputFileStream.readAll_eq_outcome small rfl isPrefix

/-- Writing the records, and what a stream and a bucket's iterator make of
the file and of its prefixes. -/
theorem files_exact {records : List T} (sizeLimit : UInt32)
    (small : ∀ record ∈ records, codec.size record < 2 ^ 31) :
    ∃ s, XDROutputFileStream.writeAll codec records
        { hasher := some [], bytesPut := some 0 } {} =
          .ok ({ hasher := some s.mOut, bytesPut := some s.mOut.length },
            s) ∧
      (XDRInputFileStream.readAll codec (.open s.mOut sizeLimit) =
          .ok records ↔
        ∀ record ∈ records, Fits codec sizeLimit record) ∧
      (InputIterator.ofBucket codec (some s.mOut) >>=
        InputIterator.entries codec) = .ok records ∧
      ∀ part, part <+: s.mOut →
        ((∃ reason, XDRInputFileStream.readAll codec
            (.open part sizeLimit) = .error reason) ↔
          EndsInBody codec sizeLimit records part.length) ∧
        ((∃ reason, (InputIterator.ofBucket codec (some part) >>=
            InputIterator.entries codec) = .error reason) ↔
          EndsInBody codec 0 records part.length) := by
  obtain ⟨mBuf, wrote⟩ := XDROutputFileStream.writeAll_spec
    (s := {}) { hasher := some [], bytesPut := some 0 } small rfl
  refine ⟨{ mOut := frames codec records, mBuf }, ?_, ?_, ?_, ?_⟩
  · rw [wrote]
    simp [Tally.add]
  · rw [readAll_open sizeLimit small (List.prefix_refl _), outcome_length]
  · rw [InputIterator.entries_ofBucket,
      readAll_open 0 small (List.prefix_refl _), outcome_length]
    intro record member
    exact .inl rfl
  · intro part isPrefix
    rw [InputIterator.entries_ofBucket, readAll_open 0 small isPrefix,
      readAll_open sizeLimit small isPrefix]
    exact ⟨outcome_error_iff, outcome_error_iff⟩

end Files

/-- The codec of a byte, which XDR marshals as a word. -/
def byteCodec : XdrCodec UInt8 where
  put t := [0, 0, 0, t]
  get
    | [0, 0, 0, t] => .ok t
    | _ => .error "input buffer space incorrect size in xdr_generic_get"
  get_put _ := rfl

/-- A file with two records, read by streams without and with a limit. -/
theorem files_exact_bytes :
    ∃ s, XDROutputFileStream.writeAll byteCodec [7, 9]
        { hasher := some [], bytesPut := some 0 } {} =
          .ok ({ hasher := some s.mOut, bytesPut := some s.mOut.length },
            s) ∧
      (XDRInputFileStream.readAll byteCodec (.open s.mOut 0) =
          .ok [7, 9] ↔
        ∀ record ∈ [7, 9], Fits byteCodec 0 record) ∧
      (InputIterator.ofBucket byteCodec (some s.mOut) >>=
        InputIterator.entries byteCodec) = .ok [7, 9] ∧
      ∀ part, part <+: s.mOut →
        ((∃ reason, XDRInputFileStream.readAll byteCodec
            (.open part 0) = .error reason) ↔
          EndsInBody byteCodec 0 [7, 9] part.length) ∧
        ((∃ reason, (InputIterator.ofBucket byteCodec (some part) >>=
            InputIterator.entries byteCodec) = .error reason) ↔
          EndsInBody byteCodec 0 [7, 9] part.length) :=
  files_exact 0 (fun record _ => Nat.lt_of_le_of_lt
    (le_refl (byteCodec.size record)) (show 4 < 2 ^ 31 by decide))

/-- A file that ends within the length of its second record reads as the
file with the first one. -/
theorem cut_length_reads_on :
    (XDROutputFileStream.writeAll byteCodec [7, 9] {} {}).map
        (fun written => written.2.mOut) =
      .ok [0x80, 0, 0, 4, 0, 0, 0, 7, 0x80, 0, 0, 4, 0, 0, 0, 9] ∧
    (∀ k, frameEnd byteCodec [7, 9] k ≠ 10) ∧
    XDRInputFileStream.readAll byteCodec
      (.open [0x80, 0, 0, 4, 0, 0, 0, 7, 0x80, 0] 0) = .ok [7] ∧
    (InputIterator.ofBucket byteCodec
        (some [0x80, 0, 0, 4, 0, 0, 0, 7, 0x80, 0]) >>=
      InputIterator.entries byteCodec) = .ok [7] := by
  have small : ∀ record ∈ ([7, 9] : List UInt8),
      byteCodec.size record < 2 ^ 31 := fun record _ =>
    Nat.lt_of_le_of_lt (le_refl (byteCodec.size record))
      (show 4 < 2 ^ 31 by decide)
  have isPrefix :
      [0x80, 0, 0, 4, 0, 0, 0, 7, 0x80, 0] <+: frames byteCodec [7, 9] :=
    ⟨[0, 4, 0, 0, 0, 9], by decide⟩
  have read : XDRInputFileStream.readAll byteCodec
      (.open [0x80, 0, 0, 4, 0, 0, 0, 7, 0x80, 0] 0) = .ok [7] := by
    rw [readAll_open 0 small isPrefix]
    rfl
  refine ⟨rfl, ?_, read, ?_⟩
  · intro k
    rcases k with _ | _ | k
    · decide
    · decide
    · simp [frameEnd, byteCodec, XdrCodec.size]
  · rw [InputIterator.entries_ofBucket, read]

end StellarCore.Buckets
