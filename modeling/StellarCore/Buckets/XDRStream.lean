import StellarCore.Lib.Words

/-!
# XDR file streams

`XDRStream.h`: records of one type in a file, each with a length before it,
and `Bucket::InputIterator`, which reads a file of records.  The XDR library
is not part of the repository; a codec stands for it.  A vector of bytes that
is resized keeps what it holds, as the buffers of the source do between
records of different sizes.
-/

namespace StellarCore.Buckets

open StellarCore.Lib

/-- The marshalling of one type: `xdr_put`, `xdr_get` with the text of its
error, and what the two promise. -/
structure XdrCodec (T : Type) where
  put : T → List UInt8
  get : List UInt8 → Except String T
  get_put : ∀ t, get (put t) = .ok t

/-- `xdr_size`. -/
def XdrCodec.size {T : Type} (codec : XdrCodec T) (t : T) : ℕ :=
  (codec.put t).length

inductive StreamFailure where
  | assertion
  | xdrRuntimeError (what : String)
  deriving DecidableEq, Repr

/-- `std::vector<char>::resize`. -/
def resize (buf : List UInt8) (size : ℕ) : List UInt8 :=
  buf.take size ++ List.replicate (size - buf.length) 0

/-! ## Writing -/

structure XDROutputFileStream where
  mOut : List UInt8 := []
  good : Bool := true
  mBuf : List UInt8 := []

/-- What the optional arguments of `writeOne` point to: the bytes that the
hasher has been given, and the count. -/
structure Tally where
  hasher : Option (List UInt8) := none
  bytesPut : Option ℕ := none

def Tally.add (tally : Tally) (bytes : List UInt8) : Tally :=
  { hasher := tally.hasher.map (fun hashed => hashed ++ bytes)
    bytesPut := tally.bytesPut.map (fun count => count + bytes.length) }

/-- The four bytes that `writeOne` puts before a record. -/
def sizeBytes (sz : UInt32) : List UInt8 :=
  [((sz >>> 24) &&& 0xFF).toUInt8 ||| 0x80,
    ((sz >>> 16) &&& 0xFF).toUInt8,
    ((sz >>> 8) &&& 0xFF).toUInt8,
    (sz &&& 0xFF).toUInt8]

namespace XDROutputFileStream

/-- `mOut.write`. -/
def write (s : XDROutputFileStream) (bytes : List UInt8) :
    Bool × XDROutputFileStream :=
  if s.good then (true, { s with mOut := s.mOut ++ bytes })
  else (false, s)

variable {T : Type} (codec : XdrCodec T)

def writeOne (t : T) (tally : Tally) (s : XDROutputFileStream) :
    Except StreamFailure (Bool × Tally × XDROutputFileStream) :=
  let sz := UInt32.ofNat (codec.size t)
  if sz < 0x80000000 then
    let buf :=
      if s.mBuf.length < (sz + 4).toNat then resize s.mBuf (sz + 4).toNat
      else s.mBuf
    let payload := codec.put t
    -- a size that does not fit in the word leaves too little room
    if sz.toNat < payload.length then
      .error (.xdrRuntimeError
        "insufficient buffer space in xdr_generic_put")
    else
      let mBuf := sizeBytes sz ++ payload ++ buf.drop (sz + 4).toNat
      let bytes := mBuf.take (sz + 4).toNat
      let (written, s) := { s with mBuf }.write bytes
      if written then .ok (true, tally.add bytes, s)
      else .ok (false, tally, s)
  else
    .error .assertion

/-- A loop of `writeOne` on an opened file. -/
def writeAll (records : List T) (tally : Tally) (s : XDROutputFileStream) :
    Except StreamFailure (Tally × XDROutputFileStream) :=
  records.foldlM
    (fun (tally, s) t => (writeOne codec t tally s).map Prod.snd) (tally, s)

end XDROutputFileStream

/-! ## Reading -/

/-- `std::ifstream`: what has not been read, and whether the stream is
good. -/
structure Ifstream where
  rest : List UInt8
  good : Bool := true

/-- A read that reaches the end of the file fails, and later ones do too. -/
def Ifstream.read (s : Ifstream) (count : ℕ) :
    Option (List UInt8) × Ifstream :=
  if !s.good then (none, s)
  else if count ≤ s.rest.length then
    (some (s.rest.take count), { s with rest := s.rest.drop count })
  else (none, { rest := [], good := false })

structure XDRInputFileStream where
  mIn : Ifstream
  mBuf : List UInt8 := []
  mSizeLimit : UInt32 := 0

/-- The size that the four bytes `szBuf` give. -/
def sizeOf (szBuf : List UInt8) : UInt32 :=
  let sz := (szBuf.getD 0 0 &&& 0x7F).toUInt32
  let sz := sz <<< 8 ||| (szBuf.getD 1 0).toUInt32
  let sz := sz <<< 8 ||| (szBuf.getD 2 0).toUInt32
  sz <<< 8 ||| (szBuf.getD 3 0).toUInt32

namespace XDRInputFileStream

def «open» (file : List UInt8) (sizeLimit : UInt32) : XDRInputFileStream :=
  { mIn := { rest := file }, mSizeLimit := sizeLimit }

variable {T : Type} (codec : XdrCodec T)

/-- `none` is the value `false`. -/
def readOne (s : XDRInputFileStream) :
    Except StreamFailure (Option T × XDRInputFileStream) :=
  match s.mIn.read 4 with
  | (none, mIn) => .ok (none, { s with mIn })
  | (some szBuf, mIn) =>
      let sz := sizeOf szBuf
      if s.mSizeLimit ≠ 0 ∧ sz > s.mSizeLimit then
        .ok (none, { s with mIn })
      else
        let buf :=
          if sz.toNat > s.mBuf.length then resize s.mBuf sz.toNat
          else s.mBuf
        match mIn.read sz.toNat with
        | (none, _) => .error (.xdrRuntimeError "malformed XDR file")
        | (some bytes, mIn) =>
            let mBuf := bytes ++ buf.drop sz.toNat
            match codec.get (mBuf.take sz.toNat) with
            | .error what => .error (.xdrRuntimeError what)
            | .ok out => .ok (some out, { s with mIn, mBuf })

theorem readOne_shrinks {s after : XDRInputFileStream} {out : Option T}
    (read : s.readOne codec = .ok (out, after)) :
    after.mIn.rest.length ≤ s.mIn.rest.length ∧
      (out.isSome → after.mIn.rest.length < s.mIn.rest.length) := by
  obtain ⟨⟨rest, good⟩, mBuf, mSizeLimit⟩ := s
  unfold readOne at read
  cases good with
  | false =>
      obtain ⟨rfl, rfl⟩ := Prod.mk.inj (Except.ok.inj read)
      exact ⟨le_rfl, fun some => nomatch some⟩
  | true =>
      by_cases long : 4 ≤ rest.length
      · simp only [Ifstream.read, Bool.not_true, Bool.false_eq_true, if_false,
          long, if_true] at read
        split at read
        · obtain ⟨rfl, rfl⟩ := Prod.mk.inj (Except.ok.inj read)
          exact ⟨List.length_drop.trans_le (Nat.sub_le _ _),
            fun some => nomatch some⟩
        · split at read
          · cases read
          · rename_i bytes mIn later
            split at read
            · cases read
            · obtain ⟨rfl, rfl⟩ := Prod.mk.inj (Except.ok.inj read)
              split at later
              · obtain ⟨_, rfl⟩ := Prod.mk.inj later
                simp only [List.length_drop]
                omega
              · cases (Prod.mk.inj later).1
      · simp only [Ifstream.read, Bool.not_true, Bool.false_eq_true, if_false,
          long] at read
        obtain ⟨rfl, rfl⟩ := Prod.mk.inj (Except.ok.inj read)
        exact ⟨Nat.zero_le _, fun some => nomatch some⟩

/-- Reads until `readOne` returns false. -/
def readAll (s : XDRInputFileStream) : Except StreamFailure (List T) :=
  match _read : s.readOne codec with
  | .error reason => .error reason
  | .ok (none, _) => .ok []
  | .ok (some out, after) => (after.readAll).map (fun outs => out :: outs)
termination_by s.mIn.rest.length
decreasing_by exact (readOne_shrinks codec _read).2 rfl

end XDRInputFileStream

/-- `Bucket::InputIterator`. -/
structure InputIterator (T : Type) where
  mIn : XDRInputFileStream
  mEntryPtr : Option T

namespace InputIterator

variable {T : Type} (codec : XdrCodec T)

def loadEntry (it : InputIterator T) :
    Except StreamFailure (InputIterator T) :=
  (it.mIn.readOne codec).map (fun (mEntryPtr, mIn) => { mIn, mEntryPtr })

/-- The constructor; a bucket without a file name has no entries. -/
def ofBucket : Option (List UInt8) →
    Except StreamFailure (InputIterator T)
  | none => .ok { mIn := { mIn := { rest := [], good := false } }
                  mEntryPtr := none }
  | some file => loadEntry codec
      { mIn := .open file 0, mEntryPtr := none }

/-- `operator++`. -/
def next (it : InputIterator T) : Except StreamFailure (InputIterator T) :=
  if it.mIn.mIn.good then it.loadEntry codec
  else .ok { it with mEntryPtr := none }

theorem next_shrinks {it after : InputIterator T}
    (entry : it.mEntryPtr.isSome) (moved : it.next codec = .ok after) :
    after.mIn.mIn.rest.length + after.mEntryPtr.toList.length <
      it.mIn.mIn.rest.length + it.mEntryPtr.toList.length := by
  obtain ⟨here, present⟩ := Option.isSome_iff_exists.mp entry
  unfold next loadEntry at moved
  split at moved
  · cases read : it.mIn.readOne codec with
    | error reason =>
        rw [read] at moved
        cases moved
    | ok result =>
        rw [read] at moved
        obtain rfl := Except.ok.inj moved
        obtain ⟨shorter, strictly⟩ :=
          XDRInputFileStream.readOne_shrinks codec read
        rw [present]
        cases found : result.1 with
        | none => simpa [found] using Nat.lt_succ_of_le shorter
        | some out =>
            rw [found] at strictly
            simpa [found] using strictly rfl
  · obtain rfl := Except.ok.inj moved
    simp [present]

/-- The entries that a loop over an iterator meets. -/
def entries (it : InputIterator T) : Except StreamFailure (List T) :=
  match _present : it.mEntryPtr with
  | none => .ok []
  | some entry =>
      match _moved : it.next codec with
      | .error reason => .error reason
      | .ok after => after.entries.map (fun later => entry :: later)
termination_by it.mIn.mIn.rest.length + it.mEntryPtr.toList.length
decreasing_by exact next_shrinks codec (by rw [_present]; rfl) _moved

end InputIterator

end StellarCore.Buckets
