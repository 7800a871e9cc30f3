import StellarCore.Crypto.StrKey

/-!
# Which texts stand for a key

A key is read back from its text.  The other way round only a text without
unknown characters and without low bits in its version byte is the text of
the key it is read as: the decoder passes over one unknown character if the
last five bits are zero, and the low bits of the version are dropped.
-/

namespace StellarCore.Crypto

open StellarCore.Lib StellarCore.Transactions

/-! ## Checksums -/

private theorem join_bytes (high low : UInt8) :
    ((high.toUInt16 <<< 8) ||| low.toUInt16).toNat =
      2 ^ 8 * high.toNat + low.toNat := by
  have top := high.toNat_lt
  have bottom := low.toNat_lt
  have shifted : (high.toUInt16 <<< 8).toNat = 2 ^ 8 * high.toNat := by
    rw [UInt16.toNat_shiftLeft]
    show high.toNat <<< 8 % 2 ^ 16 = 2 ^ 8 * high.toNat
    rw [Nat.shiftLeft_eq, Nat.mul_comm, Nat.mod_eq_of_lt (by omega)]
  rw [UInt16.toNat_or, shifted]
  show 2 ^ 8 * high.toNat ||| low.toNat = _
  exact (Nat.two_pow_add_eq_or_of_lt bottom _).symm

private theorem lower_byte (crc : UInt16) :
    (crc &&& 0xFF).toUInt8.toNat = crc.toNat % 2 ^ 8 := by
  rw [UInt16.toNat_toUInt8, UInt16.toNat_and]
  show (crc.toNat &&& (2 ^ 8 - 1)) % 2 ^ 8 = _
  rw [Nat.and_two_pow_sub_one_eq_mod, Nat.mod_mod]

private theorem upper_byte (crc : UInt16) :
    ((crc >>> 8) &&& 0xFF).toUInt8.toNat = crc.toNat / 2 ^ 8 := by
  have small := crc.toNat_lt
  rw [lower_byte, UInt16.toNat_shiftRight]
  show crc.toNat >>> 8 % 2 ^ 8 = _
  rw [Nat.shiftRight_eq_div_pow]
  omega

namespace StrKey

/-- The two bytes are the checksum if and only if they join to it. -/
theorem checksum_eq_iff {encoded : List UInt8} {low high : UInt8} :
    checksum encoded = [low, high] ↔
      crc16 encoded = (high.toUInt16 <<< 8) ||| low.toUInt16 := by
  have bottom := low.toNat_lt
  rw [checksum, List.cons.injEq, List.cons.injEq, ← UInt8.toNat_inj,
    ← UInt8.toNat_inj, lower_byte, upper_byte, ← UInt16.toNat_inj,
    join_bytes]
  simp only [and_true]
  omega

theorem checksum_length (encoded : List UInt8) :
    (checksum encoded).length = 2 :=
  rfl

/-- A text is read if it decodes to a version byte, some bytes and their
checksum. -/
theorem fromStrKey_eq_some_iff {s : List UInt8} {ver : UInt8}
    {k : List UInt8} :
    fromStrKey s = some (ver, k) ↔
      ∃ first, decodeB32 s = first :: k ++ checksum (first :: k) ∧
        ver = first >>> 3 := by
  unfold fromStrKey
  constructor
  · intro read
    simp only at read
    split at read
    · cases read
    · rename_i long
      have some : decodeB32 s ≠ [] := by
        intro none
        simp [none] at long
      obtain ⟨most, high, split⟩ :=
        List.eq_nil_or_concat' (decodeB32 s) |>.resolve_left some
      have more : most ≠ [] := by
        intro none
        simp [split, none] at long
      obtain ⟨encoded, low, splitAgain⟩ :=
        List.eq_nil_or_concat' most |>.resolve_left more
      have begins : encoded ≠ [] := by
        intro none
        simp [split, splitAgain, none] at long
      obtain ⟨first, rest, start⟩ := List.exists_cons_of_ne_nil begins
      simp only [split, splitAgain, List.getLastD_concat,
        List.dropLast_concat] at read
      split at read
      · cases read
      · rename_i right
        rw [not_not, ← checksum_eq_iff] at right
        obtain ⟨rfl, rfl⟩ := Prod.mk.inj (Option.some.inj read)
        refine ⟨first, ?_, ?_⟩
        · rw [split, splitAgain, start, List.tail_cons, ← start, right]
          simp
        · rw [start, List.headD_cons]
  · rintro ⟨first, decoded, rfl⟩
    obtain ⟨low, high, pair⟩ : ∃ low high,
        checksum (first :: k) = [low, high] := ⟨_, _, rfl⟩
    have long : ¬ (decodeB32 s).length < 3 := by
      rw [decoded, List.length_append, List.length_cons, checksum_length]
      omega
    have split : decodeB32 s = (first :: k ++ [low]) ++ [high] := by
      rw [decoded, pair]
      simp
    have right := checksum_eq_iff.mp pair
    simp only [long, if_false]
    rw [split, List.getLastD_concat, List.dropLast_concat,
      List.getLastD_concat, List.dropLast_concat, ← right]
    simp

theorem decodeB32_toStrKey (ver : UInt8) (bin : List UInt8) :
    decodeB32 (toStrKey ver bin) =
      (ver <<< 3) :: bin ++ checksum ((ver <<< 3) :: bin) :=
  decodeB32_encodeB32 _

end StrKey

/-! ## Bytes of a key -/

namespace KeyUtils

theorem bytesOf_length (value : BitVec 256) : (bytesOf value).length = 32 := by
  rw [bytesOf, List.length_map, digitsOf_length]

private theorem map_toNat_ofNat {digits : List ℕ}
    (small : ∀ digit ∈ digits, digit < 256) :
    (digits.map UInt8.ofNat).map UInt8.toNat = digits := by
  rw [List.map_map]
  calc
    digits.map (UInt8.toNat ∘ UInt8.ofNat) = digits.map id := by
      apply List.map_congr_left
      intro digit member
      rw [Function.comp_apply, UInt8.toNat_ofNat']
      exact Nat.mod_eq_of_lt (small digit member)
    _ = digits := List.map_id digits

theorem ofBytes_bytesOf (value : BitVec 256) :
    ofBytes (bytesOf value) = value := by
  have width : (256 : ℕ) ^ 32 = 2 ^ 256 := by norm_num
  have bound : value.toNat < 256 ^ 32 := by
    rw [width]
    exact value.isLt
  rw [ofBytes, bytesOf,
    map_toNat_ofNat (digitsOf_lt (by norm_num) 32 value.toNat),
    number_digitsOf bound, BitVec.ofNat_toNat, BitVec.setWidth_eq]

theorem bytesOf_ofBytes {bytes : List UInt8} (size : bytes.length = 32) :
    bytesOf (ofBytes bytes) = bytes := by
  have width : (256 : ℕ) ^ 32 = 2 ^ 256 := by norm_num
  have small : ∀ digit ∈ bytes.map UInt8.toNat, digit < 256 := by
    intro digit member
    obtain ⟨byte, _, rfl⟩ := List.mem_map.mp member
    exact byte.toNat_lt
  have bound := number_lt (by norm_num) small
  rw [List.length_map, size, width] at bound
  have same : (ofBytes bytes).toNat =
      number 256 (bytes.map UInt8.toNat) := by
    rw [ofBytes, BitVec.toNat_ofNat]
    exact Nat.mod_eq_of_lt bound
  have digits := digitsOf_number (by norm_num) small
  rw [List.length_map, size] at digits
  rw [bytesOf, same, digits, List.map_map]
  simp [Function.comp_def]

end KeyUtils

/-! ## Types of keys -/

open KeyFunctions KeyUtils

/-- The functions of a type of keys fit together. -/
structure LawfulKeys (T : Type) [KeyFunctions T] : Prop where
  supported : ∀ keyType : KeyType T,
    getKeyVersionIsSupported T (toKeyVersion keyType) = true
  fiveBits : ∀ keyType : KeyType T,
    toKeyVersion keyType <<< 3 >>> 3 = toKeyVersion keyType
  size : ∀ keyVersion, getKeyVersionIsSupported T keyVersion = true →
    getKeyVersionSize keyVersion = .ok 32
  versionBack : ∀ keyVersion,
    getKeyVersionIsSupported T keyVersion = true →
      ∃ keyType : KeyType T, toKeyType keyVersion = .ok keyType ∧
        toKeyVersion keyType = keyVersion
  typeBack : ∀ keyType : KeyType T,
    toKeyType (toKeyVersion keyType) = .ok keyType
  keyBack : ∀ key : T, make (type key) (getKeyValue key) = key
  type_make : ∀ (keyType : KeyType T) value,
    type (make keyType value : T) = keyType
  value_make : ∀ (keyType : KeyType T) value,
    getKeyValue (make keyType value : T) = value

theorem publicKey_lawful : LawfulKeys PublicKey where
  supported := by
    intro keyType
    cases keyType
    decide
  fiveBits := by
    intro keyType
    cases keyType
    decide
  size := by
    intro keyVersion supported
    rw [of_decide_eq_true supported]
    decide
  versionBack := by
    intro keyVersion supported
    rw [of_decide_eq_true supported]
    exact ⟨.ed25519, rfl, rfl⟩
  typeBack := by
    intro keyType
    cases keyType
    rfl
  keyBack _ := rfl
  type_make := by
    intro keyType value
    cases keyType
    rfl
  value_make _ _ := rfl

private theorem signerKey_versions {keyVersion : StrKeyVersionByte}
    (supported : getKeyVersionIsSupported SignerKey keyVersion = true) :
    keyVersion = strKeyPubKeyEd25519 ∨ keyVersion = strKeyPreAuthTx ∨
      keyVersion = strKeyHashX := by
  simpa [getKeyVersionIsSupported, or_assoc] using supported

theorem signerKey_lawful : LawfulKeys SignerKey where
  supported := by
    intro keyType
    cases keyType
    case ed25519 => decide
    case preAuthTx => decide
    case hashX => decide
  fiveBits := by
    intro keyType
    cases keyType
    case ed25519 => decide
    case preAuthTx => decide
    case hashX => decide
  size := by
    intro keyVersion supported
    rcases signerKey_versions supported with rfl | rfl | rfl
    · decide
    · decide
    · decide
  versionBack := by
    intro keyVersion supported
    rcases signerKey_versions supported with rfl | rfl | rfl
    · exact ⟨.ed25519, rfl, rfl⟩
    · exact ⟨.preAuthTx, rfl, rfl⟩
    · exact ⟨.hashX, rfl, rfl⟩
  typeBack := by
    intro keyType
    cases keyType
    case ed25519 => rfl
    case preAuthTx => rfl
    case hashX => rfl
  keyBack := by
    intro key
    cases key
    case ed25519 => rfl
    case preAuthTx => rfl
    case hashX => rfl
  type_make := by
    intro keyType value
    cases keyType
    case ed25519 => rfl
    case preAuthTx => rfl
    case hashX => rfl
  value_make := by
    intro keyType value
    cases keyType
    case ed25519 => rfl
    case preAuthTx => rfl
    case hashX => rfl

/-! ## Reading keys -/

section Reading

variable {T : Type} [KeyFunctions T] {s : List UInt8} {key : T}

/-- What a text decodes to if a key is read from it. -/
structure ReadAs (s : List UInt8) (key : T) (first : UInt8)
    (k : List UInt8) : Prop where
  decoded : decodeB32 s = first :: k ++ StrKey.checksum (first :: k)
  version : toKeyVersion (type key) = first >>> 3
  value : bytesOf (getKeyValue key) = k
  size : s.length = 56

theorem LawfulKeys.fromStrKey_of_found (lawful : LawfulKeys T)
    {ver : StrKeyVersionByte} {k : List UInt8} {keyType : KeyType T}
    (found : StrKey.fromStrKey s = some (ver, k))
    (supported : getKeyVersionIsSupported T ver = true)
    (typed : toKeyType ver = .ok keyType) :
    fromStrKey T s =
      if k.length ≠ 32 ∨ s.length ≠ 56 then
        .error ⟨"bad " ++ getKeyTypeName T⟩
      else
        .ok (make keyType (ofBytes k)) := by
  unfold fromStrKey
  simp only [found]
  rw [supported, lawful.size ver supported, typed]
  rfl

theorem LawfulKeys.readAs (lawful : LawfulKeys T)
    (read : fromStrKey T s = .ok key) : ∃ first k, ReadAs s key first k := by
  cases found : StrKey.fromStrKey s with
  | none =>
      unfold fromStrKey at read
      rw [found] at read
      cases read
  | some pair =>
      obtain ⟨ver, k⟩ := pair
      cases supported : getKeyVersionIsSupported T ver with
      | false =>
          unfold fromStrKey at read
          simp only [found] at read
          rw [supported] at read
          cases read
      | true =>
          obtain ⟨keyType, typed, versioned⟩ :=
            lawful.versionBack ver supported
          rw [lawful.fromStrKey_of_found found supported typed] at read
          split at read
          · cases read
          · rename_i sizes
            push Not at sizes
            obtain ⟨first, decoded, shifted⟩ :=
              StrKey.fromStrKey_eq_some_iff.mp found
            obtain rfl := Except.ok.inj read
            refine ⟨first, k, decoded, ?_, ?_, sizes.2⟩
            · rw [lawful.type_make, versioned, shifted]
            · rw [lawful.value_make, bytesOf_ofBytes sizes.1]

theorem toStrKey_groups (key : T) :
    ((toKeyVersion (type key) <<< 3) :: bytesOf (getKeyValue key) ++
      StrKey.checksum ((toKeyVersion (type key) <<< 3) ::
        bytesOf (getKeyValue key))).length = 5 * 7 := by
  rw [List.length_append, List.length_cons, bytesOf_length,
    StrKey.checksum_length]

theorem toStrKey_length (key : T) : (toStrKey key).length = 56 := by
  have groups := toStrKey_groups key
  rw [toStrKey, StrKey.toStrKey, encodeB32_groups groups, List.length_map,
    (encodeLoop_groups groups).2]

/-- A key is read back from its text. -/
theorem LawfulKeys.fromStrKey_toStrKey (lawful : LawfulKeys T) (key : T) :
    fromStrKey T (toStrKey key) = .ok key := by
  have fiveBits := lawful.fiveBits (type key)
  have supported := lawful.supported (type key)
  have found : StrKey.fromStrKey (toStrKey key) =
      some (toKeyVersion (type key), bytesOf (getKeyValue key)) := by
    rw [StrKey.fromStrKey_eq_some_iff]
    exact ⟨_, StrKey.decodeB32_toStrKey _ _, fiveBits.symm⟩
  have sizes : ¬ ((bytesOf (getKeyValue key)).length ≠ 32 ∨
      (toStrKey key).length ≠ 56) := by
    rw [bytesOf_length, toStrKey_length]
    decide
  rw [lawful.fromStrKey_of_found found supported (lawful.typeBack _),
    if_neg sizes, ofBytes_bytesOf, lawful.keyBack]

theorem LawfulKeys.toStrKey_injective (lawful : LawfulKeys T) :
    Function.Injective (toStrKey (T := T)) := by
  intro first second same
  have back := lawful.fromStrKey_toStrKey first
  rw [same, lawful.fromStrKey_toStrKey second] at back
  exact (Except.ok.inj back).symm

/-- No character is unknown, and the second one has none of the low bits of
the version. -/
def Canonical (s : List UInt8) : Prop :=
  (∀ c ∈ s, decodeChar c ≠ none) ∧
    ∀ c ∈ s[1]?, c = 65 ∨ c = 66 ∨ c = 67 ∨ c = 68

instance (s : List UInt8) : Decidable (Canonical s) :=
  inferInstanceAs (Decidable (_ ∧ ∀ c ∈ s[1]?, _))

private theorem encodeChar_low {value : ℕ} (small : value < 32) :
    (encodeChar value = 65 ∨ encodeChar value = 66 ∨
      encodeChar value = 67 ∨ encodeChar value = 68) ↔ value < 4 := by
  have all : ∀ value : Fin 32, (encodeChar value = 65 ∨
      encodeChar value = 66 ∨ encodeChar value = 67 ∨
      encodeChar value = 68) ↔ value.val < 4 := by decide
  exact all ⟨value, small⟩

/-- The encoded bytes show in the second character whether the first one has
low bits. -/
theorem canonical_encodeB32_iff {first second : UInt8}
    {rest : List UInt8} {groups : ℕ}
    (size : (first :: second :: rest).length = 5 * groups) :
    Canonical (encodeB32 (first :: second :: rest)) ↔
      first.toNat % 8 = 0 := by
  have chars := encodeB32_groups size
  have small := encodeLoop_lt 0 (first :: second :: rest)
  have known : ∀ c ∈ encodeB32 (first :: second :: rest),
      decodeChar c ≠ none := by
    intro c member
    rw [chars] at member
    obtain ⟨value, inside, rfl⟩ := List.mem_map.mp member
    rw [decodeChar_encodeChar (small value inside)]
    exact Option.some_ne_none _
  obtain ⟨one, later, loop⟩ : ∃ one later,
      (encodeLoop 0 (first :: second :: rest)).1 =
        one :: extractOverlappingBits first.toNat second.toNat 5 5 ::
          later := ⟨_, _, rfl⟩
  have value : extractOverlappingBits first.toNat second.toNat 5 5 =
      2 ^ 2 * (first.toNat % 2 ^ 3) + second.toNat / 2 ^ 6 :=
    extractOverlappingBits_eq (by omega) second.toNat_lt
  have inside : extractOverlappingBits first.toNat second.toNat 5 5 < 32 :=
    small _ (by simp [loop])
  have low := encodeChar_low inside
  have byte := second.toNat_lt
  have place : (encodeB32 (first :: second :: rest))[1]? = some
      (encodeChar (extractOverlappingBits first.toNat second.toNat 5 5)) := by
    rw [chars, loop]
    rfl
  unfold Canonical
  rw [and_iff_right known, place]
  simp only [Option.mem_def, Option.some.injEq, forall_eq']
  rw [low, value]
  omega

private theorem shifted_mod (ver : UInt8) : (ver <<< 3).toNat % 8 = 0 := by
  rw [UInt8.toNat_shiftLeft]
  show ver.toNat <<< 3 % 2 ^ 8 % 8 = 0
  rw [Nat.shiftLeft_eq]
  omega

private theorem shift_back {first : UInt8} (low : first.toNat % 8 = 0) :
    first >>> 3 <<< 3 = first := by
  have byte := first.toNat_lt
  apply UInt8.toNat_inj.mp
  rw [UInt8.toNat_shiftLeft, UInt8.toNat_shiftRight]
  show first.toNat >>> 3 <<< 3 % 2 ^ 8 = first.toNat
  rw [Nat.shiftRight_eq_div_pow, Nat.shiftLeft_eq]
  omega

theorem LawfulKeys.eq_toStrKey_iff (lawful : LawfulKeys T)
    (read : fromStrKey T s = .ok key) : s = toStrKey key ↔ Canonical s := by
  obtain ⟨first, k, decoded, version, value, size⟩ := lawful.readAs read
  have length := bytesOf_length (getKeyValue key)
  rw [value] at length
  obtain ⟨second, rest, rfl⟩ : ∃ second rest, k = second :: rest :=
    List.exists_cons_of_ne_nil (List.ne_nil_of_length_pos (by omega))
  have text : toStrKey key = encodeB32 ((first >>> 3 <<< 3) :: second ::
      rest ++ StrKey.checksum ((first >>> 3 <<< 3) :: second :: rest)) := by
    rw [toStrKey, StrKey.toStrKey, version, value]
  have groups (byte : UInt8) : (byte :: second :: (rest ++
      StrKey.checksum (byte :: second :: rest))).length = 5 * 7 := by
    simp only [List.length_cons] at length
    simp only [List.length_cons, List.length_append, StrKey.checksum_length]
    omega
  constructor
  · intro same
    rw [same, text]
    exact (canonical_encodeB32_iff (groups _)).mpr (shifted_mod _)
  · intro canonical
    have encoded : encodeB32 (decodeB32 s) = s :=
      encodeB32_decodeB32 canonical.1 (size.trans (by norm_num : 56 = 8 * 7))
    rw [decoded] at encoded
    rw [← encoded] at canonical
    have low := (canonical_encodeB32_iff (groups first)).mp canonical
    rw [text, shift_back low, encoded]

end Reading

/-- Every key is read back from its text, and a text that a key is read from
is the text of that key if and only if it is canonical. -/
theorem fromStrKey_canonical_iff (publicKey : PublicKey)
    (signerKey : SignerKey) (s : List UInt8) :
    fromStrKey PublicKey (toStrKey publicKey) = .ok publicKey ∧
    fromStrKey SignerKey (toStrKey signerKey) = .ok signerKey ∧
    (fromStrKey PublicKey s = .ok publicKey →
      (s = toStrKey publicKey ↔ Canonical s)) ∧
    (fromStrKey SignerKey s = .ok signerKey →
      (s = toStrKey signerKey ↔ Canonical s)) :=
  ⟨publicKey_lawful.fromStrKey_toStrKey publicKey,
    signerKey_lawful.fromStrKey_toStrKey signerKey,
    publicKey_lawful.eq_toStrKey_iff,
    signerKey_lawful.eq_toStrKey_iff⟩

/-- The text of a key whose last five bits are zero, with an exclamation mark
for its last character. -/
def markedText : List UInt8 :=
  (toStrKey (40 : PublicKey)).dropLast ++ [33]

/-- A key with a low bit in its version byte, and the checksum of these
bytes. -/
def lowBitText : List UInt8 :=
  encodeB32 (49 :: bytesOf 0 ++ StrKey.checksum (49 :: bytesOf 0))

theorem fromStrKey_canonical_iff_marked :
    Canonical (toStrKey (40 : PublicKey)) ∧ ¬ Canonical markedText := by
  obtain ⟨back, _, own, _⟩ := fromStrKey_canonical_iff 40
    (.ed25519 40) (toStrKey (40 : PublicKey))
  obtain ⟨_, _, marked, _⟩ := fromStrKey_canonical_iff 40
    (.ed25519 40) markedText
  have read : fromStrKey PublicKey markedText = .ok 40 := by decide +kernel
  have other : markedText ≠ toStrKey (40 : PublicKey) := by decide +kernel
  refine ⟨(own back).mp rfl, ?_⟩
  intro canonical
  exact other ((marked read).mpr canonical)

/-- Both texts are read as a key, but they are not its text. -/
theorem fromStrKey_accepts_others :
    (fromStrKey PublicKey markedText = .ok 40 ∧
      markedText ≠ toStrKey (40 : PublicKey)) ∧
    (fromStrKey PublicKey lowBitText = .ok 0 ∧
      lowBitText ≠ toStrKey (0 : PublicKey)) := by
  refine ⟨⟨?_, ?_⟩, ?_, ?_⟩
  · decide +kernel
  · decide +kernel
  · decide +kernel
  · decide +kernel

end StellarCore.Crypto
