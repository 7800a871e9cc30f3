import StellarCore.Crypto.CanonicalKeys
import StellarCore.Transactions.OfferExchange

/-!
# Assets in the database

The columns of an asset are its type, the characters of its code and the text
of its issuer.  The key of a trust line and the search for offers leave the
type out; among valid assets it can be told from the length of the code.
-/

namespace StellarCore.Transactions

open StellarCore.Lib StellarCore.Crypto

/-! ## Codes as strings -/

def strToAssetCode (size : ℕ) (str : List UInt8) : Vector UInt8 size :=
  let n := min size str.length
  Vector.ofFn fun i => if i.val < n then str.getD i.val 0 else 0

/-! ## Columns -/

/-- The columns of the asset that an offer sells or buys, `none` for NULL. -/
structure AssetColumns where
  assettype : ℕ
  assetcode : Option (List UInt8)
  issuer : Option (List UInt8)

/-- The columns as `OfferFrame::storeUpdateHelper` sets them. -/
def Asset.columns : Asset → AssetColumns
  | .native => ⟨0, none, none⟩
  | .alphaNum4 assetCode issuer =>
      ⟨1, some (assetCodeToStr assetCode), some (KeyUtils.toStrKey issuer)⟩
  | .alphaNum12 assetCode issuer =>
      ⟨2, some (assetCodeToStr assetCode), some (KeyUtils.toStrKey issuer)⟩

/-- The condition on one asset in the query of `loadBestOffers`. -/
def Asset.selects : Asset → AssetColumns → Bool
  | .native, row => row.assettype = 0 && row.issuer = none
  | .alphaNum4 assetCode issuer, row =>
      row.assetcode = some (assetCodeToStr assetCode) &&
        row.issuer = some (KeyUtils.toStrKey issuer)
  | .alphaNum12 assetCode issuer, row =>
      row.assetcode = some (assetCodeToStr assetCode) &&
        row.issuer = some (KeyUtils.toStrKey issuer)

inductive ColumnFailure where
  | badDatabaseState
  | invalidArgument (reason : InvalidArgument)

/-- What `loadOffers` makes of the columns; the type is checked first. -/
def AssetColumns.load (row : AssetColumns) : Except ColumnFailure Asset :=
  if row.assettype > 2 then
    .error .badDatabaseState
  else if row.assettype = 0 then
    .ok .native
  else
    match row.assetcode, row.issuer with
    | some code, some issuer =>
        match KeyUtils.fromStrKey PublicKey issuer with
        | .error reason => .error (.invalidArgument reason)
        | .ok issuer =>
            if row.assettype = 2 then
              .ok (.alphaNum12 (strToAssetCode 12 code) issuer)
            else
              .ok (.alphaNum4 (strToAssetCode 4 code) issuer)
    | _, _ => .error .badDatabaseState

/-- The columns of `TrustFrame::getKeyFields`: account, issuer and code. -/
def trustLineKeyFields (accountID : AccountID) (asset : Asset) :
    List UInt8 × List UInt8 × List UInt8 :=
  (KeyUtils.toStrKey accountID,
    match asset with
    | .native => []
    | .alphaNum4 _ issuer => KeyUtils.toStrKey issuer
    | .alphaNum12 _ issuer => KeyUtils.toStrKey issuer,
    asset.codeStr)

/-! ## Valid codes -/

section Codes

variable {size : ℕ}

/-- After a zero the check only lets zeros pass. -/
private theorem codeLength_rest {code : List UInt8} {count charcount : ℕ}
    (checked : Asset.codeLength true count code = some charcount) :
    charcount = count ∧ code = List.replicate code.length 0 := by
  induction code with
  | nil => exact ⟨(Option.some.inj checked).symm, rfl⟩
  | cons byte rest ih =>
      unfold Asset.codeLength at checked
      by_cases zero : byte = 0
      · rw [if_pos zero] at checked
        obtain ⟨same, zeros⟩ := ih checked
        refine ⟨same, ?_⟩
        rw [List.length_cons, List.replicate_succ, ← zeros, zero]
      · rw [if_neg zero, if_pos rfl] at checked
        cases checked

/-- A code that passes the check is its string, filled up with zeros. -/
theorem codeLength_eq {code : List UInt8} {count charcount : ℕ}
    (checked : Asset.codeLength false count code = some charcount) :
    charcount = count + (code.takeWhile (fun c => c ≠ 0)).length ∧
      code = code.takeWhile (fun c => c ≠ 0) ++
        List.replicate (code.length -
          (code.takeWhile (fun c => c ≠ 0)).length) 0 := by
  induction code generalizing count with
  | nil => exact ⟨(Option.some.inj checked).symm, rfl⟩
  | cons byte rest ih =>
      unfold Asset.codeLength at checked
      by_cases zero : byte = 0
      · subst zero
        rw [if_pos rfl] at checked
        obtain ⟨same, zeros⟩ := codeLength_rest checked
        simp only [ne_eq, not_true_eq_false, decide_false,
          List.takeWhile_cons_of_neg, Bool.false_eq_true,
          not_false_eq_true, List.length_nil, Nat.add_zero, Nat.sub_zero,
          List.nil_append, List.length_cons, List.replicate_succ]
        exact ⟨same, by rw [← zeros]⟩
      · rw [if_neg zero, if_neg Bool.false_ne_true] at checked
        split at checked
        · cases checked
        · obtain ⟨same, filled⟩ := ih checked
          rw [List.takeWhile_cons_of_pos (by simpa using zero)]
          simp only [List.length_cons, Nat.add_sub_add_right,
            List.cons_append]
          refine ⟨by omega, ?_⟩
          rw [← filled]

theorem strToAssetCode_eq {str : List UInt8} {code : Vector UInt8 size}
    (filled : code.toList =
      str ++ List.replicate (size - str.length) 0) :
    strToAssetCode size str = code := by
  have length := congrArg List.length filled
  rw [Vector.length_toList, List.length_append, List.length_replicate]
    at length
  apply Vector.ext
  intro i inside
  have bound : i < (str ++ List.replicate (size - str.length) 0).length := by
    rw [List.length_append, List.length_replicate]
    omega
  have entry : code[i] =
      (str ++ List.replicate (size - str.length) 0)[i] := by
    simp only [← filled, Vector.getElem_toList]
  rw [entry, strToAssetCode, Vector.getElem_ofFn, List.getElem_append]
  by_cases within : i < str.length
  · have low : i < min size str.length := by omega
    rw [if_pos low, dif_pos within, List.getD_eq_getElem?_getD,
      List.getElem?_eq_getElem within, Option.getD_some]
  · have high : ¬ i < min size str.length := by omega
    rw [if_neg high, dif_neg within, List.getElem_replicate]

theorem codeLength_assetCodeToStr {code : Vector UInt8 size}
    {charcount : ℕ}
    (checked : Asset.codeLength false 0 code.toList = some charcount) :
    (assetCodeToStr code).length = charcount ∧
      strToAssetCode size (assetCodeToStr code) = code := by
  obtain ⟨count, filled⟩ := codeLength_eq checked
  rw [Vector.length_toList] at filled
  rw [Nat.zero_add] at count
  exact ⟨count.symm, strToAssetCode_eq filled⟩

end Codes

/-! ## Valid assets -/

section Valid

variable {a b : Asset} {issuer : AccountID}

theorem alphaNum4_restored {code : Vector UInt8 4}
    (valid : (Asset.alphaNum4 code issuer).isAssetValid = true) :
    strToAssetCode 4 (assetCodeToStr code) = code ∧
      (assetCodeToStr code).length ≤ 4 := by
  have short : (assetCodeToStr code).length ≤ 4 := by
    have sublist := (List.takeWhile_sublist (l := code.toList)
      (fun c => decide (c ≠ 0))).length_le
    rwa [Vector.length_toList] at sublist
  refine ⟨?_, short⟩
  cases checked : Asset.codeLength false 0 code.toList with
  | none => simp [Asset.isAssetValid, checked] at valid
  | some charcount => exact (codeLength_assetCodeToStr checked).2

theorem alphaNum12_restored {code : Vector UInt8 12}
    (valid : (Asset.alphaNum12 code issuer).isAssetValid = true) :
    strToAssetCode 12 (assetCodeToStr code) = code ∧
      4 < (assetCodeToStr code).length := by
  cases checked : Asset.codeLength false 0 code.toList with
  | none => simp [Asset.isAssetValid, checked] at valid
  | some charcount =>
      have long : 4 < charcount := by
        simpa [Asset.isAssetValid, checked] using valid
      obtain ⟨count, restored⟩ := codeLength_assetCodeToStr checked
      exact ⟨restored, by omega⟩

/-- The length of the string tells the two types apart. -/
theorem eq_of_codeStr_eq (validA : a.isAssetValid = true)
    (validB : b.isAssetValid = true) (creditA : a ≠ .native)
    (creditB : b ≠ .native) (code : a.codeStr = b.codeStr)
    (issuers : a.getIssuer = b.getIssuer) : a = b := by
  cases a with
  | native => exact absurd rfl creditA
  | alphaNum4 codeA issuerA =>
      obtain ⟨restoredA, short⟩ := alphaNum4_restored validA
      cases b with
      | native => exact absurd rfl creditB
      | alphaNum4 codeB issuerB =>
          obtain ⟨restoredB, _⟩ := alphaNum4_restored validB
          simp only [Asset.codeStr, Asset.getIssuer] at code issuers
          rw [← restoredA, ← restoredB, code, issuers]
      | alphaNum12 codeB issuerB =>
          have long := (alphaNum12_restored validB).2
          simp only [Asset.codeStr] at code
          rw [code] at short
          omega
  | alphaNum12 codeA issuerA =>
      obtain ⟨restoredA, long⟩ := alphaNum12_restored validA
      cases b with
      | native => exact absurd rfl creditB
      | alphaNum4 codeB issuerB =>
          have short := (alphaNum4_restored validB).2
          simp only [Asset.codeStr] at code
          rw [code] at long
          omega
      | alphaNum12 codeB issuerB =>
          obtain ⟨restoredB, _⟩ := alphaNum12_restored validB
          simp only [Asset.codeStr, Asset.getIssuer] at code issuers
          rw [← restoredA, ← restoredB, code, issuers]

/-- The condition of a credit asset, without its type. -/
theorem selects_iff_credit (credit : a ≠ .native) {row : AssetColumns} :
    a.selects row = true ↔ row.assetcode = some a.codeStr ∧
      row.issuer = some (KeyUtils.toStrKey a.getIssuer) := by
  cases a with
  | native => exact absurd rfl credit
  | alphaNum4 code issuer =>
      rw [Asset.selects, Bool.and_eq_true, decide_eq_true_eq,
        decide_eq_true_eq]
      rfl
  | alphaNum12 code issuer =>
      rw [Asset.selects, Bool.and_eq_true, decide_eq_true_eq,
        decide_eq_true_eq]
      rfl

theorem columns_credit (credit : b ≠ .native) :
    b.columns.assetcode = some b.codeStr ∧
      b.columns.issuer = some (KeyUtils.toStrKey b.getIssuer) ∧
      b.columns.assettype ≠ 0 := by
  cases b with
  | native => exact absurd rfl credit
  | alphaNum4 code issuer => exact ⟨rfl, rfl, by simp [Asset.columns]⟩
  | alphaNum12 code issuer => exact ⟨rfl, rfl, by simp [Asset.columns]⟩

/-- The search for an asset finds the rows of this asset only. -/
theorem selects_columns_iff (validA : a.isAssetValid = true)
    (validB : b.isAssetValid = true) :
    a.selects b.columns = true ↔ a = b := by
  by_cases creditA : a = .native
  · subst creditA
    by_cases creditB : b = .native
    · subst creditB
      decide
    · obtain ⟨_, issuer, _⟩ := columns_credit creditB
      simp [Asset.selects, issuer, Ne.symm creditB]
  · rw [selects_iff_credit creditA]
    by_cases creditB : b = .native
    · subst creditB
      simp [Asset.columns, creditA]
    · obtain ⟨code, issuer, _⟩ := columns_credit creditB
      rw [code, issuer, Option.some.injEq, Option.some.injEq]
      constructor
      · rintro ⟨sameCode, sameIssuer⟩
        exact eq_of_codeStr_eq validA validB creditA creditB sameCode.symm
          (publicKey_lawful.toStrKey_injective sameIssuer).symm
      · rintro rfl
        exact ⟨rfl, rfl⟩

/-- The order book compares assets as the query compares their columns. -/
theorem matchesColumn_eq_selects (a b : Asset) :
    a.matchesColumn b = a.selects b.columns := by
  rw [Bool.eq_iff_iff]
  unfold Asset.matchesColumn
  by_cases creditA : a = .native
  · subst creditA
    by_cases creditB : b = .native
    · subst creditB
      decide
    · obtain ⟨_, issuer, _⟩ := columns_credit creditB
      simp [Asset.selects, issuer, creditB]
  · rw [if_neg creditA, selects_iff_credit creditA]
    by_cases creditB : b = .native
    · subst creditB
      simp [Asset.columns]
    · obtain ⟨code, issuer, _⟩ := columns_credit creditB
      have issuers : a.getIssuer = b.getIssuer ↔
          KeyUtils.toStrKey b.getIssuer = KeyUtils.toStrKey a.getIssuer := by
        constructor
        · intro same
          rw [same]
        · intro same
          exact (publicKey_lawful.toStrKey_injective same).symm
      rw [code, issuer, Option.some_inj, Option.some_inj, ← issuers,
        Bool.and_eq_true, Bool.and_eq_true, decide_eq_true_eq,
        decide_eq_true_eq, decide_eq_true_eq]
      constructor
      · rintro ⟨⟨_, sameCode⟩, sameIssuer⟩
        exact ⟨sameCode.symm, sameIssuer⟩
      · rintro ⟨sameCode, sameIssuer⟩
        exact ⟨⟨creditB, sameCode.symm⟩, sameIssuer⟩

/-- A valid asset is loaded from its columns. -/
theorem load_columns (valid : b.isAssetValid = true) :
    b.columns.load = .ok b := by
  cases b with
  | native => rfl
  | alphaNum4 code issuer =>
      have restored := (alphaNum4_restored valid).1
      have issued := publicKey_lawful.fromStrKey_toStrKey issuer
      simp [AssetColumns.load, Asset.columns, issued, restored]
  | alphaNum12 code issuer =>
      have restored := (alphaNum12_restored valid).1
      have issued := publicKey_lawful.fromStrKey_toStrKey issuer
      simp [AssetColumns.load, Asset.columns, issued, restored]

theorem trustLineKeyFields_injective (validA : a.isAssetValid = true)
    (validB : b.isAssetValid = true) (creditA : a ≠ .native)
    (creditB : b ≠ .native) {first second : AccountID}
    (same : trustLineKeyFields first a = trustLineKeyFields second b) :
    first = second ∧ a = b := by
  have issued (asset : Asset) (credit : asset ≠ .native)
      (accountID : AccountID) :
      (trustLineKeyFields accountID asset).2.1 =
        KeyUtils.toStrKey asset.getIssuer := by
    cases asset with
    | native => exact absurd rfl credit
    | alphaNum4 code issuer => rfl
    | alphaNum12 code issuer => rfl
  have account := congrArg Prod.fst same
  have issuers := congrArg (fun fields => fields.2.1) same
  have codes : a.codeStr = b.codeStr :=
    congrArg (fun fields => fields.2.2) same
  simp only [issued a creditA, issued b creditB] at issuers
  exact ⟨publicKey_lawful.toStrKey_injective account,
    eq_of_codeStr_eq validA validB creditA creditB codes
      (publicKey_lawful.toStrKey_injective issuers)⟩

end Valid

/-- Code and issuer determine a valid credit asset, its code is restored from
the string, and so the columns without the type find and load it. -/
theorem assetColumns_exact (a b : Asset) (validA : a.isAssetValid = true)
    (validB : b.isAssetValid = true) :
    (a ≠ .native → b ≠ .native → a.codeStr = b.codeStr →
      a.getIssuer = b.getIssuer → a = b) ∧
    (∀ code issuer, a = .alphaNum4 code issuer →
      strToAssetCode 4 a.codeStr = code) ∧
    (∀ code issuer, a = .alphaNum12 code issuer →
      strToAssetCode 12 a.codeStr = code) ∧
    (a ≠ .native → b ≠ .native → ∀ first second,
      trustLineKeyFields first a = trustLineKeyFields second b →
        first = second ∧ a = b) ∧
    (a.selects b.columns = true ↔ a = b) ∧
    b.columns.load = .ok b := by
  refine ⟨eq_of_codeStr_eq validA validB, ?_, ?_, ?_,
    selects_columns_iff validA validB, load_columns validB⟩
  · rintro code issuer rfl
    exact (alphaNum4_restored validA).1
  · rintro code issuer rfl
    exact (alphaNum12_restored validA).1
  · intro creditA creditB first second same
    exact trustLineKeyFields_injective validA validB creditA creditB same

/-- The code USD of four characters, and USDT5 of twelve. -/
theorem assetColumns_exact_dollars :
    (Asset.alphaNum4 #v[85, 83, 68, 0] 1).selects
        (Asset.alphaNum12
          #v[85, 83, 68, 84, 53, 0, 0, 0, 0, 0, 0, 0] 1).columns =
      false ∧
    (Asset.alphaNum4 #v[85, 83, 68, 0] 1).columns.load =
      .ok (.alphaNum4 #v[85, 83, 68, 0] 1) := by
  have four : (Asset.alphaNum4 #v[85, 83, 68, 0] 1).isAssetValid = true := by
    decide
  have twelve : (Asset.alphaNum12
      #v[85, 83, 68, 84, 53, 0, 0, 0, 0, 0, 0, 0] 1).isAssetValid =
        true := by
    decide
  obtain ⟨_, _, _, _, selected, _⟩ :=
    assetColumns_exact _ _ four twelve
  obtain ⟨_, _, _, _, _, loaded⟩ := assetColumns_exact _ _ four four
  refine ⟨?_, loaded⟩
  rw [Bool.eq_false_iff]
  intro found
  cases selected.mp found

end StellarCore.Transactions
