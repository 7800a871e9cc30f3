import Mathlib.Data.Prod.Lex
import Mathlib.Data.Sum.Order
import StellarCore.Buckets.Merge

/-!
# Entries by their identity

`LedgerCmp.h` orders the records of a bucket by type and then by the fields
that identify an entry of the type.  This is a linear order of the keys, the
one that a merge goes by.
-/

namespace StellarCore.Buckets

/-- Account IDs are `α`, assets `τ` and data names `δ`. -/
inductive LedgerKey (α τ δ : Type) where
  | account (accountID : α)
  | trustLine (accountID : α) (asset : τ)
  | offer (sellerID : α) (offerID : UInt64)
  | data (accountID : α) (dataName : δ)
  deriving DecidableEq

namespace LedgerKey

variable {α τ δ : Type}

/-- `LedgerEntryType`. -/
def type : LedgerKey α τ δ → ℕ
  | .account _ => 0
  | .trustLine _ _ => 1
  | .offer _ _ => 2
  | .data _ _ => 3

def toLexSum : LedgerKey α τ δ →
    α ⊕ₗ ((α ×ₗ τ) ⊕ₗ ((α ×ₗ ℕ) ⊕ₗ (α ×ₗ δ)))
  | .account accountID => toLex (.inl accountID)
  | .trustLine accountID asset =>
      toLex (.inr (toLex (.inl (toLex (accountID, asset)))))
  | .offer sellerID offerID =>
      toLex (.inr (toLex (.inr (toLex (.inl
        (toLex (sellerID, offerID.toNat)))))))
  | .data accountID dataName =>
      toLex (.inr (toLex (.inr (toLex (.inr
        (toLex (accountID, dataName)))))))

theorem toLexSum_injective :
    Function.Injective (toLexSum : LedgerKey α τ δ → _) := by
  intro first second same
  cases first with
  | account first =>
      cases second with
      | account second =>
          cases same
          rfl
      | _ => cases same
  | trustLine first asset =>
      cases second with
      | trustLine second other =>
          cases same
          rfl
      | _ => cases same
  | offer first offerID =>
      cases second with
      | offer second other =>
          simp only [toLexSum, toLex_inj, Sum.inr.injEq, Sum.inl.injEq,
            Prod.mk.injEq, UInt64.toNat_inj] at same
          rw [same.1, same.2]
      | _ => cases same
  | data first dataName =>
      cases second with
      | data second other =>
          cases same
          rfl
      | _ => cases same

variable [LinearOrder α] [LinearOrder τ] [LinearOrder δ]

instance : LinearOrder (LedgerKey α τ δ) :=
  LinearOrder.lift' toLexSum toLexSum_injective

end LedgerKey

/-- The fields of the entry that are not part of its identity are `ρ`. -/
structure LedgerEntry (α τ δ ρ : Type) where
  data : LedgerKey α τ δ
  rest : ρ
  deriving DecidableEq

section Compare

variable {α τ δ ρ : Type} [LinearOrder α] [LinearOrder τ] [LinearOrder δ]

def ledgerEntryIdCmp (a b : LedgerKey α τ δ) : Bool :=
  if a.type < b.type then true
  else if a.type > b.type then false
  else
    match a, b with
    | .account first, .account second => decide (first < second)
    | .trustLine first asset, .trustLine second other =>
        if first < second then true
        else if second < first then false
        else decide (asset < other)
    | .offer first offerID, .offer second other =>
        if first < second then true
        else if second < first then false
        else decide (offerID < other)
    | .data first dataName, .data second other =>
        if first < second then true
        else if second < first then false
        else decide (dataName < other)
    | _, _ => false

def bucketEntryIdCmp
    (a b : BucketEntry (LedgerKey α τ δ) (LedgerEntry α τ δ ρ)) : Bool :=
  match a, b with
  | .liveEntry a, .liveEntry b => ledgerEntryIdCmp a.data b.data
  | .liveEntry a, .deadEntry b => ledgerEntryIdCmp a.data b
  | .deadEntry a, .liveEntry b => ledgerEntryIdCmp a b.data
  | .deadEntry a, .deadEntry b => ledgerEntryIdCmp a b

theorem lexCmp_iff_lt {β : Type} [LinearOrder β] (first second : α)
    (third fourth : β) :
    (if first < second then true
      else if second < first then false
      else decide (third < fourth)) = true ↔
      toLex (first, third) < toLex (second, fourth) := by
  rw [Prod.Lex.toLex_lt_toLex]
  rcases lt_trichotomy first second with less | same | greater
  · simp [less]
  · simp [same]
  · simp [greater.not_gt, greater, greater.ne']

theorem ledgerEntryIdCmp_iff_lt (a b : LedgerKey α τ δ) :
    ledgerEntryIdCmp a b = true ↔ a < b := by
  have lifted : a < b ↔ a.toLexSum < b.toLexSum := Iff.rfl
  rw [lifted]
  unfold ledgerEntryIdCmp
  cases a with
  | account first =>
      cases b with
      | account second =>
          simp [LedgerKey.type, LedgerKey.toLexSum]
      | _ => simp [LedgerKey.type, LedgerKey.toLexSum]
  | trustLine first asset =>
      cases b with
      | trustLine second other =>
          simp only [LedgerKey.type, LedgerKey.toLexSum, lt_irrefl, if_false,
            Sum.Lex.inl_lt_inl_iff, Sum.Lex.inr_lt_inr_iff,
            lexCmp_iff_lt]
      | _ => simp [LedgerKey.type, LedgerKey.toLexSum]
  | offer first offerID =>
      cases b with
      | offer second other =>
          simp only [LedgerKey.type, LedgerKey.toLexSum, lt_irrefl, if_false,
            Sum.Lex.inl_lt_inl_iff, Sum.Lex.inr_lt_inr_iff,
            UInt64.lt_iff_toNat_lt, lexCmp_iff_lt]
      | _ => simp [LedgerKey.type, LedgerKey.toLexSum]
  | data first dataName =>
      cases b with
      | data second other =>
          simp only [LedgerKey.type, LedgerKey.toLexSum, lt_irrefl, if_false,
            Sum.Lex.inr_lt_inr_iff,
            lexCmp_iff_lt]
      | _ => simp [LedgerKey.type, LedgerKey.toLexSum]

/-- The comparison that a merge uses. -/
theorem bucketEntryIdCmp_eq_cmp
    (a b : BucketEntry (LedgerKey α τ δ) (LedgerEntry α τ δ ρ)) :
    bucketEntryIdCmp a b = cmp LedgerEntry.data a b := by
  have compared : ∀ first second : LedgerKey α τ δ,
      ledgerEntryIdCmp first second = decide (first < second) := by
    intro first second
    rw [Bool.eq_iff_iff, ledgerEntryIdCmp_iff_lt, decide_eq_true_iff]
  cases a with
  | liveEntry a =>
      cases b with
      | liveEntry b => exact compared _ _
      | deadEntry b => exact compared _ _
  | deadEntry a =>
      cases b with
      | liveEntry b => exact compared _ _
      | deadEntry b => exact compared _ _

/-- Sorted strictly by identity, as the code compares it. -/
def SortedById
    (bucket : Bucket (LedgerKey α τ δ) (LedgerEntry α τ δ ρ)) : Prop :=
  bucket.Pairwise (fun a b => bucketEntryIdCmp a b = true)

theorem sortedById_iff
    {bucket : Bucket (LedgerKey α τ δ) (LedgerEntry α τ δ ρ)} :
    SortedById bucket ↔ Sorted LedgerEntry.data bucket := by
  unfold SortedById Sorted
  simp only [bucketEntryIdCmp_eq_cmp, cmp, decide_eq_true_eq]

/-- A merge is sorted, and has for each key that is in no shadow the preferred
entry, unless this is a dead one that is not kept. -/
theorem merge_preferred
    {old new : Bucket (LedgerKey α τ δ) (LedgerEntry α τ δ ρ)}
    {shadows : List (Bucket (LedgerKey α τ δ) (LedgerEntry α τ δ ρ))}
    (sortedOld : SortedById old) (sortedNew : SortedById new)
    (sortedShadows : ∀ shadow ∈ shadows, SortedById shadow)
    (keepDeadEntries : Bool) :
    ∃ merged, merge LedgerEntry.data old new shadows keepDeadEntries =
        some merged ∧
      SortedById merged ∧
      (∀ key, key ∈ keys LedgerEntry.data old ∨
          key ∈ keys LedgerEntry.data new →
        ∃! entry, entry.key LedgerEntry.data = key ∧
          Preferred LedgerEntry.data old new entry) ∧
      ∀ entry, entry ∈ merged ↔
        Preferred LedgerEntry.data old new entry ∧
          ¬ Shadowed LedgerEntry.data shadows (entry.key LedgerEntry.data) ∧
          (keepDeadEntries = true ∨ entry.isDead = false) := by
  rw [sortedById_iff] at sortedOld sortedNew
  simp only [sortedById_iff] at sortedShadows ⊢
  obtain ⟨merged, merges, sorted, found⟩ :=
    merge_spec sortedOld sortedNew sortedShadows keepDeadEntries
  refine ⟨merged, merges, sorted, ?_, ?_⟩
  · intro key present
    exact existsUnique_preferred sortedOld sortedNew present
  · intro entry
    rw [sorted.mem_iff_lookup, found, preferred_iff sortedOld sortedNew]
    split
    case isTrue shadowed => simp [shadowed]
    case isFalse clear =>
        rw [Option.filter_eq_some_iff]
        simp [clear, kept]

end Compare

section Witness

/-- An account, one of its trust lines, and an offer. -/
def oldEntries : Bucket (LedgerKey ℕ ℕ ℕ) (LedgerEntry ℕ ℕ ℕ ℕ) :=
  [.liveEntry ⟨.account 1, 10⟩, .liveEntry ⟨.trustLine 1 7, 20⟩,
    .liveEntry ⟨.offer 1 3, 30⟩]

/-- The trust line is deleted, and another offer is made. -/
def newEntries : Bucket (LedgerKey ℕ ℕ ℕ) (LedgerEntry ℕ ℕ ℕ ℕ) :=
  [.deadEntry (.trustLine 1 7), .liveEntry ⟨.offer 1 4, 40⟩]

def deletedOffers : Bucket (LedgerKey ℕ ℕ ℕ) (LedgerEntry ℕ ℕ ℕ ℕ) :=
  [.deadEntry (.offer 1 3)]

theorem merge_preferred_offers :
    ∃ merged, merge LedgerEntry.data oldEntries newEntries
        [deletedOffers] false = some merged ∧
      SortedById merged ∧
      (∀ key, key ∈ keys LedgerEntry.data oldEntries ∨
          key ∈ keys LedgerEntry.data newEntries →
        ∃! entry, entry.key LedgerEntry.data = key ∧
          Preferred LedgerEntry.data oldEntries newEntries entry) ∧
      ∀ entry, entry ∈ merged ↔
        Preferred LedgerEntry.data oldEntries newEntries entry ∧
          ¬ Shadowed LedgerEntry.data [deletedOffers]
            (entry.key LedgerEntry.data) ∧
          (false = true ∨ entry.isDead = false) :=
  merge_preferred (by unfold SortedById; decide)
    (by unfold SortedById; decide)
    (by unfold SortedById; decide) false

end Witness

end StellarCore.Buckets
