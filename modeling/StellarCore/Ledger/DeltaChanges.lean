import StellarCore.Ledger.LedgerDelta

/-!
# What a delta stands for

A delta stands for the difference between the state it was opened on and the
state its operations lead to.  `Change.of` is that difference for one key,
and `Reflects` says that a delta shows it for every key.  Recording an
operation and merging a nested delta both keep this, so it does not matter
how the operations are distributed over nested deltas.
-/

namespace StellarCore.Ledger

open StellarCore.Lib

/-! ## Operations on a state -/

/-- The entries by key. -/
abbrev Entries (κ ε : Type) := κ → Option ε

inductive EntryOp (κ ε : Type) where
  | add (entry : ε)
  | modify (entry : ε)
  | delete (key : κ)
  | record (entry : ε)
  deriving DecidableEq, Repr

variable {κ ε η : Type} [LinearOrder κ] {keyOf : ε → κ}

namespace EntryOp

variable (keyOf)

/-- The key an operation changes. -/
def key? : EntryOp κ ε → Option κ
  | .add entry => some (keyOf entry)
  | .modify entry => some (keyOf entry)
  | .delete key => some key
  | .record _ => none

/-- An entry is added where there is none, and modified or deleted where
there is one. -/
def Legal (state : Entries κ ε) : EntryOp κ ε → Prop
  | .add entry => state (keyOf entry) = none
  | .modify entry => state (keyOf entry) ≠ none
  | .delete key => state key ≠ none
  | .record _ => True

def perform (state : Entries κ ε) : EntryOp κ ε → Entries κ ε
  | .add entry => Function.update state (keyOf entry) (some entry)
  | .modify entry => Function.update state (keyOf entry) (some entry)
  | .delete key => Function.update state key none
  | .record _ => state

/-- Record an operation in a delta. -/
def apply (delta : LedgerDelta κ ε η) :
    EntryOp κ ε → Except DeltaFailure (LedgerDelta κ ε η)
  | .add entry => delta.addEntry keyOf entry
  | .modify entry => delta.modEntry keyOf entry
  | .delete key => delta.deleteEntry key
  | .record entry => .ok (delta.recordEntry keyOf entry)

/-- The operations are legal one after the other. -/
def LegalList (state : Entries κ ε) : List (EntryOp κ ε) → Prop
  | [] => True
  | op :: ops =>
      op.Legal keyOf state ∧ LegalList (op.perform keyOf state) ops

def performAll (state : Entries κ ε) (ops : List (EntryOp κ ε)) :
    Entries κ ε :=
  ops.foldl (perform keyOf) state

def Touches (ops : List (EntryOp κ ε)) (key : κ) : Prop :=
  ∃ op ∈ ops, op.key? keyOf = some key

end EntryOp

/-! ## Changes of one key -/

inductive Change (ε : Type) where
  | untouched
  | created (entry : ε)
  | updated (entry : ε)
  | removed
  deriving DecidableEq, Repr

open Classical in
/-- The change from a base to a current value, which may have been written
without being different. -/
noncomputable def Change.of (base current : Option ε) (touched : Prop) :
    Change ε :=
  match base, current with
  | none, none => .untouched
  | none, some entry => .created entry
  | some _, some entry => if touched then .updated entry else .untouched
  | some _, none => .removed

namespace Change

variable {base current : Option ε} {touched touched' : Prop} {entry : ε}

theorem of_eq_created :
    Change.of base current touched = .created entry ↔
      base = none ∧ current = some entry := by
  cases base with
  | none =>
      cases current with
      | none => simp [Change.of]
      | some value => simp [Change.of]
  | some old =>
      cases current with
      | none => simp [Change.of]
      | some value =>
          by_cases written : touched
          · simp [Change.of, written]
          · simp [Change.of, written]

theorem of_eq_updated :
    Change.of base current touched = .updated entry ↔
      base ≠ none ∧ current = some entry ∧ touched := by
  cases base with
  | none =>
      cases current with
      | none => simp [Change.of]
      | some value => simp [Change.of]
  | some old =>
      cases current with
      | none => simp [Change.of]
      | some value =>
          by_cases written : touched
          · simp [Change.of, written]
          · simp [Change.of, written]

theorem of_eq_removed :
    Change.of base current touched = .removed ↔
      base ≠ none ∧ current = none := by
  cases base with
  | none =>
      cases current with
      | none => simp [Change.of]
      | some value => simp [Change.of]
  | some old =>
      cases current with
      | none => simp [Change.of]
      | some value =>
          by_cases written : touched
          · simp [Change.of, written]
          · simp [Change.of, written]

theorem of_eq_untouched (same : ¬ touched → current = base) :
    Change.of base current touched = .untouched ↔
      base = none ∧ current = none ∨ ¬ touched := by
  cases base with
  | none =>
      cases current with
      | none => simp [Change.of]
      | some value =>
          by_cases written : touched
          · simp [Change.of, written]
          · exact absurd (same written) (by simp)
  | some old =>
      cases current with
      | none =>
          by_cases written : touched
          · simp [Change.of, written]
          · exact absurd (same written) (by simp)
      | some value =>
          by_cases written : touched
          · simp [Change.of, written]
          · simp [Change.of, written]

/-- It only matters whether an entry was written that is there before and
after. -/
theorem of_congr (iff : base ≠ none → current ≠ none →
    (touched' ↔ touched)) :
    Change.of base current touched' = Change.of base current touched := by
  cases base with
  | none =>
      cases current with
      | none => rfl
      | some value => rfl
  | some old =>
      cases current with
      | none => rfl
      | some value =>
          have same : touched' = touched := propext (iff (by simp) (by simp))
          rw [same]

end Change

namespace LedgerDelta

/-- What the sets of a delta say about a key. -/
def Shows (delta : LedgerDelta κ ε η) (key : κ) : Change ε → Prop
  | .untouched =>
      delta.mNew.lookup key = none ∧ delta.mMod.lookup key = none ∧
        key ∉ delta.mDelete
  | .created entry =>
      delta.mNew.lookup key = some entry ∧ delta.mMod.lookup key = none ∧
        key ∉ delta.mDelete
  | .updated entry =>
      delta.mNew.lookup key = none ∧ delta.mMod.lookup key = some entry ∧
        key ∉ delta.mDelete
  | .removed =>
      delta.mNew.lookup key = none ∧ delta.mMod.lookup key = none ∧
        key ∈ delta.mDelete

/-- The delta stands for the difference between two states. -/
structure Reflects (keyOf : ε → κ) (delta : LedgerDelta κ ε η)
    (base current : Entries κ ε) (touched : κ → Prop) : Prop where
  shows : ∀ key,
    delta.Shows key (Change.of (base key) (current key) (touched key))
  steady : ∀ key, ¬ touched key → current key = base key
  newKey : ∀ key entry, delta.mNew.lookup key = some entry →
    keyOf entry = key
  modKey : ∀ key entry, delta.mMod.lookup key = some entry →
    keyOf entry = key

variable {delta other : LedgerDelta κ ε η} {base current : Entries κ ε}
  {touched : κ → Prop}

theorem start_reflects (header : η) (base : Entries κ ε) :
    (start header : LedgerDelta κ ε η).Reflects keyOf base base
      (fun _ => False) := by
  constructor
  · intro key
    cases base key with
    | none => exact ⟨rfl, rfl, Finset.notMem_empty key⟩
    | some entry =>
        simp only [Change.of, if_false]
        exact ⟨rfl, rfl, Finset.notMem_empty key⟩
  · exact fun _ _ => rfl
  · intro key entry found
    cases found
  · intro key entry found
    cases found

/-- What a delta shows of a key is all there is to know about it. -/
theorem Shows.unique {key : κ} {change : Change ε}
    (here : delta.Shows key change) (there : other.Shows key change) :
    delta.mNew.lookup key = other.mNew.lookup key ∧
      delta.mMod.lookup key = other.mMod.lookup key ∧
      (key ∈ delta.mDelete ↔ key ∈ other.mDelete) := by
  cases change with
  | untouched =>
      exact ⟨here.1.trans there.1.symm, here.2.1.trans there.2.1.symm,
        iff_of_false here.2.2 there.2.2⟩
  | created entry =>
      exact ⟨here.1.trans there.1.symm, here.2.1.trans there.2.1.symm,
        iff_of_false here.2.2 there.2.2⟩
  | updated entry =>
      exact ⟨here.1.trans there.1.symm, here.2.1.trans there.2.1.symm,
        iff_of_false here.2.2 there.2.2⟩
  | removed =>
      exact ⟨here.1.trans there.1.symm, here.2.1.trans there.2.1.symm,
        iff_of_true here.2.2 there.2.2⟩

theorem Shows.of_new {key : κ} {change : Change ε} {entry : ε}
    (shown : delta.Shows key change)
    (new : delta.mNew.lookup key = some entry) : change = .created entry := by
  cases change with
  | created found =>
      have same := shown.1.symm.trans new
      rw [Option.some.inj same]
  | untouched => exact absurd (shown.1.symm.trans new) (by simp)
  | updated found => exact absurd (shown.1.symm.trans new) (by simp)
  | removed => exact absurd (shown.1.symm.trans new) (by simp)

theorem Shows.of_mod {key : κ} {change : Change ε} {entry : ε}
    (shown : delta.Shows key change)
    (mod : delta.mMod.lookup key = some entry) : change = .updated entry := by
  cases change with
  | updated found =>
      have same := shown.2.1.symm.trans mod
      rw [Option.some.inj same]
  | untouched => exact absurd (shown.2.1.symm.trans mod) (by simp)
  | created found => exact absurd (shown.2.1.symm.trans mod) (by simp)
  | removed => exact absurd (shown.2.1.symm.trans mod) (by simp)

theorem Shows.of_deleted {key : κ} {change : Change ε}
    (shown : delta.Shows key change) (deleted : key ∈ delta.mDelete) :
    change = .removed := by
  cases change with
  | removed => rfl
  | untouched => exact absurd deleted shown.2.2
  | created found => exact absurd deleted shown.2.2
  | updated found => exact absurd deleted shown.2.2

theorem Shows.of_unseen {key : κ} {change : Change ε}
    (shown : delta.Shows key change)
    (noNew : delta.mNew.lookup key = none)
    (noMod : delta.mMod.lookup key = none)
    (notDeleted : key ∉ delta.mDelete) : change = .untouched := by
  cases change with
  | untouched => rfl
  | created found => exact absurd (noNew.symm.trans shown.1) (by simp)
  | updated found => exact absurd (noMod.symm.trans shown.2.1) (by simp)
  | removed => exact absurd shown.2.2 notDeleted

/-- The three sets are disjoint. -/
theorem Reflects.disjoint (reflects : delta.Reflects keyOf base current touched)
    (key : κ) :
    ¬ (key ∈ delta.mNew ∧ key ∈ delta.mMod) ∧
      ¬ (key ∈ delta.mNew ∧ key ∈ delta.mDelete) ∧
      ¬ (key ∈ delta.mMod ∧ key ∈ delta.mDelete) := by
  have here := reflects.shows key
  simp only [← Finmap.lookup_isSome]
  cases change : Change.of (base key) (current key) (touched key) with
  | untouched =>
      rw [change] at here
      simp [here.1, here.2.1]
  | created entry =>
      rw [change] at here
      simp [here.2.1, here.2.2]
  | updated entry =>
      rw [change] at here
      simp [here.1, here.2.2]
  | removed =>
      rw [change] at here
      simp [here.1, here.2.1]

/-! ## Recording one operation -/

/-- A change of one key only. -/
theorem Reflects.update {after : LedgerDelta κ ε η} {key : κ}
    {value : Option ε}
    (reflects : delta.Reflects keyOf base current touched)
    (elsewhere : ∀ asked, asked ≠ key →
      after.mNew.lookup asked = delta.mNew.lookup asked ∧
        after.mMod.lookup asked = delta.mMod.lookup asked ∧
        (asked ∈ after.mDelete ↔ asked ∈ delta.mDelete))
    (here : after.Shows key (Change.of (base key) value True))
    (newKey : ∀ entry, after.mNew.lookup key = some entry →
      keyOf entry = key)
    (modKey : ∀ entry, after.mMod.lookup key = some entry →
      keyOf entry = key) :
    after.Reflects keyOf base (Function.update current key value)
      (fun asked => touched asked ∨ key = asked) := by
  constructor
  · intro asked
    by_cases same : asked = key
    · subst same
      simpa using here
    · obtain ⟨new, mod, del⟩ := elsewhere asked same
      have before := reflects.shows asked
      rw [Function.update_of_ne same]
      have other : ¬ key = asked := fun equal => same equal.symm
      simp only [other, or_false]
      cases change : Change.of (base asked) (current asked)
          (touched asked) with
      | untouched =>
          rw [change] at before
          exact ⟨new.trans before.1, mod.trans before.2.1,
            fun member => before.2.2 (del.mp member)⟩
      | created entry =>
          rw [change] at before
          exact ⟨new.trans before.1, mod.trans before.2.1,
            fun member => before.2.2 (del.mp member)⟩
      | updated entry =>
          rw [change] at before
          exact ⟨new.trans before.1, mod.trans before.2.1,
            fun member => before.2.2 (del.mp member)⟩
      | removed =>
          rw [change] at before
          exact ⟨new.trans before.1, mod.trans before.2.1,
            del.mpr before.2.2⟩
  · intro asked untouched
    rw [not_or] at untouched
    rw [Function.update_of_ne (fun equal => untouched.2 equal.symm)]
    exact reflects.steady asked untouched.1
  · intro asked entry found
    by_cases same : asked = key
    · subst same
      exact newKey entry found
    · rw [(elsewhere asked same).1] at found
      exact reflects.newKey asked entry found
  · intro asked entry found
    by_cases same : asked = key
    · subst same
      exact modKey entry found
    · rw [(elsewhere asked same).2.1] at found
      exact reflects.modKey asked entry found

theorem addEntry_reflects {entry : ε}
    (reflects : delta.Reflects keyOf base current touched)
    (absent : current (keyOf entry) = none) :
    ∃ after, delta.addEntry keyOf entry = .ok after ∧
      after.mCurrentHeader = delta.mCurrentHeader ∧
      after.mPreviousHeaderValue = delta.mPreviousHeaderValue ∧
      after.Reflects keyOf base
        (Function.update current (keyOf entry) (some entry))
        (fun asked => touched asked ∨ keyOf entry = asked) := by
  have before := reflects.shows (keyOf entry)
  rw [absent] at before
  unfold addEntry
  dsimp only
  cases baseValue : base (keyOf entry) with
  | none =>
      rw [baseValue] at before
      obtain ⟨noNew, noMod, notDeleted⟩ := before
      rw [if_neg notDeleted, if_neg (Finmap.lookup_eq_none.mp noNew),
        if_neg (Finmap.lookup_eq_none.mp noMod)]
      refine ⟨_, rfl, rfl, rfl, reflects.update ?_ ?_ ?_ ?_⟩
      · intro asked different
        exact ⟨Finmap.lookup_insert_of_ne _ different, rfl, Iff.rfl⟩
      · rw [baseValue]
        exact ⟨Finmap.lookup_insert _, noMod, notDeleted⟩
      · intro found lookup
        rw [Finmap.lookup_insert] at lookup
        rw [← Option.some.inj lookup]
      · exact fun found lookup => reflects.modKey _ found lookup
  | some old =>
      rw [baseValue] at before
      obtain ⟨noNew, noMod, deleted⟩ := before
      rw [if_pos deleted]
      refine ⟨_, rfl, rfl, rfl, reflects.update ?_ ?_ ?_ ?_⟩
      · intro asked different
        exact ⟨rfl, Finmap.lookup_insert_of_ne _ different,
          by simp [different]⟩
      · simp only [baseValue, Change.of, if_true]
        exact ⟨noNew, Finmap.lookup_insert _, Finset.notMem_erase _ _⟩
      · exact fun found lookup => reflects.newKey _ found lookup
      · intro found lookup
        rw [Finmap.lookup_insert] at lookup
        rw [← Option.some.inj lookup]

theorem modEntry_reflects {entry old : ε}
    (reflects : delta.Reflects keyOf base current touched)
    (present : current (keyOf entry) = some old) :
    ∃ after, delta.modEntry keyOf entry = .ok after ∧
      after.mCurrentHeader = delta.mCurrentHeader ∧
      after.mPreviousHeaderValue = delta.mPreviousHeaderValue ∧
      after.Reflects keyOf base
        (Function.update current (keyOf entry) (some entry))
        (fun asked => touched asked ∨ keyOf entry = asked) := by
  have before := reflects.shows (keyOf entry)
  rw [present] at before
  -- An entry that is in the base is put among the modified ones.
  have modified : ∀ baseEntry, base (keyOf entry) = some baseEntry →
      delta.mNew.lookup (keyOf entry) = none →
      keyOf entry ∉ delta.mDelete →
      LedgerDelta.Reflects keyOf
        { delta with mMod := delta.mMod.insert (keyOf entry) entry } base
        (Function.update current (keyOf entry) (some entry))
        (fun asked => touched asked ∨ keyOf entry = asked) := by
    intro baseEntry baseValue noNew notDeleted
    refine reflects.update ?_ ?_ ?_ ?_
    · intro asked different
      exact ⟨rfl, Finmap.lookup_insert_of_ne _ different, Iff.rfl⟩
    · simp only [baseValue, Change.of, if_true]
      exact ⟨noNew, Finmap.lookup_insert _, notDeleted⟩
    · exact fun found lookup => reflects.newKey _ found lookup
    · intro found lookup
      rw [Finmap.lookup_insert] at lookup
      rw [← Option.some.inj lookup]
  unfold modEntry
  dsimp only
  cases baseValue : base (keyOf entry) with
  | none =>
      rw [baseValue] at before
      obtain ⟨new, noMod, notDeleted⟩ := before
      rw [if_neg (Finmap.lookup_eq_none.mp noMod),
        if_pos (Finmap.mem_of_lookup_eq_some new)]
      refine ⟨_, rfl, rfl, rfl, reflects.update ?_ ?_ ?_ ?_⟩
      · intro asked different
        exact ⟨Finmap.lookup_insert_of_ne _ different, rfl, Iff.rfl⟩
      · rw [baseValue]
        exact ⟨Finmap.lookup_insert _, noMod, notDeleted⟩
      · intro found lookup
        rw [Finmap.lookup_insert] at lookup
        rw [← Option.some.inj lookup]
      · exact fun found lookup => reflects.modKey _ found lookup
  | some baseEntry =>
      rw [baseValue] at before
      by_cases written : touched (keyOf entry)
      · simp only [Change.of, written, if_true] at before
        obtain ⟨noNew, mod, notDeleted⟩ := before
        rw [if_pos (Finmap.mem_of_lookup_eq_some mod)]
        exact ⟨_, rfl, rfl, rfl,
          modified baseEntry baseValue noNew notDeleted⟩
      · simp only [Change.of, written, if_false] at before
        obtain ⟨noNew, noMod, notDeleted⟩ := before
        rw [if_neg (Finmap.lookup_eq_none.mp noMod),
          if_neg (Finmap.lookup_eq_none.mp noNew), if_neg notDeleted]
        exact ⟨_, rfl, rfl, rfl,
          modified baseEntry baseValue noNew notDeleted⟩

theorem deleteEntry_reflects {key : κ} {old : ε}
    (reflects : delta.Reflects keyOf base current touched)
    (present : current key = some old) :
    ∃ after, delta.deleteEntry key = .ok after ∧
      after.mCurrentHeader = delta.mCurrentHeader ∧
      after.mPreviousHeaderValue = delta.mPreviousHeaderValue ∧
      after.Reflects keyOf base (Function.update current key none)
        (fun asked => touched asked ∨ key = asked) := by
  have before := reflects.shows key
  rw [present] at before
  unfold deleteEntry
  cases baseValue : base key with
  | none =>
      rw [baseValue] at before
      obtain ⟨new, noMod, notDeleted⟩ := before
      rw [if_pos (Finmap.mem_of_lookup_eq_some new)]
      refine ⟨_, rfl, rfl, rfl, reflects.update ?_ ?_ ?_ ?_⟩
      · intro asked different
        exact ⟨Finmap.lookup_erase_ne different, rfl, Iff.rfl⟩
      · rw [baseValue]
        exact ⟨Finmap.lookup_erase _ _, noMod, notDeleted⟩
      · intro found lookup
        rw [Finmap.lookup_erase] at lookup
        cases lookup
      · exact fun found lookup => reflects.modKey _ found lookup
  | some baseEntry =>
      rw [baseValue] at before
      obtain ⟨noNew, notDeleted⟩ : delta.mNew.lookup key = none ∧
          key ∉ delta.mDelete := by
        by_cases written : touched key
        · simp only [Change.of, written, if_true] at before
          exact ⟨before.1, before.2.2⟩
        · simp only [Change.of, written, if_false] at before
          exact ⟨before.1, before.2.2⟩
      rw [if_neg (Finmap.lookup_eq_none.mp noNew), if_neg notDeleted]
      refine ⟨_, rfl, rfl, rfl, reflects.update ?_ ?_ ?_ ?_⟩
      · intro asked different
        exact ⟨rfl, Finmap.lookup_erase_ne different, by simp [different]⟩
      · rw [baseValue]
        exact ⟨noNew, Finmap.lookup_erase _ _, Finset.mem_insert_self _ _⟩
      · exact fun found lookup => reflects.newKey _ found lookup
      · intro found lookup
        rw [Finmap.lookup_erase] at lookup
        cases lookup

theorem recordEntry_sets (keyOf : ε → κ) (delta : LedgerDelta κ ε η)
    (entry : ε) :
    (delta.recordEntry keyOf entry).mNew = delta.mNew ∧
      (delta.recordEntry keyOf entry).mMod = delta.mMod ∧
      (delta.recordEntry keyOf entry).mDelete = delta.mDelete ∧
      (delta.recordEntry keyOf entry).mCurrentHeader =
        delta.mCurrentHeader ∧
      (delta.recordEntry keyOf entry).mPreviousHeaderValue =
        delta.mPreviousHeaderValue := by
  unfold recordEntry
  split
  · exact ⟨rfl, rfl, rfl, rfl, rfl⟩
  · exact ⟨rfl, rfl, rfl, rfl, rfl⟩

/-- Old values do not matter for what a delta reflects. -/
theorem Reflects.of_same_sets
    (reflects : delta.Reflects keyOf base current touched)
    (new : other.mNew = delta.mNew) (mod : other.mMod = delta.mMod)
    (del : other.mDelete = delta.mDelete) :
    other.Reflects keyOf base current touched := by
  constructor
  · intro key
    have shown := reflects.shows key
    unfold Shows at shown ⊢
    rw [new, mod, del]
    exact shown
  · exact reflects.steady
  · rw [new]
    exact reflects.newKey
  · rw [mod]
    exact reflects.modKey

theorem Reflects.congr {touched' : κ → Prop} {current' : Entries κ ε}
    (reflects : delta.Reflects keyOf base current touched)
    (same : current' = current)
    (change : ∀ key, Change.of (base key) (current key) (touched' key) =
      Change.of (base key) (current key) (touched key))
    (steady : ∀ key, ¬ touched' key → current key = base key) :
    delta.Reflects keyOf base current' touched' := by
  subst same
  refine ⟨?_, steady, reflects.newKey, reflects.modKey⟩
  intro key
  rw [change]
  exact reflects.shows key

end LedgerDelta

namespace EntryOp

variable {delta : LedgerDelta κ ε η} {base current : Entries κ ε}
  {touched : κ → Prop}

/-- A legal operation is recorded. -/
theorem apply_reflects {op : EntryOp κ ε}
    (reflects : delta.Reflects keyOf base current touched)
    (legal : op.Legal keyOf current) :
    ∃ after, op.apply keyOf delta = .ok after ∧
      after.mCurrentHeader = delta.mCurrentHeader ∧
      after.mPreviousHeaderValue = delta.mPreviousHeaderValue ∧
      after.Reflects keyOf base (op.perform keyOf current)
        (fun key => touched key ∨ op.key? keyOf = some key) := by
  cases op with
  | add entry =>
      have recorded := delta.addEntry_reflects reflects legal
      simpa only [apply, perform, key?, Option.some.injEq] using recorded
  | modify entry =>
      obtain ⟨old, present⟩ := Option.ne_none_iff_exists'.mp legal
      have recorded := delta.modEntry_reflects reflects present
      simpa only [apply, perform, key?, Option.some.injEq] using recorded
  | delete key =>
      obtain ⟨old, present⟩ := Option.ne_none_iff_exists'.mp legal
      have recorded := delta.deleteEntry_reflects reflects present
      simpa only [apply, perform, key?, Option.some.injEq] using recorded
  | record entry =>
      obtain ⟨new, mod, del, header, previous⟩ :=
        delta.recordEntry_sets keyOf entry
      refine ⟨_, rfl, header, previous, ?_⟩
      simpa [key?, perform] using reflects.of_same_sets new mod del

/-- A list of legal operations is recorded. -/
theorem applyAll_reflects {ops : List (EntryOp κ ε)}
    (reflects : delta.Reflects keyOf base current touched)
    (legal : LegalList keyOf current ops) :
    ∃ after, ops.foldlM (apply keyOf) delta = .ok after ∧
      after.mCurrentHeader = delta.mCurrentHeader ∧
      after.mPreviousHeaderValue = delta.mPreviousHeaderValue ∧
      after.Reflects keyOf base (performAll keyOf current ops)
        (fun key => touched key ∨ Touches keyOf ops key) := by
  induction ops generalizing delta current touched with
  | nil =>
      refine ⟨delta, rfl, rfl, rfl, ?_⟩
      simpa [Touches, performAll] using reflects
  | cons op ops ih =>
      obtain ⟨middle, first, header, previous, recorded⟩ :=
        apply_reflects reflects legal.1
      obtain ⟨after, rest, laterHeader, laterPrevious, all⟩ :=
        ih recorded legal.2
      refine ⟨after, ?_, laterHeader.trans header,
        laterPrevious.trans previous, ?_⟩
      · rw [List.foldlM_cons, first]
        exact rest
      · simpa [Touches, performAll, or_assoc] using all

theorem perform_of_ne {op : EntryOp κ ε} {key : κ}
    (other : op.key? keyOf ≠ some key) :
    op.perform keyOf current key = current key := by
  cases op with
  | add entry =>
      apply Function.update_of_ne
      intro same
      exact other (congrArg some same.symm)
  | modify entry =>
      apply Function.update_of_ne
      intro same
      exact other (congrArg some same.symm)
  | delete gone =>
      apply Function.update_of_ne
      intro same
      exact other (congrArg some same.symm)
  | record entry => rfl

omit [LinearOrder κ] in
theorem Legal.congr {op : EntryOp κ ε} {state : Entries κ ε}
    (legal : op.Legal keyOf current)
    (same : ∀ key, op.key? keyOf = some key → state key = current key) :
    op.Legal keyOf state := by
  cases op with
  | add entry => exact (same _ rfl).trans legal
  | modify entry => exact fun absent => legal ((same _ rfl).symm.trans absent)
  | delete key => exact fun absent => legal ((same _ rfl).symm.trans absent)
  | record entry => trivial

/-- The keys of the operations, each as often as it is changed. -/
def keys (keyOf : ε → κ) (ops : List (EntryOp κ ε)) : List κ :=
  ops.filterMap (key? keyOf)

omit [LinearOrder κ] in
theorem touches_iff {ops : List (EntryOp κ ε)} {key : κ} :
    Touches keyOf ops key ↔ key ∈ keys keyOf ops := by
  unfold Touches keys
  rw [List.mem_filterMap]

theorem performAll_of_not_touches {ops : List (EntryOp κ ε)} {key : κ}
    (other : ¬ Touches keyOf ops key) :
    performAll keyOf current ops key = current key := by
  induction ops generalizing current with
  | nil => rfl
  | cons op ops ih =>
      have here : op.key? keyOf ≠ some key :=
        fun same => other ⟨op, List.mem_cons_self, same⟩
      have later : ¬ Touches keyOf ops key := by
        rintro ⟨op, member, same⟩
        exact other ⟨op, List.mem_cons_of_mem _ member, same⟩
      unfold performAll at ih ⊢
      rw [List.foldl_cons, ih later, perform_of_ne here]

/-- Operations on different keys, each legal by itself, are legal in a
row. -/
theorem legalList_of_distinct {ops : List (EntryOp κ ε)}
    (distinct : (keys keyOf ops).Nodup)
    (each : ∀ op ∈ ops, op.Legal keyOf current) :
    LegalList keyOf current ops := by
  induction ops generalizing current with
  | nil => trivial
  | cons op ops ih =>
      refine ⟨each op List.mem_cons_self, ih ?_ ?_⟩
      · unfold keys at distinct ⊢
        rw [List.filterMap_cons] at distinct
        split at distinct
        · exact distinct
        · exact (List.nodup_cons.mp distinct).2
      · intro later member
        refine (each later (List.mem_cons_of_mem _ member)).congr ?_
        intro key laterKey
        apply perform_of_ne
        intro sameKey
        unfold keys at distinct
        rw [List.filterMap_cons, sameKey] at distinct
        exact (List.nodup_cons.mp distinct).1
          (List.mem_filterMap.mpr ⟨later, member, laterKey⟩)

/-- Of operations on different keys, the one on a key decides about it. -/
theorem performAll_of_distinct {ops : List (EntryOp κ ε)}
    {op : EntryOp κ ε} {key : κ} (distinct : (keys keyOf ops).Nodup)
    (member : op ∈ ops) (changed : op.key? keyOf = some key) :
    ∃ state, performAll keyOf current ops key =
      op.perform keyOf state key := by
  induction ops generalizing current with
  | nil => exact absurd member List.not_mem_nil
  | cons first ops ih =>
      unfold keys at distinct
      rw [List.filterMap_cons] at distinct
      rcases List.mem_cons.mp member with here | later
      · subst here
        refine ⟨current, ?_⟩
        rw [changed] at distinct
        have other : ¬ Touches keyOf ops key := by
          rw [touches_iff]
          exact (List.nodup_cons.mp distinct).1
        unfold performAll
        rw [List.foldl_cons]
        exact performAll_of_not_touches other
      · have rest : (keys keyOf ops).Nodup := by
          unfold keys
          split at distinct
          · exact distinct
          · exact (List.nodup_cons.mp distinct).2
        exact ih rest later

end EntryOp

end StellarCore.Ledger
