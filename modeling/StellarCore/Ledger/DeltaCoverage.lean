import StellarCore.Ledger.DeltaMerge

/-!
# What a delta covers

The keys that a delta has in its sets cover every change between the state it
was opened over and the current one, also when entries that are not there are
deleted.  This is less than what `Reflects` says, and all that a rollback
needs.
-/

namespace StellarCore.Ledger

variable {κ ε η : Type} [LinearOrder κ] {keyOf : ε → κ}

namespace LedgerDelta

structure Covers (keyOf : ε → κ) (delta : LedgerDelta κ ε η)
    (base current : Entries κ ε) : Prop where
  unseen : ∀ key, key ∉ delta.mNew → key ∉ delta.mMod →
    key ∉ delta.mDelete → current key = base key
  added : ∀ key ∈ delta.mNew, base key = none
  deleted : ∀ key ∈ delta.mDelete, current key = none
  newKey : ∀ key entry, delta.mNew.lookup key = some entry →
    keyOf entry = key
  modKey : ∀ key entry, delta.mMod.lookup key = some entry →
    keyOf entry = key
  disjoint : ∀ key, ¬ (key ∈ delta.mNew ∧ key ∈ delta.mMod) ∧
    ¬ (key ∈ delta.mNew ∧ key ∈ delta.mDelete) ∧
    ¬ (key ∈ delta.mMod ∧ key ∈ delta.mDelete)

variable {delta other after : LedgerDelta κ ε η}
  {base current final : Entries κ ε}

theorem start_covers (header : η) (base : Entries κ ε) :
    (start header : LedgerDelta κ ε η).Covers keyOf base base where
  unseen := fun _ _ _ _ => rfl
  added := fun key member => absurd member (Finmap.notMem_empty)
  deleted := fun key member => absurd member (Finset.notMem_empty key)
  newKey := nofun
  modKey := nofun
  disjoint := by
    intro key
    simp [start, Finmap.notMem_empty]

/-- What an operation on one key has to keep. -/
theorem Covers.update (covers : delta.Covers keyOf base current) {key : κ}
    {value : Option ε}
    (elsewhere : ∀ asked, asked ≠ key →
      after.mNew.lookup asked = delta.mNew.lookup asked ∧
        after.mMod.lookup asked = delta.mMod.lookup asked ∧
        (asked ∈ after.mDelete ↔ asked ∈ delta.mDelete))
    (unseen : key ∉ after.mNew → key ∉ after.mMod →
      key ∉ after.mDelete → value = base key)
    (added : key ∈ after.mNew → base key = none)
    (deleted : key ∈ after.mDelete → value = none)
    (newKey : ∀ entry, after.mNew.lookup key = some entry →
      keyOf entry = key)
    (modKey : ∀ entry, after.mMod.lookup key = some entry →
      keyOf entry = key)
    (disjoint : ¬ (key ∈ after.mNew ∧ key ∈ after.mMod) ∧
      ¬ (key ∈ after.mNew ∧ key ∈ after.mDelete) ∧
      ¬ (key ∈ after.mMod ∧ key ∈ after.mDelete)) :
    after.Covers keyOf base (Function.update current key value) := by
  have sameNew : ∀ {asked}, asked ≠ key →
      (asked ∈ after.mNew ↔ asked ∈ delta.mNew) := by
    intro asked different
    rw [← Finmap.lookup_isSome, ← Finmap.lookup_isSome,
      (elsewhere asked different).1]
  have sameMod : ∀ {asked}, asked ≠ key →
      (asked ∈ after.mMod ↔ asked ∈ delta.mMod) := by
    intro asked different
    rw [← Finmap.lookup_isSome, ← Finmap.lookup_isSome,
      (elsewhere asked different).2.1]
  have sameDelete : ∀ {asked}, asked ≠ key →
      (asked ∈ after.mDelete ↔ asked ∈ delta.mDelete) :=
    fun different => (elsewhere _ different).2.2
  constructor
  · intro asked notNew notMod notDeleted
    by_cases same : asked = key
    · subst same
      rw [Function.update_self]
      exact unseen notNew notMod notDeleted
    · rw [Function.update_of_ne same]
      exact covers.unseen asked (mt (sameNew same).mpr notNew)
        (mt (sameMod same).mpr notMod) (mt (sameDelete same).mpr notDeleted)
  · intro asked member
    by_cases same : asked = key
    · subst same
      exact added member
    · exact covers.added asked ((sameNew same).mp member)
  · intro asked member
    by_cases same : asked = key
    · subst same
      rw [Function.update_self]
      exact deleted member
    · rw [Function.update_of_ne same]
      exact covers.deleted asked ((sameDelete same).mp member)
  · intro asked entry found
    by_cases same : asked = key
    · subst same
      exact newKey entry found
    · rw [(elsewhere asked same).1] at found
      exact covers.newKey asked entry found
  · intro asked entry found
    by_cases same : asked = key
    · subst same
      exact modKey entry found
    · rw [(elsewhere asked same).2.1] at found
      exact covers.modKey asked entry found
  · intro asked
    by_cases same : asked = key
    · subst same
      exact disjoint
    · rw [sameNew same, sameMod same, sameDelete same]
      exact covers.disjoint asked

theorem addEntry_covers {entry : ε} {value : Option ε}
    (covers : delta.Covers keyOf base current)
    (absent : current (keyOf entry) = none)
    (adds : delta.addEntry keyOf entry = .ok after) :
    after.Covers keyOf base
      (Function.update current (keyOf entry) value) := by
  unfold addEntry at adds
  dsimp only at adds
  split at adds
  · rename_i wasDeleted
    cases adds
    have notNew : keyOf entry ∉ delta.mNew :=
      fun new => (covers.disjoint (keyOf entry)).2.1 ⟨new, wasDeleted⟩
    refine covers.update ?_ ?_ ?_ ?_ ?_ ?_ ?_
    · intro asked different
      exact ⟨rfl, Finmap.lookup_insert_of_ne _ different,
        by simp [different]⟩
    · intro _ notMod
      exact absurd (Finmap.mem_insert.mpr (.inl rfl)) notMod
    · intro new
      exact absurd new notNew
    · intro stillDeleted
      exact absurd stillDeleted (Finset.notMem_erase _ _)
    · exact fun found lookup => covers.newKey _ found lookup
    · intro found lookup
      rw [Finmap.lookup_insert] at lookup
      rw [← Option.some.inj lookup]
    · exact ⟨fun both => notNew both.1, fun both => notNew both.1,
        fun both => Finset.notMem_erase _ _ both.2⟩
  rename_i notDeleted
  split at adds
  · cases adds
  rename_i notNew
  split at adds
  · cases adds
  rename_i notMod
  cases adds
  have baseNone : base (keyOf entry) = none := by
    rw [← covers.unseen _ notNew notMod notDeleted]
    exact absent
  refine covers.update ?_ ?_ ?_ ?_ ?_ ?_ ?_
  · intro asked different
    exact ⟨Finmap.lookup_insert_of_ne _ different, rfl, Iff.rfl⟩
  · intro stillNotNew
    exact absurd (Finmap.mem_insert.mpr (.inl rfl)) stillNotNew
  · exact fun _ => baseNone
  · intro deleted
    exact absurd deleted notDeleted
  · intro found lookup
    rw [Finmap.lookup_insert] at lookup
    rw [← Option.some.inj lookup]
  · exact fun found lookup => covers.modKey _ found lookup
  · exact ⟨fun both => notMod both.2, fun both => notDeleted both.2,
      fun both => notMod both.1⟩

theorem modEntry_covers {entry : ε} {value : Option ε}
    (covers : delta.Covers keyOf base current)
    (modifies : delta.modEntry keyOf entry = .ok after) :
    after.Covers keyOf base
      (Function.update current (keyOf entry) value) := by
  -- An entry that is not new is put among the modified ones.
  have modified : keyOf entry ∉ delta.mNew → keyOf entry ∉ delta.mDelete →
      LedgerDelta.Covers keyOf
        { delta with mMod := delta.mMod.insert (keyOf entry) entry } base
        (Function.update current (keyOf entry) value) := by
    intro notNew notDeleted
    refine covers.update ?_ ?_ ?_ ?_ ?_ ?_ ?_
    · intro asked different
      exact ⟨rfl, Finmap.lookup_insert_of_ne _ different, Iff.rfl⟩
    · intro _ notMod
      exact absurd (Finmap.mem_insert.mpr (.inl rfl)) notMod
    · exact fun new => absurd new notNew
    · exact fun deleted => absurd deleted notDeleted
    · exact fun found lookup => covers.newKey _ found lookup
    · intro found lookup
      rw [Finmap.lookup_insert] at lookup
      rw [← Option.some.inj lookup]
    · exact ⟨fun both => notNew both.1, fun both => notNew both.1,
        fun both => notDeleted both.2⟩
  unfold modEntry at modifies
  dsimp only at modifies
  split at modifies
  · rename_i wasMod
    cases modifies
    exact modified
      (fun new => (covers.disjoint (keyOf entry)).1 ⟨new, wasMod⟩)
      (fun deleted => (covers.disjoint (keyOf entry)).2.2 ⟨wasMod, deleted⟩)
  rename_i notMod
  split at modifies
  · rename_i wasNew
    cases modifies
    have notDeleted : keyOf entry ∉ delta.mDelete :=
      fun deleted => (covers.disjoint (keyOf entry)).2.1 ⟨wasNew, deleted⟩
    refine covers.update ?_ ?_ ?_ ?_ ?_ ?_ ?_
    · intro asked different
      exact ⟨Finmap.lookup_insert_of_ne _ different, rfl, Iff.rfl⟩
    · intro notNew
      exact absurd (Finmap.mem_insert.mpr (.inl rfl)) notNew
    · exact fun _ => covers.added _ wasNew
    · exact fun deleted => absurd deleted notDeleted
    · intro found lookup
      rw [Finmap.lookup_insert] at lookup
      rw [← Option.some.inj lookup]
    · exact fun found lookup => covers.modKey _ found lookup
    · exact ⟨fun both => notMod both.2, fun both => notDeleted both.2,
        fun both => notMod both.1⟩
  rename_i notNew
  split at modifies
  · cases modifies
  rename_i notDeleted
  cases modifies
  exact modified notNew notDeleted

theorem deleteEntry_covers {key : κ}
    (covers : delta.Covers keyOf base current)
    (deletes : delta.deleteEntry key = .ok after) :
    after.Covers keyOf base (Function.update current key none) := by
  unfold deleteEntry at deletes
  split at deletes
  · rename_i wasNew
    cases deletes
    have notNew : key ∉ delta.mNew.erase key := by
      simp [Finmap.mem_erase]
    refine covers.update ?_ ?_ ?_ ?_ ?_ ?_ ?_
    · intro asked different
      exact ⟨Finmap.lookup_erase_ne different, rfl, Iff.rfl⟩
    · exact fun _ _ _ => (covers.added key wasNew).symm
    · exact fun new => absurd new notNew
    · exact fun _ => rfl
    · intro found lookup
      rw [Finmap.lookup_erase] at lookup
      cases lookup
    · exact fun found lookup => covers.modKey _ found lookup
    · exact ⟨fun both => notNew both.1, fun both => notNew both.1,
        (covers.disjoint key).2.2⟩
  rename_i notNew
  split at deletes
  · cases deletes
  cases deletes
  have notMod : key ∉ delta.mMod.erase key := by
    simp [Finmap.mem_erase]
  refine covers.update ?_ ?_ ?_ ?_ ?_ ?_ ?_
  · intro asked different
    exact ⟨rfl, Finmap.lookup_erase_ne different, by simp [different]⟩
  · intro _ _ notDeleted
    exact absurd (Finset.mem_insert_self _ _) notDeleted
  · exact fun new => absurd new notNew
  · exact fun _ => rfl
  · exact fun found lookup => covers.newKey _ found lookup
  · intro found lookup
    rw [Finmap.lookup_erase] at lookup
    cases lookup
  · exact ⟨fun both => notNew both.1, fun both => notNew both.1,
      fun both => notMod both.1⟩

/-- The old values and the header do not matter. -/
theorem Covers.of_same_sets (covers : delta.Covers keyOf base current)
    (sameNew : after.mNew = delta.mNew) (sameMod : after.mMod = delta.mMod)
    (sameDelete : after.mDelete = delta.mDelete) :
    after.Covers keyOf base current := by
  constructor
  · rw [sameNew, sameMod, sameDelete]
    exact covers.unseen
  · rw [sameNew]
    exact covers.added
  · rw [sameDelete]
    exact covers.deleted
  · rw [sameNew]
    exact covers.newKey
  · rw [sameMod]
    exact covers.modKey
  · rw [sameNew, sameMod, sameDelete]
    exact covers.disjoint

/-! ## Merging -/

theorem apply_covers {op : EntryOp κ ε} {key : κ} {value : Option ε}
    (named : op.key? keyOf = some key)
    (covers : delta.Covers keyOf base current)
    (fits : ∀ entry, op = .add entry → current (keyOf entry) = none)
    (gone : ∀ key, op = .delete key → value = none)
    (applied : op.apply keyOf delta = .ok after) :
    after.Covers keyOf base (Function.update current key value) := by
  cases op with
  | add entry =>
      cases named
      exact addEntry_covers covers (fits entry rfl) applied
  | modify entry =>
      cases named
      exact modEntry_covers covers applied
  | delete deleted =>
      cases named
      rw [gone key rfl]
      exact deleteEntry_covers covers applied
  | record entry => cases named

theorem recordEntry_covers (covers : delta.Covers keyOf base current)
    (entry : ε) : (delta.recordEntry keyOf entry).Covers keyOf base
      current := by
  obtain ⟨sameNew, sameMod, sameDelete, -⟩ :=
    recordEntry_sets keyOf delta entry
  exact covers.of_same_sets sameNew sameMod sameDelete

/-- Operations on different keys lead from one state to another, key by
key. -/
theorem foldlM_covers {ops : List (EntryOp κ ε)}
    (distinct : (EntryOp.keys keyOf ops).Nodup)
    (covers : delta.Covers keyOf base current)
    (fits : ∀ entry, .add entry ∈ ops → current (keyOf entry) = none)
    (gone : ∀ key, .delete key ∈ ops → final key = none)
    (folds : ops.foldlM (EntryOp.apply keyOf) delta = .ok after) :
    after.Covers keyOf base (fun key =>
      if key ∈ EntryOp.keys keyOf ops then final key else current key) := by
  induction ops generalizing delta current with
  | nil =>
      cases folds
      simpa [EntryOp.keys] using covers
  | cons op ops ih =>
      rw [List.foldlM_cons] at folds
      cases applied : op.apply keyOf delta with
      | error failure =>
          rw [applied] at folds
          cases folds
      | ok next =>
          rw [applied] at folds
          have goneRest : ∀ key, .delete key ∈ ops → final key = none :=
            fun key member => gone key (List.mem_cons_of_mem _ member)
          cases named : op.key? keyOf with
          | none =>
              have sameKeys : EntryOp.keys keyOf (op :: ops) =
                  EntryOp.keys keyOf ops := by
                unfold EntryOp.keys
                rw [List.filterMap_cons_none named]
              rw [sameKeys] at distinct ⊢
              cases op with
              | record entry =>
                  cases applied
                  exact ih distinct (recordEntry_covers covers entry)
                    (fun entry member =>
                      fits entry (List.mem_cons_of_mem _ member)) goneRest
                    folds
              | add entry => cases named
              | modify entry => cases named
              | delete key => cases named
          | some key =>
              have moreKeys : EntryOp.keys keyOf (op :: ops) =
                  key :: EntryOp.keys keyOf ops := by
                unfold EntryOp.keys
                rw [List.filterMap_cons_some named]
              rw [moreKeys, List.nodup_cons] at distinct
              have coversNext : next.Covers keyOf base
                  (Function.update current key (final key)) := by
                apply apply_covers named covers _ _ applied
                · rintro entry rfl
                  exact fits entry List.mem_cons_self
                · rintro deleted rfl
                  cases named
                  exact gone key List.mem_cons_self
              have fitsRest : ∀ entry, .add entry ∈ ops →
                  Function.update current key (final key) (keyOf entry) =
                    none := by
                intro entry member
                rw [Function.update_of_ne]
                · exact fits entry (List.mem_cons_of_mem _ member)
                · intro same
                  apply distinct.1
                  rw [← same]
                  exact List.mem_filterMap.mpr ⟨.add entry, member, rfl⟩
              have rest := ih distinct.2 coversNext fitsRest goneRest folds
              have sameState : (fun asked =>
                  if asked ∈ EntryOp.keys keyOf ops then final asked
                  else Function.update current key (final key) asked) =
                  (fun asked =>
                    if asked ∈ EntryOp.keys keyOf (op :: ops) then
                      final asked
                    else current asked) := by
                funext asked
                rw [moreKeys]
                by_cases later : asked ∈ EntryOp.keys keyOf ops
                · rw [if_pos later, if_pos (List.mem_cons_of_mem _ later)]
                · by_cases same : asked = key
                  · subst same
                    rw [if_neg later, if_pos List.mem_cons_self,
                      Function.update_self]
                  · rw [if_neg later, Function.update_of_ne same, if_neg]
                    simp [same, later]
              rw [← sameState]
              exact rest

/-- Merging a nested delta: the outer one covers the changes of both. -/
theorem mergeEntries_covers (outer : delta.Covers keyOf base current)
    (inner : other.Covers keyOf current final)
    (merges : delta.mergeEntries keyOf other = .ok after) :
    after.Covers keyOf base final := by
  rw [mergeEntries_eq] at merges
  have keys : EntryOp.keys keyOf (mergeOps keyOf other) =
      other.mDelete.sort (· ≤ ·) ++
        (other.mNew.keys.sort (· ≤ ·) ++ other.mMod.keys.sort (· ≤ ·)) :=
    keys_mergeOps inner.newKey inner.modKey
  have merged := foldlM_covers
    (distinct_mergeOps inner.newKey inner.modKey inner.disjoint) outer
    (by
      intro entry member
      have added : entry ∈ inOrder other.mNew := by
        simpa [mergeOps, previousOp] using member
      obtain ⟨key, found⟩ := mem_inOrder.mp added
      rw [inner.newKey key entry found]
      exact inner.added key (Finmap.mem_of_lookup_eq_some found))
    (by
      intro key member
      have deleted : key ∈ other.mDelete := by
        simpa [mergeOps, previousOp] using member
      exact inner.deleted key deleted) merges
  have same : (fun key =>
      if key ∈ EntryOp.keys keyOf (mergeOps keyOf other) then final key
      else current key) = final := by
    funext key
    split
    · rfl
    · rename_i unseen
      rw [keys] at unseen
      simp only [List.mem_append, Finset.mem_sort, Finmap.mem_keys,
        not_or] at unseen
      exact (inner.unseen key unseen.2.1 unseen.2.2 unseen.1).symm
  rwa [same] at merged

theorem commit_covers [DecidableEq η]
    (outer : delta.Covers keyOf base current)
    (inner : other.Covers keyOf current final)
    (commits : delta.commit keyOf other = .ok after) :
    after.Covers keyOf base final := by
  unfold commit at commits
  split at commits
  · cases commits
  · cases merges : delta.mergeEntries keyOf other with
    | error failure =>
        rw [merges] at commits
        cases commits
    | ok merged =>
        rw [merges] at commits
        cases commits
        exact (mergeEntries_covers outer inner merges).of_same_sets rfl rfl
          rfl

end LedgerDelta

end StellarCore.Ledger
