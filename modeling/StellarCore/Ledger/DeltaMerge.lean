import StellarCore.Ledger.DeltaChanges

/-!
# Merging a nested delta

Merging records one operation for each key in the sets of the nested delta.
These keys are different, so the operations are legal in a row and lead to
the state the nested delta stands for.
-/

namespace StellarCore.Ledger

open StellarCore.Lib

variable {κ ε η : Type} [LinearOrder κ] {keyOf : ε → κ}

namespace LedgerDelta

variable {delta other : LedgerDelta κ ε η}
  {base current final : Entries κ ε} {touched changed : κ → Prop}

theorem mem_inOrder {map : EntryMap κ ε} {entry : ε} :
    entry ∈ inOrder map ↔ ∃ key, map.lookup key = some entry := by
  unfold inOrder
  rw [List.mem_filterMap]
  constructor
  · rintro ⟨key, _, found⟩
    exact ⟨key, found⟩
  · rintro ⟨key, found⟩
    refine ⟨key, ?_, found⟩
    rw [Finset.mem_sort, Finmap.mem_keys]
    exact Finmap.mem_of_lookup_eq_some found

theorem map_inOrder {map : EntryMap κ ε}
    (keyed : ∀ key entry, map.lookup key = some entry → keyOf entry = key) :
    (inOrder map).map keyOf = map.keys.sort (· ≤ ·) := by
  have each : ∀ keys : List κ, (∀ key ∈ keys, key ∈ map) →
      (keys.filterMap map.lookup).map keyOf = keys := by
    intro keys known
    induction keys with
    | nil => rfl
    | cons key keys ih =>
        obtain ⟨entry, found⟩ :=
          Finmap.mem_iff.mp (known key List.mem_cons_self)
        have rest :=
          ih (fun key member => known key (List.mem_cons_of_mem _ member))
        simp only [List.filterMap_cons, found, List.map_cons,
          keyed key entry found, rest]
  apply each
  intro key member
  rwa [Finset.mem_sort, Finmap.mem_keys] at member

def previousOp (other : LedgerDelta κ ε η) (key : κ) :
    List (EntryOp κ ε) :=
  ((other.mPrevious.lookup key).map EntryOp.record).toList

/-- The operations that `mergeEntries` records in the outer delta. -/
def mergeOps (keyOf : ε → κ) (other : LedgerDelta κ ε η) :
    List (EntryOp κ ε) :=
  (other.mDelete.sort (· ≤ ·)).flatMap (fun d =>
      .delete d :: other.previousOp d) ++
    ((inOrder other.mNew).map .add ++
      (inOrder other.mMod).flatMap (fun m =>
        .modify m :: other.previousOp (keyOf m)))

theorem recordPrevious_eq (delta other : LedgerDelta κ ε η) (key : κ) :
    (other.previousOp key).foldlM (EntryOp.apply keyOf) delta =
      .ok (delta.recordPrevious keyOf other key) := by
  unfold previousOp recordPrevious
  cases other.mPrevious.lookup key with
  | none => rfl
  | some entry => rfl

theorem mergeEntries_eq (delta other : LedgerDelta κ ε η) :
    delta.mergeEntries keyOf other =
      (mergeOps keyOf other).foldlM (EntryOp.apply keyOf) delta := by
  unfold mergeEntries mergeOps
  rw [List.foldlM_append, foldlM_flatMap]
  have deletes : (fun (state : LedgerDelta κ ε η) d =>
      (EntryOp.delete d :: other.previousOp d).foldlM
        (EntryOp.apply keyOf) state) = mergeDeleted keyOf other := by
    funext state d
    rw [List.foldlM_cons]
    unfold mergeDeleted
    congr 1
    funext deleted
    exact recordPrevious_eq deleted other d
  have modifies : (fun (state : LedgerDelta κ ε η) m =>
      (EntryOp.modify m :: other.previousOp (keyOf m)).foldlM
        (EntryOp.apply keyOf) state) = mergeModified keyOf other := by
    funext state m
    rw [List.foldlM_cons]
    unfold mergeModified
    congr 1
    funext modified
    exact recordPrevious_eq modified other (keyOf m)
  rw [deletes]
  congr 1
  funext deleted
  rw [List.foldlM_append, List.foldlM_map]
  congr 1
  funext added
  rw [foldlM_flatMap, modifies]

theorem keys_previousOp (other : LedgerDelta κ ε η) (key : κ) :
    EntryOp.keys keyOf (other.previousOp key) = [] := by
  unfold previousOp
  cases other.mPrevious.lookup key with
  | none => rfl
  | some entry => rfl

/-- Old values add no keys. -/
theorem keys_flatMap_previous {α : Type} {op : α → EntryOp κ ε}
    {key : α → κ} (named : ∀ item, (op item).key? keyOf = some (key item))
    (other : LedgerDelta κ ε η) (items : List α) :
    EntryOp.keys keyOf (items.flatMap (fun item =>
      op item :: other.previousOp (key item))) = items.map key := by
  induction items with
  | nil => rfl
  | cons item items ih =>
      have none : EntryOp.keys keyOf (other.previousOp (key item)) = [] :=
        keys_previousOp other (key item)
      unfold EntryOp.keys at ih none ⊢
      rw [List.flatMap_cons, List.cons_append, List.filterMap_cons, named,
        List.filterMap_append, none, ih]
      rfl

theorem keys_mergeOps
    (newKey : ∀ key entry, other.mNew.lookup key = some entry →
      keyOf entry = key)
    (modKey : ∀ key entry, other.mMod.lookup key = some entry →
      keyOf entry = key) :
    EntryOp.keys keyOf (mergeOps keyOf other) =
      other.mDelete.sort (· ≤ ·) ++
        (other.mNew.keys.sort (· ≤ ·) ++ other.mMod.keys.sort (· ≤ ·)) := by
  have deletes : EntryOp.keys keyOf ((other.mDelete.sort (· ≤ ·)).flatMap
      (fun d => .delete d :: other.previousOp d)) =
        (other.mDelete.sort (· ≤ ·)).map id :=
    keys_flatMap_previous (fun _ => rfl) other _
  have adds : EntryOp.keys keyOf ((inOrder other.mNew).map .add) =
      (inOrder other.mNew).map keyOf := by
    unfold EntryOp.keys
    rw [List.filterMap_map]
    exact congrFun List.filterMap_eq_map _
  have modifies : EntryOp.keys keyOf ((inOrder other.mMod).flatMap
      (fun m => .modify m :: other.previousOp (keyOf m))) =
        (inOrder other.mMod).map keyOf :=
    keys_flatMap_previous (fun _ => rfl) other _
  rw [List.map_id] at deletes
  rw [map_inOrder newKey] at adds
  rw [map_inOrder modKey] at modifies
  unfold EntryOp.keys at deletes adds modifies ⊢
  unfold mergeOps
  rw [List.filterMap_append, List.filterMap_append, deletes, adds, modifies]

theorem distinct_mergeOps
    (newKey : ∀ key entry, other.mNew.lookup key = some entry →
      keyOf entry = key)
    (modKey : ∀ key entry, other.mMod.lookup key = some entry →
      keyOf entry = key)
    (disjoint : ∀ key, ¬ (key ∈ other.mNew ∧ key ∈ other.mMod) ∧
      ¬ (key ∈ other.mNew ∧ key ∈ other.mDelete) ∧
      ¬ (key ∈ other.mMod ∧ key ∈ other.mDelete)) :
    (EntryOp.keys keyOf (mergeOps keyOf other)).Nodup := by
  rw [keys_mergeOps newKey modKey, List.nodup_append',
    List.nodup_append']
  refine ⟨Finset.sort_nodup .., ⟨Finset.sort_nodup .., Finset.sort_nodup ..,
    ?_⟩, ?_⟩
  · intro key new mod
    rw [Finset.mem_sort, Finmap.mem_keys] at new mod
    exact (disjoint key).1 ⟨new, mod⟩
  · intro key deleted written
    rw [Finset.mem_sort] at deleted
    rcases List.mem_append.mp written with new | mod
    · rw [Finset.mem_sort, Finmap.mem_keys] at new
      exact (disjoint key).2.1 ⟨new, deleted⟩
    · rw [Finset.mem_sort, Finmap.mem_keys] at mod
      exact (disjoint key).2.2 ⟨mod, deleted⟩

theorem Reflects.distinct_mergeOps
    (reflects : other.Reflects keyOf current final changed) :
    (EntryOp.keys keyOf (mergeOps keyOf other)).Nodup :=
  LedgerDelta.distinct_mergeOps reflects.newKey reflects.modKey
    reflects.disjoint

/-- What the sets of a delta say about the two states it stands between. -/
theorem Reflects.of_deleted {key : κ}
    (reflects : other.Reflects keyOf current final changed)
    (deleted : key ∈ other.mDelete) :
    current key ≠ none ∧ final key = none ∧ changed key := by
  obtain ⟨present, absent⟩ :=
    Change.of_eq_removed.mp ((reflects.shows key).of_deleted deleted)
  refine ⟨present, absent, ?_⟩
  by_contra untouched
  rw [reflects.steady key untouched] at absent
  exact present absent

theorem Reflects.of_new {key : κ} {entry : ε}
    (reflects : other.Reflects keyOf current final changed)
    (new : other.mNew.lookup key = some entry) :
    current key = none ∧ final key = some entry ∧ changed key := by
  obtain ⟨absent, present⟩ :=
    Change.of_eq_created.mp ((reflects.shows key).of_new new)
  refine ⟨absent, present, ?_⟩
  by_contra untouched
  rw [reflects.steady key untouched, absent] at present
  cases present

theorem Reflects.of_mod {key : κ} {entry : ε}
    (reflects : other.Reflects keyOf current final changed)
    (mod : other.mMod.lookup key = some entry) :
    current key ≠ none ∧ final key = some entry ∧ changed key :=
  Change.of_eq_updated.mp ((reflects.shows key).of_mod mod)

/-- A key in none of the sets has its old value, and was not changed unless
it is absent in both states. -/
theorem Reflects.of_unseen {key : κ}
    (reflects : other.Reflects keyOf current final changed)
    (noNew : other.mNew.lookup key = none)
    (noMod : other.mMod.lookup key = none)
    (notDeleted : key ∉ other.mDelete) :
    final key = current key ∧ (final key ≠ none → ¬ changed key) := by
  rcases (Change.of_eq_untouched (reflects.steady key)).mp
    ((reflects.shows key).of_unseen noNew noMod notDeleted) with
    ⟨absent, stillAbsent⟩ | untouched
  · rw [absent, stillAbsent]
    exact ⟨rfl, fun never => absurd rfl never⟩
  · exact ⟨reflects.steady key untouched, fun _ => untouched⟩

theorem Reflects.legal_mergeOps
    (reflects : other.Reflects keyOf current final changed) :
    ∀ op ∈ mergeOps keyOf other, op.Legal keyOf current := by
  have records : ∀ key, ∀ op ∈ other.previousOp key,
      op.Legal keyOf current := by
    intro key op member
    unfold previousOp at member
    cases found : other.mPrevious.lookup key with
    | none =>
        rw [found] at member
        cases member
    | some entry =>
        rw [found] at member
        rw [List.mem_singleton.mp member]
        trivial
  intro op member
  rcases List.mem_append.mp member with deletes | rest
  · obtain ⟨d, deleted, here⟩ := List.mem_flatMap.mp deletes
    rcases List.mem_cons.mp here with rfl | record
    · exact (reflects.of_deleted ((Finset.mem_sort _).mp deleted)).1
    · exact records d op record
  · rcases List.mem_append.mp rest with adds | modifies
    · obtain ⟨entry, new, rfl⟩ := List.mem_map.mp adds
      obtain ⟨key, found⟩ := mem_inOrder.mp new
      have absent := (reflects.of_new found).1
      rw [← reflects.newKey key entry found] at absent
      exact absent
    · obtain ⟨entry, mod, here⟩ := List.mem_flatMap.mp modifies
      rcases List.mem_cons.mp here with rfl | record
      · obtain ⟨key, found⟩ := mem_inOrder.mp mod
        have present := (reflects.of_mod found).1
        rw [← reflects.modKey key entry found] at present
        exact present
      · exact records _ op record

/-- Operations on different keys that write what the sets say lead to the
state the delta stands for. -/
theorem Reflects.performAll_eq {ops : List (EntryOp κ ε)}
    (reflects : other.Reflects keyOf current final changed)
    (distinct : (EntryOp.keys keyOf ops).Nodup)
    (deletes : ∀ key ∈ other.mDelete, .delete key ∈ ops)
    (adds : ∀ key entry, other.mNew.lookup key = some entry →
      .add entry ∈ ops)
    (modifies : ∀ key entry, other.mMod.lookup key = some entry →
      .modify entry ∈ ops)
    (only : ∀ key, EntryOp.Touches keyOf ops key →
      key ∈ other.mDelete ∨ key ∈ other.mNew ∨ key ∈ other.mMod) :
    EntryOp.performAll keyOf current ops = final := by
  funext key
  by_cases deleted : key ∈ other.mDelete
  · obtain ⟨state, performed⟩ :=
      EntryOp.performAll_of_distinct distinct (deletes key deleted) rfl
    rw [performed, (reflects.of_deleted deleted).2.1]
    exact Function.update_self ..
  · cases new : other.mNew.lookup key with
    | some entry =>
        have named := reflects.newKey key entry new
        obtain ⟨state, performed⟩ :=
          EntryOp.performAll_of_distinct distinct (adds key entry new)
            (congrArg some named)
        rw [performed, (reflects.of_new new).2.1, ← named]
        exact Function.update_self ..
    | none =>
        cases mod : other.mMod.lookup key with
        | some entry =>
            have named := reflects.modKey key entry mod
            obtain ⟨state, performed⟩ :=
              EntryOp.performAll_of_distinct distinct
                (modifies key entry mod) (congrArg some named)
            rw [performed, (reflects.of_mod mod).2.1, ← named]
            exact Function.update_self ..
        | none =>
            rw [(reflects.of_unseen new mod deleted).1]
            apply EntryOp.performAll_of_not_touches
            intro touches
            rcases only key touches with gone | isNew | isMod
            · exact deleted gone
            · exact Finmap.lookup_eq_none.mp new isNew
            · exact Finmap.lookup_eq_none.mp mod isMod

theorem Reflects.perform_mergeOps
    (reflects : other.Reflects keyOf current final changed) :
    EntryOp.performAll keyOf current (mergeOps keyOf other) = final := by
  apply reflects.performAll_eq reflects.distinct_mergeOps
  · intro key deleted
    exact List.mem_append_left _ (List.mem_flatMap.mpr
      ⟨key, (Finset.mem_sort _).mpr deleted, List.mem_cons_self⟩)
  · intro key entry new
    exact List.mem_append_right _ (List.mem_append_left _
      (List.mem_map_of_mem (mem_inOrder.mpr ⟨key, new⟩)))
  · intro key entry mod
    exact List.mem_append_right _ (List.mem_append_right _
      (List.mem_flatMap.mpr ⟨entry, mem_inOrder.mpr ⟨key, mod⟩,
        List.mem_cons_self⟩))
  · intro key touches
    rw [EntryOp.touches_iff,
      keys_mergeOps reflects.newKey reflects.modKey] at touches
    simpa only [List.mem_append, Finset.mem_sort, Finmap.mem_keys]
      using touches

theorem Reflects.touches_mergeOps
    (reflects : other.Reflects keyOf current final changed) (key : κ) :
    (EntryOp.Touches keyOf (mergeOps keyOf other) key → changed key) ∧
      (changed key → final key ≠ none →
        EntryOp.Touches keyOf (mergeOps keyOf other) key) := by
  rw [EntryOp.touches_iff, keys_mergeOps reflects.newKey reflects.modKey]
  simp only [List.mem_append, Finset.mem_sort, Finmap.mem_keys,
    Finmap.mem_iff]
  constructor
  · rintro (deleted | ⟨entry, new⟩ | ⟨entry, mod⟩)
    · exact (reflects.of_deleted deleted).2.2
    · exact (reflects.of_new new).2.2
    · exact (reflects.of_mod mod).2.2
  · intro written present
    by_contra unseen
    simp only [not_or, not_exists] at unseen
    obtain ⟨notDeleted, noNew, noMod⟩ := unseen
    exact (reflects.of_unseen (Option.eq_none_iff_forall_ne_some.mpr noNew)
      (Option.eq_none_iff_forall_ne_some.mpr noMod) notDeleted).2 present
      written

/-- Merging a delta that leads from the current state of the outer one to a
final state makes the outer one lead there. -/
theorem mergeEntries_reflects
    (outer : delta.Reflects keyOf base current touched)
    (inner : other.Reflects keyOf current final changed) :
    ∃ after, delta.mergeEntries keyOf other = .ok after ∧
      after.mCurrentHeader = delta.mCurrentHeader ∧
      after.mPreviousHeaderValue = delta.mPreviousHeaderValue ∧
      after.Reflects keyOf base final
        (fun key => touched key ∨ changed key) := by
  have legal := EntryOp.legalList_of_distinct inner.distinct_mergeOps
    inner.legal_mergeOps
  obtain ⟨after, merged, header, previous, reflects⟩ :=
    EntryOp.applyAll_reflects outer legal
  rw [inner.perform_mergeOps] at reflects
  refine ⟨after, (mergeEntries_eq delta other).trans merged, header, previous,
    reflects.congr rfl ?_ ?_⟩
  · intro key
    have seen := inner.touches_mergeOps key
    apply Change.of_congr
    intro _ present
    constructor
    · rintro (before | written)
      · exact .inl before
      · exact .inr (seen.2 written present)
    · rintro (before | named)
      · exact .inl before
      · exact .inr (seen.1 named)
  · intro key untouched
    rw [not_or] at untouched
    rw [inner.steady key untouched.2, outer.steady key untouched.1]

theorem commit_reflects [DecidableEq η]
    (outer : delta.Reflects keyOf base current touched)
    (inner : other.Reflects keyOf current final changed)
    (sameHeader : other.mPreviousHeaderValue = delta.mCurrentHeader) :
    ∃ after, delta.commit keyOf other = .ok after ∧
      after.mPreviousHeaderValue = delta.mPreviousHeaderValue ∧
      after.Reflects keyOf base final
        (fun key => touched key ∨ changed key) := by
  obtain ⟨merged, result, _, previous, reflects⟩ :=
    mergeEntries_reflects outer inner
  refine ⟨{ merged with mCurrentHeader := other.mCurrentHeader }, ?_,
    previous, reflects.of_same_sets rfl rfl rfl⟩
  unfold commit
  rw [if_neg (not_not.mpr sameHeader), result]
  rfl

/-- The live and dead entries of a delta, put into a state. -/
def applyEntries (keyOf : ε → κ) (state : Entries κ ε)
    (live : List ε) (dead : List κ) : Entries κ ε :=
  dead.foldl (fun state key => Function.update state key none)
    (live.foldl (fun state entry =>
      Function.update state (keyOf entry) (some entry)) state)

/-- The operations that write the live and dead entries. -/
def entryOps (delta : LedgerDelta κ ε η) : List (EntryOp κ ε) :=
  (inOrder delta.mNew).map .add ++
    ((inOrder delta.mMod).map .modify ++
      (delta.mDelete.sort (· ≤ ·)).map .delete)

theorem applyEntries_eq (delta : LedgerDelta κ ε η) :
    applyEntries keyOf base delta.getLiveEntries delta.getDeadEntries =
      EntryOp.performAll keyOf base delta.entryOps := by
  unfold applyEntries getLiveEntries getDeadEntries EntryOp.performAll
    entryOps
  rw [List.foldl_append, List.foldl_append, List.foldl_append,
    List.foldl_map, List.foldl_map, List.foldl_map]
  rfl

theorem Reflects.keys_entryOps
    (reflects : delta.Reflects keyOf base current touched) :
    EntryOp.keys keyOf delta.entryOps =
      delta.mNew.keys.sort (· ≤ ·) ++
        (delta.mMod.keys.sort (· ≤ ·) ++ delta.mDelete.sort (· ≤ ·)) := by
  have adds : EntryOp.keys keyOf ((inOrder delta.mNew).map .add) =
      (inOrder delta.mNew).map keyOf := by
    unfold EntryOp.keys
    rw [List.filterMap_map]
    exact congrFun List.filterMap_eq_map _
  have modifies : EntryOp.keys keyOf ((inOrder delta.mMod).map .modify) =
      (inOrder delta.mMod).map keyOf := by
    unfold EntryOp.keys
    rw [List.filterMap_map]
    exact congrFun List.filterMap_eq_map _
  have deletes : EntryOp.keys keyOf
      ((delta.mDelete.sort (· ≤ ·)).map .delete) =
        (delta.mDelete.sort (· ≤ ·)).map id := by
    unfold EntryOp.keys
    rw [List.filterMap_map]
    exact congrFun List.filterMap_eq_map _
  rw [map_inOrder reflects.newKey] at adds
  rw [map_inOrder reflects.modKey] at modifies
  rw [List.map_id] at deletes
  unfold EntryOp.keys at deletes adds modifies ⊢
  unfold entryOps
  rw [List.filterMap_append, List.filterMap_append, deletes, adds, modifies]

theorem Reflects.applyEntries
    (reflects : delta.Reflects keyOf base current touched) :
    applyEntries keyOf base delta.getLiveEntries delta.getDeadEntries =
      current := by
  rw [applyEntries_eq]
  apply reflects.performAll_eq
  · rw [reflects.keys_entryOps, List.nodup_append', List.nodup_append']
    refine ⟨Finset.sort_nodup .., ⟨Finset.sort_nodup ..,
      Finset.sort_nodup .., ?_⟩, ?_⟩
    · intro key mod deleted
      rw [Finset.mem_sort, Finmap.mem_keys] at mod
      rw [Finset.mem_sort] at deleted
      exact (reflects.disjoint key).2.2 ⟨mod, deleted⟩
    · intro key new other
      rw [Finset.mem_sort, Finmap.mem_keys] at new
      rcases List.mem_append.mp other with mod | deleted
      · rw [Finset.mem_sort, Finmap.mem_keys] at mod
        exact (reflects.disjoint key).1 ⟨new, mod⟩
      · rw [Finset.mem_sort] at deleted
        exact (reflects.disjoint key).2.1 ⟨new, deleted⟩
  · intro key deleted
    exact List.mem_append_right _ (List.mem_append_right _
      (List.mem_map_of_mem ((Finset.mem_sort _).mpr deleted)))
  · intro key entry new
    exact List.mem_append_left _
      (List.mem_map_of_mem (mem_inOrder.mpr ⟨key, new⟩))
  · intro key entry mod
    exact List.mem_append_right _ (List.mem_append_left _
      (List.mem_map_of_mem (mem_inOrder.mpr ⟨key, mod⟩)))
  · intro key touches
    rw [EntryOp.touches_iff, reflects.keys_entryOps] at touches
    simp only [List.mem_append, Finset.mem_sort, Finmap.mem_keys]
      at touches
    rcases touches with new | mod | deleted
    · exact .inr (.inl new)
    · exact .inr (.inr mod)
    · exact .inl deleted

end LedgerDelta

end StellarCore.Ledger
