import StellarCore.Ledger.DeltaCoverage
import StellarCore.Ledger.EntryStore

/-!
# The entry cache and the database

The cache only has what a query of the database would return.  A store
flushes its key before it changes the tables, and a rollback flushes the keys
of its delta: these cover every key whose rows differ from the savepoint.
-/

namespace StellarCore.Ledger

open StellarCore.Lib

variable {α β ρ φ σ η : Type} [LinearOrder α] [LinearOrder β]
  [LinearOrder σ]

namespace EntryStore

/-- Every cached entry, and every cached absence, is what a query returns. -/
def Coherent (store : EntryStore α β ρ φ σ η) : Prop :=
  ∀ {key cached}, store.cache.find? key = some cached →
    cached = store.db.select key

/-- Every delta covers the changes since its savepoint. -/
def Covered (db : Tables α β ρ φ σ) :
    List (Scope α β ρ φ σ η) → Prop
  | [] => True
  | scope :: scopes =>
      scope.delta.Covers ledgerEntryKey scope.savepoint.select db.select ∧
        Covered scope.savepoint scopes

structure Sound (store : EntryStore α β ρ φ σ η) : Prop where
  coherent : store.Coherent
  covered : Covered store.db store.scopes

/-- The second store has no more in its cache, and the same tables and
scopes. -/
structure Narrows (store after : EntryStore α β ρ φ σ η) : Prop where
  cached : ∀ {key cached}, after.cache.find? key = some cached →
    store.cache.find? key = some cached
  db : after.db = store.db
  scopes : after.scopes = store.scopes

/-- A change of the rows of one key that the innermost delta is told of. -/
structure Writes (store after : EntryStore α β ρ φ σ η)
    (key : LedgerKey α β) : Prop where
  elsewhere : ∀ other, other ≠ key →
    after.db.select other = store.db.select other
  flushed : after.cache.find? key = none
  cached : ∀ {key cached}, after.cache.find? key = some cached →
    store.cache.find? key = some cached
  recorded : ∃ scope scopes delta, store.scopes = scope :: scopes ∧
    after.scopes = { scope with delta } :: scopes ∧
    ∀ base, scope.delta.Covers ledgerEntryKey base store.db.select →
      delta.Covers ledgerEntryKey base
        (Function.update store.db.select key (after.db.select key))

section Sound

variable {store after : EntryStore α β ρ φ σ η}

theorem Narrows.sound (narrows : store.Narrows after)
    (sound : store.Sound) : after.Sound where
  coherent := by
    intro key cached found
    rw [narrows.db]
    exact sound.coherent (narrows.cached found)
  covered := by
    rw [narrows.db, narrows.scopes]
    exact sound.covered

theorem Writes.sound {key : LedgerKey α β}
    (writes : store.Writes after key) (sound : store.Sound) :
    after.Sound := by
  obtain ⟨scope, scopes, delta, wereScopes, areScopes, covers⟩ :=
    writes.recorded
  have covered := sound.covered
  rw [wereScopes] at covered
  constructor
  · intro other cached found
    by_cases same : other = key
    · rw [same, writes.flushed] at found
      cases found
    · rw [writes.elsewhere other same]
      exact sound.coherent (writes.cached found)
  · rw [areScopes]
    refine ⟨?_, covered.2⟩
    have select : after.db.select = Function.update store.db.select key
        (after.db.select key) := by
      funext other
      by_cases same : other = key
      · rw [same, Function.update_self]
      · rw [Function.update_of_ne same, writes.elsewhere other same]
    rw [select]
    exact covers _ covered.1

end Sound

/-! ## Loads -/

section Loads

variable {config : StoreConfig α β ρ φ σ η} {store : EntryStore α β ρ φ σ η}

omit [LinearOrder σ] in
theorem flush_narrows (store : EntryStore α β ρ φ σ η)
    (key : LedgerKey α β) :
    ∀ {asked cached},
      (store.flushCachedEntry key).cache.find? asked = some cached →
        store.cache.find? asked = some cached := by
  intro asked cached found
  rw [flushCachedEntry, LruCache.find?_erase] at found
  split at found
  · cases found
  · exact found

omit [LinearOrder σ] in
theorem flushCachedEntry_narrows (store : EntryStore α β ρ φ σ η)
    (key : LedgerKey α β) : store.Narrows (store.flushCachedEntry key) where
  cached := flush_narrows store key
  db := rfl
  scopes := rfl

/-- Putting what the query returned. -/
theorem put_sound (sound : store.Sound) {key : LedgerKey α β}
    {p : Option (LedgerEntry α β ρ φ σ)} (queried : p = store.db.select key) :
    (store.putCachedEntry key p).Sound where
  coherent := by
    intro asked cached found
    by_cases same : asked = key
    · subst same
      have front := LruCache.find?_shrink _ found
      rw [LruCache.find?_front_self] at front
      rw [← Option.some.inj front]
      exact queried
    · exact sound.coherent (LruCache.find?_put_of_ne _ same found)
  covered := sound.covered

theorem get_sound (sound : store.Sound) {key : LedgerKey α β}
    {p : Option (LedgerEntry α β ρ φ σ)}
    {cache : LruCache (LedgerKey α β) (Option (LedgerEntry α β ρ φ σ))}
    (found : store.cache.get? key = some (p, cache)) :
    p = store.db.select key ∧
      ({ store with cache := cache } : EntryStore α β ρ φ σ η).Sound := by
  obtain ⟨value, hit, result⟩ := Option.map_eq_some_iff.mp found
  cases result
  refine ⟨sound.coherent hit, ?_, sound.covered⟩
  intro asked cached known
  rw [LruCache.find?_front _ hit] at known
  exact sound.coherent known

theorem recordEntry_sound (sound : store.Sound)
    (entry : LedgerEntry α β ρ φ σ) : (store.recordEntry entry).Sound := by
  unfold recordEntry
  split
  · exact sound
  · rename_i scope scopes isScopes
    refine ⟨sound.coherent, ?_⟩
    have covered := sound.covered
    rw [isScopes] at covered
    exact ⟨LedgerDelta.recordEntry_covers covered.1 entry, covered.2⟩

theorem loadAccount_sound (sound : store.Sound) {accountID : α}
    {entry : Option (LedgerEntry α β ρ φ σ)}
    {after : EntryStore α β ρ φ σ η}
    (loads : store.loadAccount config accountID = some (entry, after)) :
    entry = store.db.select (.account accountID) ∧ after.Sound := by
  unfold loadAccount at loads
  split at loads
  · rename_i found
    cases loads
    exact get_sound sound found
  · split at loads
    · rename_i missing
      cases loads
      have queried : none =
          store.db.select (.account accountID : LedgerKey α β) := by
        rw [Tables.select, missing]
        rfl
      exact ⟨queried, put_sound sound queried⟩
    · rename_i account found
      split at loads
      · cases loads
        have queried : some (.account account) =
            store.db.select (.account accountID : LedgerKey α β) := by
          rw [Tables.select, found]
          rfl
        exact ⟨queried, put_sound sound queried⟩
      · cases loads

theorem recordLoaded_sound (sound : store.Sound) (delta : Bool)
    (entry : LedgerEntry α β ρ φ σ) :
    (store.recordLoaded delta entry).Sound := by
  unfold recordLoaded
  split
  · exact recordEntry_sound sound entry
  · exact sound

theorem queryTrustLine_sound (sound : store.Sound) (accountID : α)
    (asset : β) (delta : Bool) :
    (∀ entry, (store.queryTrustLine config accountID asset delta).1 =
        .frame entry →
      entry = store.db.select (.trustLine accountID asset)) ∧
      (store.queryTrustLine config accountID asset delta).2.Sound := by
  unfold queryTrustLine
  split
  · rename_i line found
    obtain ⟨row, foundRow, isLine⟩ := Option.map_eq_some_iff.mp found
    have queried : some (.trustLine line) =
        store.db.select (.trustLine accountID asset : LedgerKey α β) := by
      rw [Tables.select, found]
      rfl
    have sameKey : ledgerEntryKey (.trustLine line : LedgerEntry α β ρ φ σ) =
        .trustLine accountID asset := by
      rw [← isLine]
      rfl
    dsimp only
    split
    · constructor
      · intro entry isEntry
        cases isEntry
        exact queried
      · apply recordLoaded_sound
        rw [sameKey]
        exact put_sound sound queried
    · exact ⟨nofun, sound⟩
  · rename_i missing
    have queried : none =
        store.db.select (.trustLine accountID asset : LedgerKey α β) := by
      rw [Tables.select, missing]
      rfl
    constructor
    · intro entry isEntry
      cases isEntry
      exact queried
    · exact put_sound sound queried

theorem loadTrustLine_sound (sound : store.Sound) (accountID : α)
    (asset : β) (delta : Bool) :
    (∀ entry, (store.loadTrustLine config accountID asset delta).1 =
        .frame entry →
      entry = store.db.select (.trustLine accountID asset)) ∧
      (store.loadTrustLine config accountID asset delta).2.Sound := by
  unfold loadTrustLine
  split
  · exact ⟨nofun, sound⟩
  split
  · rename_i p cache found
    obtain ⟨queried, after⟩ := get_sound sound found
    constructor
    · intro entry isEntry
      cases isEntry
      exact queried
    · exact recordLoaded_sound after delta p
  · rename_i cache found
    exact queryTrustLine_sound (get_sound sound found).2 accountID asset
      delta
  · exact queryTrustLine_sound sound accountID asset delta

end Loads

/-! ## Stores -/

section Stores

variable {config : StoreConfig α β ρ φ σ η}
  {store after : EntryStore α β ρ φ σ η}

omit [LinearOrder σ] in
theorem record_eq_some
    {change : LedgerDelta (LedgerKey α β) (LedgerEntry α β ρ φ σ) η →
      Except DeltaFailure
        (LedgerDelta (LedgerKey α β) (LedgerEntry α β ρ φ σ) η)}
    (records : store.record change = some after) :
    ∃ scope scopes delta, store.scopes = scope :: scopes ∧
      change scope.delta = .ok delta ∧
      after = { store with scopes := { scope with delta } :: scopes } := by
  unfold record at records
  split at records
  · cases records
  rename_i scope scopes isScopes
  split at records
  · cases records
  rename_i delta changes
  cases records
  exact ⟨scope, scopes, delta, isScopes, changes, rfl⟩

omit [LinearOrder α] [LinearOrder β] in
/-- The rows of an account are those of its key. -/
theorem select_account_of_ne {db changed : Tables α β ρ φ σ} {accountID : α}
    (accounts : ∀ other, other ≠ accountID →
      changed.accounts other = db.accounts other)
    (signers : ∀ other, other ≠ accountID →
      changed.signers other = db.signers other)
    (trustlines : changed.trustlines = db.trustlines)
    (key : LedgerKey α β) (different : key ≠ .account accountID) :
    changed.select key = db.select key := by
  cases key with
  | account other =>
      have unequal : other ≠ accountID :=
        fun same => different (congrArg LedgerKey.account same)
      simp only [Tables.select, Tables.selectAccount, Tables.loadSigners,
        accounts other unequal, signers other unequal]
  | trustLine other asset =>
      simp only [Tables.select, Tables.selectTrustLine, trustlines]

theorem select_trustLine_of_ne {db changed : Tables α β ρ φ σ}
    {accountID : α} {asset : β} {row : Option (TrustRow φ)}
    (isChanged : changed =
      { db with
        trustlines := Function.update db.trustlines accountID
          (Function.update (db.trustlines accountID) asset row) })
    (key : LedgerKey α β) (different : key ≠ .trustLine accountID asset) :
    changed.select key = db.select key := by
  subst isChanged
  cases key with
  | account other => rfl
  | trustLine other otherAsset =>
      simp only [Tables.select, Tables.selectTrustLine]
      by_cases sameAccount : other = accountID
      · subst sameAccount
        have unequal : otherAsset ≠ asset :=
          fun same => different (congrArg (LedgerKey.trustLine other) same)
        rw [Function.update_self, Function.update_of_ne unequal]
      · rw [Function.update_of_ne sameAccount]

omit [LinearOrder σ] in
theorem flushed_find? (store : EntryStore α β ρ φ σ η)
    (key : LedgerKey α β) :
    (store.flushCachedEntry key).cache.find? key = none := by
  rw [flushCachedEntry, LruCache.find?_erase, if_pos rfl]

theorem storeDeleteAccount_writes {accountID : α}
    (stores : store.storeDeleteAccount accountID = some after) :
    store.Writes after (.account accountID) := by
  unfold storeDeleteAccount at stores
  obtain ⟨scope, scopes, delta, isScopes, deletes, isAfter⟩ :=
    record_eq_some stores
  subst isAfter
  refine ⟨?_, flushed_find? store _, flush_narrows store _, scope, scopes,
    delta, isScopes, rfl, ?_⟩
  · apply select_account_of_ne
    · intro other different
      exact Function.update_of_ne different _ _
    · intro other different
      exact Function.update_of_ne different _ _
    · rfl
  · intro base covers
    have gone : (({ store.db with
        accounts := Function.update store.db.accounts accountID none
        signers := Function.update store.db.signers accountID [] } :
          Tables α β ρ φ σ).select (.account accountID)) = none := by
      simp [Tables.select, Tables.selectAccount]
    have covered := LedgerDelta.deleteEntry_covers covers deletes
    rw [← gone] at covered
    exact covered

theorem storeDeleteTrustLine_writes {accountID : α} {asset : β}
    (stores : store.storeDeleteTrustLine accountID asset = some after) :
    store.Writes after (.trustLine accountID asset) := by
  unfold storeDeleteTrustLine at stores
  obtain ⟨scope, scopes, delta, isScopes, deletes, isAfter⟩ :=
    record_eq_some stores
  subst isAfter
  refine ⟨select_trustLine_of_ne rfl, flushed_find? store _,
    flush_narrows store _, scope, scopes, delta, isScopes, rfl, ?_⟩
  intro base covers
  have gone : (({ store.db with
      trustlines := Function.update store.db.trustlines accountID
        (Function.update (store.db.trustlines accountID) asset none) } :
        Tables α β ρ φ σ).select (.trustLine accountID asset)) = none := by
    simp [Tables.select, Tables.selectTrustLine]
  have covered := LedgerDelta.deleteEntry_covers covers deletes
  rw [← gone] at covered
  exact covered

omit [LinearOrder σ] in
/-- What the delta is told covers whatever the rows become. -/
theorem covers_of_insert {insert : Bool} {entry : LedgerEntry α β ρ φ σ}
    {delta changed :
      LedgerDelta (LedgerKey α β) (LedgerEntry α β ρ φ σ) η}
    {base current : Entries (LedgerKey α β) (LedgerEntry α β ρ φ σ)}
    (covers : delta.Covers ledgerEntryKey base current)
    (absent : insert = true → current (ledgerEntryKey entry) = none)
    (changes : (if insert then delta.addEntry ledgerEntryKey entry
      else delta.modEntry ledgerEntryKey entry) = .ok changed)
    (value : Option (LedgerEntry α β ρ φ σ)) :
    changed.Covers ledgerEntryKey base
      (Function.update current (ledgerEntryKey entry) value) := by
  cases insert with
  | true => exact LedgerDelta.addEntry_covers covers (absent rfl) changes
  | false => exact LedgerDelta.modEntry_covers covers changes

theorem storeTrustLine_sound (sound : store.Sound) {insert mIsIssuer : Bool}
    {line : TrustLineEntry α β φ}
    (stores : store.storeTrustLine config insert line mIsIssuer =
      some after) : after.Sound := by
  have flushed := flushCachedEntry_narrows store
    (.trustLine line.accountID line.asset)
  unfold storeTrustLine at stores
  split at stores
  · cases stores
    exact sound
  dsimp only at stores
  split at stores
  · cases stores
    exact flushed.sound sound
  obtain ⟨lastModified, -, stores⟩ := Option.bind_eq_some_iff.mp stores
  split at stores
  · cases stores
    exact flushed.sound sound
  rename_i mismatch
  obtain ⟨scope, scopes, delta, isScopes, changes, isAfter⟩ :=
    record_eq_some stores
  have writes : store.Writes after
      (.trustLine line.accountID line.asset) := by
    subst isAfter
    refine ⟨select_trustLine_of_ne rfl, flushed_find? store _,
      flush_narrows store _, scope, scopes, delta, isScopes, rfl, ?_⟩
    intro base covers
    refine covers_of_insert covers ?_ changes _
    intro isInsert
    have missing : store.db.trustlines line.accountID line.asset = none := by
      rw [← Option.not_isSome_iff_eq_none]
      intro present
      exact mismatch (present.trans isInsert.symm)
    show store.db.select (.trustLine line.accountID line.asset) = none
    simp only [Tables.select, Tables.selectTrustLine, missing,
      Option.map_none]
  exact writes.sound sound

/-- Only the signers of the account change. -/
structure SignersOnly (store after : EntryStore α β ρ φ σ η)
    (accountID : α) : Prop where
  accounts : after.db.accounts = store.db.accounts
  signers : ∀ other, other ≠ accountID →
    after.db.signers other = store.db.signers other
  trustlines : after.db.trustlines = store.db.trustlines
  scopes : after.scopes = store.scopes
  cached : ∀ {key cached}, after.cache.find? key = some cached →
    store.cache.find? key = some cached

theorem applySigners_only (store : EntryStore α β ρ φ σ η)
    (entry : AccountEntry α ρ σ) (insert : Bool) :
    store.SignersOnly (store.applySigners entry insert)
      entry.accountID := by
  unfold applySigners
  dsimp only
  generalize applySignersWalk (store.db.signers entry.accountID) false
    entry.signers _ = walk
  split
  · refine ⟨rfl, ?_, rfl, rfl, flush_narrows _ _⟩
    intro other different
    exact Function.update_of_ne different _ _
  · refine ⟨rfl, ?_, rfl, rfl, fun found => found⟩
    intro other different
    exact Function.update_of_ne different _ _

theorem storeUpdate_sound (sound : store.Sound)
    {account : AccountEntry α ρ σ} {mUpdateSigners insert : Bool}
    (stores : store.storeUpdate config account mUpdateSigners insert =
      some after) : after.Sound := by
  have flushed := flushCachedEntry_narrows store
    (.account account.accountID)
  unfold storeUpdate at stores
  split at stores
  · cases stores
  obtain ⟨lastModified, -, stores⟩ := Option.bind_eq_some_iff.mp stores
  dsimp only at stores
  split at stores
  · cases stores
    exact flushed.sound sound
  rename_i mismatch
  obtain ⟨recorded, records, isAfter⟩ := Option.map_eq_some_iff.mp stores
  obtain ⟨scope, scopes, delta, isScopes, changes, isRecorded⟩ :=
    record_eq_some records
  have signersOnly : recorded.SignersOnly after account.accountID := by
    rw [← isAfter]
    split
    · exact applySigners_only recorded _ insert
    · exact ⟨rfl, fun _ _ => rfl, rfl, rfl, fun found => found⟩
  have writes : store.Writes after (.account account.accountID) := by
    refine ⟨?_, ?_, ?_, scope, scopes, delta, isScopes, ?_, ?_⟩
    · apply select_account_of_ne
      · intro other different
        rw [signersOnly.accounts, isRecorded]
        exact Function.update_of_ne different _ _
      · intro other different
        rw [signersOnly.signers other different, isRecorded]
        rfl
      · rw [signersOnly.trustlines, isRecorded]
        rfl
    · rw [Option.eq_none_iff_forall_not_mem]
      intro cached found
      have before := signersOnly.cached found
      rw [isRecorded, flushed_find? store] at before
      cases before
    · intro key cached found
      have before := signersOnly.cached found
      rw [isRecorded] at before
      exact flush_narrows store _ before
    · rw [signersOnly.scopes, isRecorded]
    · intro base covers
      refine covers_of_insert covers ?_ changes _
      intro isInsert
      have missing : store.db.accounts account.accountID = none := by
        rw [← Option.not_isSome_iff_eq_none]
        intro present
        exact mismatch (present.trans isInsert.symm)
      show store.db.select (.account account.accountID) = none
      simp only [Tables.select, Tables.selectAccount, missing,
        Option.map_none]
  exact writes.sound sound

end Stores

/-! ## Scopes -/

section Scopes

variable {store after : EntryStore α β ρ φ σ η}

theorem openScope_sound (sound : store.Sound) : store.openScope.Sound where
  coherent := sound.coherent
  covered := by
    refine ⟨?_, sound.covered⟩
    dsimp only
    split
    · exact LedgerDelta.start_covers _ _
    · exact LedgerDelta.start_covers _ _

theorem setHeader_sound (sound : store.Sound) (header : η) :
    (store.setHeader header).Sound := by
  unfold setHeader
  split
  · exact sound
  · rename_i scope scopes isScopes
    have covered := sound.covered
    rw [isScopes] at covered
    exact ⟨sound.coherent, covered.1.of_same_sets rfl rfl rfl, covered.2⟩

theorem commitScope_sound [DecidableEq η] (sound : store.Sound)
    (commits : store.commitScope = some after) : after.Sound := by
  have covered := sound.covered
  unfold commitScope at commits
  split at commits
  · cases commits
  · split at commits
    · cases commits
      exact ⟨sound.coherent, trivial⟩
    · cases commits
      exact sound
  · rename_i scope outer scopes isScopes
    rw [isScopes] at covered
    obtain ⟨inner, outerCovers, rest⟩ := covered
    split at commits
    · rename_i delta merges
      cases commits
      exact ⟨sound.coherent,
        LedgerDelta.commit_covers outerCovers inner merges, rest⟩
    · cases commits
      exact sound
    · cases commits

omit [LinearOrder σ] in
/-- What is left in the cache after flushing some keys. -/
theorem foldl_flush (store : EntryStore α β ρ φ σ η)
    (keys : List (LedgerKey α β)) :
    (keys.foldl flushCachedEntry store).db = store.db ∧
      (keys.foldl flushCachedEntry store).scopes = store.scopes ∧
      ∀ {key cached},
        (keys.foldl flushCachedEntry store).cache.find? key = some cached →
          key ∉ keys ∧ store.cache.find? key = some cached := by
  induction keys generalizing store with
  | nil =>
      refine ⟨rfl, rfl, ?_⟩
      intro key cached found
      exact ⟨List.not_mem_nil, found⟩
  | cons first keys ih =>
      obtain ⟨db, scopes, cached⟩ := ih (store.flushCachedEntry first)
      refine ⟨db, scopes, ?_⟩
      intro key value found
      obtain ⟨notLater, before⟩ := cached found
      have notFirst : key ≠ first := by
        intro same
        rw [same, flushed_find? store first] at before
        cases before
      exact ⟨List.not_mem_cons_of_ne_of_not_mem notFirst notLater,
        flush_narrows store first before⟩

theorem rollbackScope_sound (sound : store.Sound)
    (rolls : store.rollbackScope = some after) : after.Sound := by
  have covered := sound.covered
  unfold rollbackScope at rolls
  split at rolls
  · cases rolls
  · rename_i scope scopes isScopes
    rw [isScopes] at covered
    cases rolls
    obtain ⟨db, sameScopes, cached⟩ := foldl_flush
      { store with
        db := scope.savepoint
        scopes := scopes } (flushedKeys scope.delta)
    constructor
    · intro key value found
      obtain ⟨notFlushed, before⟩ := cached found
      simp only [flushedKeys, List.mem_append, Finset.mem_sort,
        Finmap.mem_keys, not_or] at notFlushed
      rw [db, ← covered.1.unseen key notFlushed.1.2 notFlushed.2
        notFlushed.1.1]
      exact sound.coherent before
    · rw [db, sameScopes]
      exact covered.2

end Scopes

/-! ## Runs -/

section Runs

variable [DecidableEq η] {config : StoreConfig α β ρ φ σ η}
  {store after : EntryStore α β ρ φ σ η}

theorem step_sound {event : StoreEvent α β ρ φ σ η} (sound : store.Sound)
    (steps : store.step config event = some after) : after.Sound := by
  cases event with
  | loadAccount accountID delta =>
      unfold step at steps
      dsimp only at steps
      split at steps
      · obtain ⟨⟨entry, result⟩, loads, isAfter⟩ :=
          Option.map_eq_some_iff.mp steps
        unfold loadAccountDelta at loads
        obtain ⟨⟨a, loaded⟩, loadsFirst, isResult⟩ :=
          Option.map_eq_some_iff.mp loads
        have loadedSound := (loadAccount_sound sound loadsFirst).2
        rw [← isAfter]
        cases a with
        | none =>
            cases isResult
            exact loadedSound
        | some entry =>
            cases isResult
            exact recordEntry_sound loadedSound entry
      · obtain ⟨⟨entry, result⟩, loads, isAfter⟩ :=
          Option.map_eq_some_iff.mp steps
        rw [← isAfter]
        exact (loadAccount_sound sound loads).2
  | loadTrustLine accountID asset delta =>
      cases steps
      exact (loadTrustLine_sound sound accountID asset delta).2
  | storeAddAccount account mUpdateSigners =>
      exact storeUpdate_sound sound steps
  | storeChangeAccount account mUpdateSigners =>
      exact storeUpdate_sound sound steps
  | storeDeleteAccount accountID =>
      exact (storeDeleteAccount_writes steps).sound sound
  | storeAddTrustLine line mIsIssuer =>
      exact storeTrustLine_sound sound steps
  | storeChangeTrustLine line mIsIssuer =>
      exact storeTrustLine_sound sound steps
  | storeDeleteTrustLine accountID asset =>
      exact (storeDeleteTrustLine_writes steps).sound sound
  | setHeader header =>
      cases steps
      exact setHeader_sound sound header
  | openScope =>
      cases steps
      exact openScope_sound sound
  | commitScope => exact commitScope_sound sound steps
  | rollbackScope => exact rollbackScope_sound sound steps

theorem run_sound {events : List (StoreEvent α β ρ φ σ η)}
    (sound : store.Sound) (runs : store.run config events = some after) :
    after.Sound := by
  induction events generalizing store with
  | nil =>
      cases runs
      exact sound
  | cons event events ih =>
      unfold run at runs ih
      rw [List.foldlM_cons] at runs
      obtain ⟨next, steps, rest⟩ := Option.bind_eq_some_iff.mp runs
      exact ih (step_sound sound steps) rest

/-- A store with an empty cache and no open scope. -/
def start (db : Tables α β ρ φ σ) (cacheSize : ℕ) (header : η) :
    EntryStore α β ρ φ σ η :=
  { db := db
    cache := LruCache.empty cacheSize
    scopes := []
    mHeader := header }

/-- Whatever is loaded, stored and rolled back, the cache agrees with the
database, and a load returns what a query would return. -/
theorem run_coherent {db : Tables α β ρ φ σ} {cacheSize : ℕ} {header : η}
    {events : List (StoreEvent α β ρ φ σ η)}
    (runs : (start db cacheSize header).run config events = some after) :
    (∀ {key cached}, after.cache.find? key = some cached →
        cached = after.db.select key) ∧
      (∀ {accountID entry store},
        after.loadAccount config accountID = some (entry, store) →
          entry = after.db.select (.account accountID)) ∧
      ∀ {accountID asset delta entry},
        (after.loadTrustLine config accountID asset delta).1 =
          .frame entry →
            entry = after.db.select (.trustLine accountID asset) := by
  have startSound : (start db cacheSize header :
      EntryStore α β ρ φ σ η).Sound := by
    refine ⟨?_, trivial⟩
    intro key cached found
    cases found
  have sound := run_sound startSound runs
  refine ⟨sound.coherent, ?_, ?_⟩
  · intro accountID entry store loads
    exact (loadAccount_sound sound loads).1
  · intro accountID asset delta entry loads
    exact (loadTrustLine_sound sound accountID asset delta).1 entry loads

end Runs

def sampleStoreConfig : StoreConfig ℕ ℕ Unit ℕ ℕ ℕ :=
  { getIssuer := id
    isValidAccount := fun _ => true
    isValidTrustLine := fun _ => true
    ledgerSeq := id
    mUpdateLastModified := true }

/-- A trust line is added, changed in a nested scope, loaded there, and
loaded again after that scope is rolled back. -/
def sampleStoreEvents : List (StoreEvent ℕ ℕ Unit ℕ ℕ ℕ) :=
  [.openScope, .storeAddTrustLine ⟨1, 2, ⟨0, 7⟩⟩ false, .openScope,
    .storeChangeTrustLine ⟨1, 2, ⟨0, 9⟩⟩ false, .loadTrustLine 1 2 true,
    .rollbackScope, .loadTrustLine 1 2 true]

def sampleStore : EntryStore ℕ ℕ Unit ℕ ℕ ℕ :=
  start ⟨fun _ => none, fun _ => [], fun _ _ => none⟩ 100 5

theorem sampleStore_coherent :
    ∃ after, sampleStore.run sampleStoreConfig sampleStoreEvents =
        some after ∧
      after.cache.find? (.trustLine 1 2) =
        some (some (.trustLine ⟨1, 2, ⟨5, 7⟩⟩)) ∧
      some (.trustLine ⟨1, 2, ⟨5, 7⟩⟩) =
        after.db.select (.trustLine 1 2) := by
  have cached : (sampleStore.run sampleStoreConfig
      sampleStoreEvents).map (fun after =>
        after.cache.find? (.trustLine 1 2)) =
          some (some (some (.trustLine ⟨1, 2, ⟨5, 7⟩⟩))) := by
    decide +kernel
  obtain ⟨after, runs, found⟩ := Option.map_eq_some_iff.mp cached
  exact ⟨after, runs, found, (run_coherent runs).1 found⟩

end EntryStore

end StellarCore.Ledger
