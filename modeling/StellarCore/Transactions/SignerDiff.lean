import StellarCore.Transactions.AccountSigners

/-!
# The signers table follows the entry

`applySigners` walks along the stored signers and those of the entry.  Both
lists ascend, so the key at the front of one of them is the smallest that is
left; a statement is about this key, and the loop leaves all other rows
alone.
-/

namespace StellarCore.Transactions

open StellarCore.Lib StellarCore.Crypto KeyUtils

/-- The key of a signer's row. -/
def rowKey (actIDStrKey : Text) (s : Signer) : Text × Text :=
  (actIDStrKey, toStrKey s.key)

theorem rowKey_inj {actIDStrKey : Text} {s1 s2 : Signer} :
    rowKey actIDStrKey s1 = rowKey actIDStrKey s2 ↔ s1.key = s2.key := by
  constructor
  · intro same
    exact signerKey_lawful.toStrKey_injective (congrArg Prod.snd same)
  · intro same
    rw [rowKey, rowKey, same]

/-- By key, each one once. -/
def SignersSorted (signers : List Signer) : Prop :=
  signers.Pairwise (fun s1 s2 => s1.key < s2.key)

section Loop

variable {actIDStrKey : Text} {new old : Signer} {news olds : List Signer}

/-! ## One statement -/

/-- Both tables have the same rows up to one row of the account. -/
structure Touches (actIDStrKey : Text) (s : Signer)
    (before after : Table (Text × Text) ℕ) : Prop where
  same : ∀ key, key ≠ rowKey actIDStrKey s →
    after.find? key = before.find? key
  others : after.rows.filter (fun row => row.1.1 ≠ actIDStrKey) =
    before.rows.filter (fun row => row.1.1 ≠ actIDStrKey)

variable {signers middle after : Table (Text × Text) ℕ} {weight : ℕ}

theorem touches_insert :
    Touches actIDStrKey new signers
      (signers.insert (rowKey actIDStrKey new) weight) where
  same key other := by
    rw [Table.find?_insert, if_neg (fun both => other both.1)]
  others := by
    unfold Table.insert
    split
    · simp [rowKey]
    · rfl

theorem touches_update :
    Touches actIDStrKey new signers
      (signers.update (rowKey actIDStrKey new) weight) where
  same key other := by
    rw [Table.find?_update, if_neg other]
  others := by
    show (signers.rows.map (Table.overwrite _ weight)).filter _ = _
    rw [List.filter_map]
    have keys : (fun row : (Text × Text) × ℕ =>
        decide (row.1.1 ≠ actIDStrKey)) ∘
          Table.overwrite (rowKey actIDStrKey new) weight =
        fun row => decide (row.1.1 ≠ actIDStrKey) := by
      funext row
      rw [Function.comp_apply, Table.fst_overwrite]
    rw [keys]
    refine (List.map_congr_left ?_).trans (List.map_id _)
    intro row member
    have other : row.1 ≠ rowKey actIDStrKey new := by
      rintro same
      simp [same, rowKey] at member
    exact if_neg other

theorem touches_erase :
    Touches actIDStrKey old signers
      (signers.erase (rowKey actIDStrKey old)) where
  same key other := by
    rw [Table.find?_erase, if_neg other]
  others := by
    show (signers.rows.filter _).filter _ = _
    rw [List.filter_filter]
    apply List.filter_congr
    intro row _
    by_cases own : row.1.1 = actIDStrKey
    · simp [own]
    · have other : row.1 ≠ rowKey actIDStrKey old := by
        rintro same
        exact own (congrArg Prod.fst same)
      simp [own, other]

/-! ## What the loop finds and what it leaves -/

/-- The stored signers are the rows of the loop's second list, as far as its
lists go. -/
structure Pending (actIDStrKey : Text) (news olds : List Signer)
    (signers : Table (Text × Text) ℕ) : Prop where
  newsSorted : SignersSorted news
  oldsSorted : SignersSorted olds
  stored : ∀ old ∈ olds,
    signers.find? (rowKey actIDStrKey old) = some old.weight
  absent : ∀ new ∈ news, (∀ old ∈ olds, old.key ≠ new.key) →
    signers.find? (rowKey actIDStrKey new) = none

/-- The rows of the first list are there, those of the second one are gone,
and there is no other change. -/
structure Synced (actIDStrKey : Text) (news olds : List Signer)
    (before after : Table (Text × Text) ℕ) : Prop where
  present : ∀ new ∈ news,
    after.find? (rowKey actIDStrKey new) = some new.weight
  gone : ∀ old ∈ olds, (∀ new ∈ news, new.key ≠ old.key) →
    after.find? (rowKey actIDStrKey old) = none
  same : ∀ key, (∀ s ∈ news ++ olds, key ≠ rowKey actIDStrKey s) →
    after.find? key = before.find? key
  others : after.rows.filter (fun row => row.1.1 ≠ actIDStrKey) =
    before.rows.filter (fun row => row.1.1 ≠ actIDStrKey)

namespace Pending

/-- A statement about a key that is not in the lists. -/
theorem touched {s : Signer} (pending : Pending actIDStrKey news olds signers)
    (touches : Touches actIDStrKey s signers middle)
    (notNews : ∀ new ∈ news, new.key ≠ s.key)
    (notOlds : ∀ old ∈ olds, old.key ≠ s.key) :
    Pending actIDStrKey news olds middle where
  newsSorted := pending.newsSorted
  oldsSorted := pending.oldsSorted
  stored other member := by
    rw [touches.same _ (fun same => notOlds other member (rowKey_inj.mp same))]
    exact pending.stored other member
  absent other member unlisted := by
    rw [touches.same _ (fun same => notNews other member (rowKey_inj.mp same))]
    exact pending.absent other member unlisted

theorem tail_news (pending : Pending actIDStrKey (new :: news) olds signers) :
    Pending actIDStrKey news olds signers where
  newsSorted := (List.pairwise_cons.mp pending.newsSorted).2
  oldsSorted := pending.oldsSorted
  stored := pending.stored
  absent other member := pending.absent other (List.mem_cons_of_mem _ member)

theorem tail_olds (pending : Pending actIDStrKey news (old :: olds) signers)
    (notNews : ∀ new ∈ news, new.key ≠ old.key) :
    Pending actIDStrKey news olds signers where
  newsSorted := pending.newsSorted
  oldsSorted := (List.pairwise_cons.mp pending.oldsSorted).2
  stored other member := pending.stored other (List.mem_cons_of_mem _ member)
  absent other member unlisted := by
    apply pending.absent other member
    intro listed listedMember
    rcases List.mem_cons.mp listedMember with rfl | later
    · exact (notNews other member).symm
    · exact unlisted listed later

/-- Behind two fronts with one key, neither list has this key again. -/
theorem same_fronts (pending :
      Pending actIDStrKey (new :: news) (old :: olds) signers)
    (sameKey : new.key = old.key) :
    (∀ other ∈ news, other.key ≠ new.key) ∧
      (∀ other ∈ olds, other.key ≠ new.key) ∧
        Pending actIDStrKey news olds signers := by
  have notNews : ∀ other ∈ news, other.key ≠ new.key := fun other member =>
    ((List.pairwise_cons.mp pending.newsSorted).1 other member).ne'
  refine ⟨notNews, fun other member => ?_, pending.tail_news.tail_olds ?_⟩
  · rw [sameKey]
    exact ((List.pairwise_cons.mp pending.oldsSorted).1 other member).ne'
  · rw [← sameKey]
    exact notNews

end Pending

namespace Synced

theorem insert (touches : Touches actIDStrKey new signers middle)
    (written : middle.find? (rowKey actIDStrKey new) = some new.weight)
    (notNews : ∀ other ∈ news, new.key ≠ other.key)
    (notOlds : ∀ other ∈ olds, new.key ≠ other.key)
    (synced : Synced actIDStrKey news olds middle after) :
    Synced actIDStrKey (new :: news) olds signers after where
  present other member := by
    rcases List.mem_cons.mp member with rfl | later
    · rw [synced.same _ ?_, written]
      intro s listed same
      rcases List.mem_append.mp listed with inNews | inOlds
      · exact notNews s inNews (rowKey_inj.mp same)
      · exact notOlds s inOlds (rowKey_inj.mp same)
    · exact synced.present other later
  gone other member unlisted := synced.gone other member
    (fun listed listedMember =>
      unlisted listed (List.mem_cons_of_mem _ listedMember))
  same key unlisted := by
    rw [List.cons_append] at unlisted
    rw [synced.same key
      (fun s member => unlisted s (List.mem_cons_of_mem _ member))]
    exact touches.same key (unlisted new List.mem_cons_self)
  others := synced.others.trans touches.others

theorem delete (touches : Touches actIDStrKey old signers middle)
    (erased : middle.find? (rowKey actIDStrKey old) = none)
    (notNews : ∀ other ∈ news, old.key ≠ other.key)
    (notOlds : ∀ other ∈ olds, old.key ≠ other.key)
    (synced : Synced actIDStrKey news olds middle after) :
    Synced actIDStrKey news (old :: olds) signers after where
  present := synced.present
  gone other member unlisted := by
    rcases List.mem_cons.mp member with rfl | later
    · rw [synced.same _ ?_, erased]
      intro s listed same
      rcases List.mem_append.mp listed with inNews | inOlds
      · exact notNews s inNews (rowKey_inj.mp same)
      · exact notOlds s inOlds (rowKey_inj.mp same)
    · exact synced.gone other later unlisted
  same key unlisted := by
    have rest : ∀ s ∈ news ++ olds, key ≠ rowKey actIDStrKey s := by
      intro s member
      apply unlisted s
      rcases List.mem_append.mp member with inNews | inOlds
      · exact List.mem_append_left _ inNews
      · exact List.mem_append_right _ (List.mem_cons_of_mem _ inOlds)
    rw [synced.same key rest]
    exact touches.same key
      (unlisted old (List.mem_append_right _ List.mem_cons_self))
  others := synced.others.trans touches.others

/-- An old signer with the key of a new one is not gone. -/
theorem replace (sameKey : new.key = old.key)
    (synced : Synced actIDStrKey (new :: news) olds signers after) :
    Synced actIDStrKey (new :: news) (old :: olds) signers after where
  present := synced.present
  gone other member unlisted := by
    rcases List.mem_cons.mp member with rfl | later
    · exact absurd sameKey (unlisted new List.mem_cons_self)
    · exact synced.gone other later unlisted
  same key unlisted := by
    apply synced.same
    intro s member
    apply unlisted s
    rcases List.mem_append.mp member with inNews | inOlds
    · exact List.mem_append_left _ inNews
    · exact List.mem_append_right _ (List.mem_cons_of_mem _ inOlds)
  others := synced.others

end Synced

/-! ## The statements run through -/

/-- Apart from the signers, `count` statements that each affected one row. -/
def Statements (count : ℕ) (before after : Database) : Prop :=
  after.accounts = before.accounts ∧ after.entryCache = before.entryCache ∧
    after.affectedRows = before.affectedRows ++ List.replicate count 1

theorem Statements.trans {first second : ℕ} {db db' db'' : Database}
    (before : Statements first db db') (later : Statements second db' db'') :
    Statements (first + second) db db'' := by
  obtain ⟨accounts, entryCache, affectedRows⟩ := before
  obtain ⟨accounts', entryCache', affectedRows'⟩ := later
  refine ⟨accounts'.trans accounts, entryCache'.trans entryCache, ?_⟩
  rw [affectedRows', affectedRows, List.append_assoc,
    List.replicate_append_replicate]

theorem executed_ends {db : Database} :
    Ends (executed 1 signers) db
      (fun _ after => after.signers = signers ∧ Statements 1 db after)
      (fun _ _ => False) := by
  simp [executed, Statements]

theorem insertSigner_ends {db : Database} {key : Text × Text}
    (absent : db.signers.find? key = none) :
    Ends (insertSigner key weight) db
      (fun _ after => after.signers = db.signers.insert key weight ∧
        Statements 1 db after)
      (fun _ _ => False) := by
  have unlisted : db.signers.contains key = false := by
    rw [Table.contains, absent]
    rfl
  rw [insertSigner, Ends.bind_iff, Ends.get_iff, unlisted]
  exact executed_ends

theorem updateSigner_ends {db : Database} {key : Text × Text}
    (found : db.signers.find? key ≠ none) :
    Ends (updateSigner key weight) db
      (fun _ after => after.signers = db.signers.update key weight ∧
        Statements 1 db after)
      (fun _ _ => False) := by
  rw [updateSigner, Ends.bind_iff, Ends.get_iff, Table.matching_eq_one found]
  exact executed_ends

theorem deleteSigner_ends {db : Database} {key : Text × Text}
    (found : db.signers.find? key ≠ none) :
    Ends (deleteSigner key) db
      (fun _ after => after.signers = db.signers.erase key ∧
        Statements 1 db after)
      (fun _ _ => False) := by
  rw [deleteSigner, Ends.bind_iff, Ends.get_iff, Table.matching_eq_one found]
  exact executed_ends

/-- How the loop ends; if it reports no change there was none. -/
def LoopEnds (actIDStrKey : Text) (news olds : List Signer) (changed : Bool)
    (db : Database) (result : Bool) (after : Database) : Prop :=
  Synced actIDStrKey news olds db.signers after.signers ∧
    (∃ count, Statements count db after) ∧
    (result = true ∨ changed = false ∧ after = db)

/-- A statement with the rest of the loop after it. -/
theorem LoopEnds.step {db middle after : Database} {changed result : Bool}
    {restNews restOlds : List Signer} (statement : Statements 1 db middle)
    (ends : LoopEnds actIDStrKey restNews restOlds true middle result after)
    (synced : Synced actIDStrKey news olds db.signers after.signers) :
    LoopEnds actIDStrKey news olds changed db result after := by
  obtain ⟨_, ⟨count, statements⟩, flag⟩ := ends
  refine ⟨synced, ⟨1 + count, statement.trans statements⟩, .inl ?_⟩
  rcases flag with reported | ⟨impossible, _⟩
  · exact reported
  · cases impossible

theorem insert_then {db : Database} {changed : Bool}
    (rest : ∀ {db : Database}, Pending actIDStrKey news olds db.signers →
      Ends (applyLoop actIDStrKey news olds true) db
        (LoopEnds actIDStrKey news olds true db) (fun _ _ => False))
    (pending : Pending actIDStrKey (new :: news) olds db.signers)
    (first : ∀ old ∈ olds, new.key < old.key) :
    Ends (do
        insertSigner (rowKey actIDStrKey new) new.weight
        applyLoop actIDStrKey news olds true) db
      (LoopEnds actIDStrKey (new :: news) olds changed db)
      (fun _ _ => False) := by
  have notOlds : ∀ old ∈ olds, old.key ≠ new.key :=
    fun old member => (first old member).ne'
  have notNews : ∀ other ∈ news, other.key ≠ new.key := fun other member =>
    ((List.pairwise_cons.mp pending.newsSorted).1 other member).ne'
  have absent := pending.absent new List.mem_cons_self notOlds
  rw [Ends.bind_iff]
  refine (insertSigner_ends absent).mono ?_ (fun _ _ => id)
  rintro ⟨⟩ middle ⟨inserted, statement⟩
  have touches : Touches actIDStrKey new db.signers middle.signers := by
    rw [inserted]
    exact touches_insert
  have written : middle.signers.find? (rowKey actIDStrKey new) =
      some new.weight := by
    rw [inserted, Table.find?_insert, if_pos ⟨rfl, absent⟩]
  refine (rest (pending.tail_news.touched touches notNews notOlds)).mono ?_
    (fun _ _ => id)
  intro result after ends
  exact ends.step statement (ends.1.insert touches written
    (fun other member => (notNews other member).symm)
    (fun other member => (notOlds other member).symm))

theorem delete_then {db : Database} {changed : Bool}
    (rest : ∀ {db : Database}, Pending actIDStrKey news olds db.signers →
      Ends (applyLoop actIDStrKey news olds true) db
        (LoopEnds actIDStrKey news olds true db) (fun _ _ => False))
    (pending : Pending actIDStrKey news (old :: olds) db.signers)
    (first : ∀ new ∈ news, old.key < new.key) :
    Ends (do
        deleteSigner (rowKey actIDStrKey old)
        applyLoop actIDStrKey news olds true) db
      (LoopEnds actIDStrKey news (old :: olds) changed db)
      (fun _ _ => False) := by
  have notNews : ∀ new ∈ news, new.key ≠ old.key :=
    fun new member => (first new member).ne'
  have notOlds : ∀ other ∈ olds, other.key ≠ old.key := fun other member =>
    ((List.pairwise_cons.mp pending.oldsSorted).1 other member).ne'
  have stored := pending.stored old List.mem_cons_self
  have found : db.signers.find? (rowKey actIDStrKey old) ≠ none := by
    rw [stored]
    exact Option.some_ne_none _
  rw [Ends.bind_iff]
  refine (deleteSigner_ends found).mono ?_ (fun _ _ => id)
  rintro ⟨⟩ middle ⟨erased, statement⟩
  have touches : Touches actIDStrKey old db.signers middle.signers := by
    rw [erased]
    exact touches_erase
  have gone : middle.signers.find? (rowKey actIDStrKey old) = none := by
    rw [erased, Table.find?_erase, if_pos rfl]
  refine (rest ((pending.tail_olds notNews).touched touches notNews
    notOlds)).mono ?_ (fun _ _ => id)
  intro result after ends
  exact ends.step statement (ends.1.delete touches gone
    (fun other member => (notNews other member).symm)
    (fun other member => (notOlds other member).symm))

theorem applyLoop_ends (changed : Bool) {db : Database}
    (pending : Pending actIDStrKey news olds db.signers) :
    Ends (applyLoop actIDStrKey news olds changed) db
      (LoopEnds actIDStrKey news olds changed db) (fun _ _ => False) := by
  fun_induction applyLoop actIDStrKey news olds changed generalizing db with
  | case1 changed =>
      refine ⟨⟨?_, ?_, fun _ _ => rfl, rfl⟩, ⟨0, rfl, rfl, ?_⟩, ?_⟩
      · intro new member
        cases member
      · intro old member
        cases member
      · exact (List.append_nil _).symm
      · cases changed with
        | true => exact .inl rfl
        | false => exact .inr ⟨rfl, rfl⟩
  | case2 changed new news ih =>
      exact insert_then ih pending (fun old member => nomatch member)
  | case3 changed old olds ih =>
      exact delete_then ih pending (fun new member => nomatch member)
  | case4 new news old olds changed sameKey differ ih =>
      obtain ⟨notNews, notOlds, tails⟩ := pending.same_fronts sameKey
      have stored := pending.stored old List.mem_cons_self
      rw [rowKey, ← sameKey] at stored
      have found : db.signers.find? (rowKey actIDStrKey new) ≠ none := by
        rw [rowKey, stored]
        exact Option.some_ne_none _
      rw [Ends.bind_iff]
      refine (updateSigner_ends found).mono ?_ (fun _ _ => id)
      rintro ⟨⟩ middle ⟨updated, statement⟩
      have touches : Touches actIDStrKey new db.signers middle.signers := by
        rw [updated]
        exact touches_update
      have written : middle.signers.find? (rowKey actIDStrKey new) =
          some new.weight := by
        rw [updated, Table.find?_update, if_pos rfl, rowKey, stored]
        rfl
      refine (ih (tails.touched touches notNews notOlds)).mono ?_
        (fun _ _ => id)
      intro result after ends
      exact ends.step statement ((ends.1.insert touches written
        (fun other member => (notNews other member).symm)
        (fun other member => (notOlds other member).symm)).replace sameKey)
  | case5 new news old olds changed sameKey same ih =>
      obtain ⟨notNews, notOlds, tails⟩ := pending.same_fronts sameKey
      have stored := pending.stored old List.mem_cons_self
      rw [rowKey, ← sameKey, ← not_not.mp same] at stored
      refine (ih tails).mono ?_ (fun _ _ => id)
      rintro result after ⟨synced, statements, flag⟩
      exact ⟨(synced.insert ⟨fun _ _ => rfl, rfl⟩ stored
        (fun other member => (notNews other member).symm)
        (fun other member => (notOlds other member).symm)).replace sameKey,
        statements, flag⟩
  | case6 new news old olds changed other less ih =>
      apply insert_then ih pending
      intro listed member
      rcases List.mem_cons.mp member with rfl | later
      · exact less
      · exact less.trans
          ((List.pairwise_cons.mp pending.oldsSorted).1 listed later)
  | case7 new news old olds changed other notLess ih =>
      have less : old.key < new.key :=
        lt_of_le_of_ne (not_lt.mp notLess) (Ne.symm other)
      apply delete_then ih pending
      intro listed member
      rcases List.mem_cons.mp member with rfl | later
      · exact less
      · exact less.trans
          ((List.pairwise_cons.mp pending.newsSorted).1 listed later)

end Loop

/-! ## Loading -/

section Load

variable {actIDStrKey : Text} {signers : Table (Text × Text) ℕ}

/-- The rows of an account hold texts of keys, as `applySigners` writes
them. -/
def Readable (actIDStrKey : Text) (signers : Table (Text × Text) ℕ) : Prop :=
  ∀ row ∈ signers.rows, row.1.1 = actIDStrKey →
    ∃ key : SignerKey, row.1.2 = toStrKey key

theorem mapM_readSigner {rows : List ((Text × Text) × ℕ)}
    (readable : ∀ row ∈ rows, ∃ key : SignerKey, row.1.2 = toStrKey key) :
    ∃ res, rows.mapM readSigner = .ok res ∧
      res.map (fun s => (toStrKey s.key, s.weight)) =
        rows.map (fun row => (row.1.2, row.2)) := by
  induction rows with
  | nil => exact ⟨[], rfl, rfl⟩
  | cons row rows ih =>
      obtain ⟨key, text⟩ := readable row List.mem_cons_self
      obtain ⟨res, read, same⟩ := ih
        (fun other member => readable other (List.mem_cons_of_mem _ member))
      have readRow : readSigner row = .ok { key, weight := row.2 } := by
        rw [readSigner, text, signerKey_lawful.fromStrKey_toStrKey]
        rfl
      refine ⟨{ key, weight := row.2 } :: res, ?_, ?_⟩
      · rw [List.mapM_cons, readRow, read]
        rfl
      · rw [List.map_cons, List.map_cons, same, text]

/-- The signers are the rows of the account. -/
def Loaded (actIDStrKey : Text) (signers : Table (Text × Text) ℕ)
    (olds : List Signer) : Prop :=
  SignersSorted olds ∧ ∀ text weight,
    signers.find? (actIDStrKey, text) = some weight ↔
      ∃ old ∈ olds, toStrKey old.key = text ∧ old.weight = weight

/-- No two rows of an account have the same text. -/
theorem texts_nodup (actIDStrKey : Text) (signers : Table (Text × Text) ℕ) :
    ((signers.rows.filter (fun row => row.1.1 = actIDStrKey)).map
      (fun row => row.1.2)).Nodup := by
  have distinct : (signers.rows.filter
      (fun row => row.1.1 = actIDStrKey)).Pairwise
        (fun row other => row.1 ≠ other.1) :=
    (List.pairwise_map.mp signers.distinct).sublist List.filter_sublist
  refine List.pairwise_map.mpr (distinct.imp_of_mem ?_)
  intro row other member otherMember differ same
  have own := of_decide_eq_true (List.mem_filter.mp member).2
  have otherOwn := of_decide_eq_true (List.mem_filter.mp otherMember).2
  exact differ (Prod.ext (own.trans otherOwn.symm) same)

theorem loaded_sort {res : List Signer} (sorter : Sorter)
    (same : res.map (fun s => (toStrKey s.key, s.weight)) =
      (signers.rows.filter (fun row => row.1.1 = actIDStrKey)).map
        (fun row => (row.1.2, row.2))) :
    Loaded actIDStrKey signers (sorter.sort signerCompare res) := by
  have perm := sorter.perm signerCompare res
  constructor
  · have listed : res.map (fun s => toStrKey s.key) =
        (signers.rows.filter (fun row => row.1.1 = actIDStrKey)).map
          (fun row => row.1.2) := by
      have texts := congrArg (List.map Prod.fst) same
      rwa [List.map_map, List.map_map] at texts
    have keys : (res.map (fun s => toStrKey s.key)).Nodup := by
      rw [listed]
      exact texts_nodup actIDStrKey signers
    have differ : (sorter.sort signerCompare res).Pairwise
        (fun s1 s2 => toStrKey s1.key ≠ toStrKey s2.key) :=
      List.pairwise_map.mp ((perm.map _).nodup_iff.mpr keys)
    refine (differ.and (sorter.sorted Signer.key res)).imp ?_
    rintro s1 s2 ⟨texts, le⟩
    exact lt_of_le_of_ne le (fun sameKey => texts (congrArg _ sameKey))
  · intro text weight
    have stored : ((text, weight) ∈
        res.map (fun s => (toStrKey s.key, s.weight))) ↔
          signers.find? (actIDStrKey, text) = some weight := by
      rw [same, Table.find?_eq_some]
      simp [List.mem_map, List.mem_filter]
    rw [← stored]
    simp [perm.mem_iff]

theorem loadSigners_ends (sorter : Sorter) {db : Database}
    (readable : Readable actIDStrKey db.signers) :
    Ends (loadSigners sorter actIDStrKey) db
      (fun olds after => after = db ∧ Loaded actIDStrKey db.signers olds)
      (fun _ _ => False) := by
  have selected : ∀ row ∈ db.signers.rows.filter
      (fun row => row.1.1 = actIDStrKey),
        ∃ key : SignerKey, row.1.2 = toStrKey key := by
    intro row member
    obtain ⟨listed, own⟩ := List.mem_filter.mp member
    exact readable row listed (of_decide_eq_true own)
  obtain ⟨res, read, same⟩ := mapM_readSigner selected
  rw [loadSigners, Ends.bind_iff, Ends.get_iff]
  simp only [read]
  exact ⟨rfl, loaded_sort sorter same⟩

/-- The loop starts with the rows that were loaded. -/
theorem Loaded.pending {news olds : List Signer}
    (loaded : Loaded actIDStrKey signers olds)
    (sorted : SignersSorted news) :
    Pending actIDStrKey news olds signers where
  newsSorted := sorted
  oldsSorted := loaded.1
  stored old member := (loaded.2 _ _).mpr ⟨old, member, rfl, rfl⟩
  absent new _ unlisted := by
    apply Option.eq_none_iff_forall_not_mem.mpr
    intro weight found
    obtain ⟨old, member, text, _⟩ := (loaded.2 _ _).mp found
    exact unlisted old member (signerKey_lawful.toStrKey_injective text)

/-- The rows of the account are those of the list. -/
theorem Loaded.rows_perm {news olds : List Signer}
    {after : Table (Text × Text) ℕ}
    (loaded : Loaded actIDStrKey signers olds)
    (sorted : SignersSorted news)
    (synced : Synced actIDStrKey news olds signers after) :
    (after.rows.filter (fun row => row.1.1 = actIDStrKey)).Perm
      (news.map (fun s => (rowKey actIDStrKey s, s.weight))) := by
  have rowsNodup : (after.rows.filter
      (fun row => row.1.1 = actIDStrKey)).Nodup :=
    (List.Nodup.of_map _ after.distinct).filter _
  have newsNodup :
      (news.map (fun s => (rowKey actIDStrKey s, s.weight))).Nodup := by
    refine List.pairwise_map.mpr (sorted.imp ?_)
    intro s1 s2 less same
    exact less.ne (rowKey_inj.mp (congrArg Prod.fst same))
  apply (List.perm_ext_iff_of_nodup rowsNodup newsNodup).mpr
  rintro ⟨⟨account, text⟩, weight⟩
  rw [List.mem_filter, ← Table.find?_eq_some, List.mem_map,
    decide_eq_true_iff]
  constructor
  · rintro ⟨found, rfl⟩
    by_cases listed : ∃ new ∈ news, toStrKey new.key = text
    · obtain ⟨new, member, rfl⟩ := listed
      have present := synced.present new member
      rw [rowKey, found] at present
      exact ⟨new, member, by rw [rowKey, Option.some.inj present]⟩
    · exfalso
      by_cases stored : ∃ old ∈ olds, toStrKey old.key = text
      · obtain ⟨old, member, rfl⟩ := stored
        have gone := synced.gone old member (fun new newMember same =>
          listed ⟨new, newMember, congrArg toStrKey same⟩)
        rw [rowKey, found] at gone
        cases gone
      · have kept := synced.same (account, text) (by
          intro s member same
          have sameText := (congrArg Prod.snd same).symm
          rcases List.mem_append.mp member with inNews | inOlds
          · exact listed ⟨s, inNews, sameText⟩
          · exact stored ⟨s, inOlds, sameText⟩)
        rw [found] at kept
        obtain ⟨old, member, sameText, _⟩ :=
          (loaded.2 text weight).mp kept.symm
        exact stored ⟨old, member, sameText⟩
  · rintro ⟨new, member, same⟩
    obtain ⟨sameKey, rfl⟩ := Prod.mk.inj same
    refine ⟨?_, (congrArg Prod.fst sameKey).symm⟩
    rw [← sameKey]
    exact synced.present new member

end Load

/-! ## Applying -/

/-- The account has the signers of the entry, other accounts the ones that
they had. -/
structure SignersStored (a : AccountEntry)
    (before after : Table (Text × Text) ℕ) : Prop where
  own : (after.rows.filter
      (fun row => row.1.1 = toStrKey a.accountID)).Perm
    (a.signers.map (fun s =>
      ((toStrKey a.accountID, toStrKey s.key), s.weight)))
  others : after.rows.filter (fun row => row.1.1 ≠ toStrKey a.accountID) =
    before.rows.filter (fun row => row.1.1 ≠ toStrKey a.accountID)

/-- A row is one of a signer of the entry, or of another account. -/
theorem SignersStored.row {a : AccountEntry}
    {before after : Table (Text × Text) ℕ}
    (stored : SignersStored a before after) {row : (Text × Text) × ℕ}
    (member : row ∈ after.rows) :
    (∃ s ∈ a.signers,
        row = ((toStrKey a.accountID, toStrKey s.key), s.weight)) ∨
      row ∈ before.rows := by
  by_cases own : row.1.1 = toStrKey a.accountID
  · left
    have listed := stored.own.mem_iff.mp
      (List.mem_filter.mpr ⟨member, decide_eq_true own⟩)
    obtain ⟨s, signer, same⟩ := List.mem_map.mp listed
    exact ⟨s, signer, same.symm⟩
  · right
    have listed : row ∈ after.rows.filter
        (fun row => row.1.1 ≠ toStrKey a.accountID) :=
      List.mem_filter.mpr ⟨member, decide_eq_true own⟩
    rw [stored.others] at listed
    exact (List.mem_filter.mp listed).1

section Apply

variable (sorter : Sorter) {a : AccountEntry} {db : Database} {insert : Bool}

theorem applySigners_ends (sorted : SignersSorted a.signers)
    (readable : Readable (toStrKey a.accountID) db.signers)
    (fresh : insert = true → ∀ text,
      db.signers.find? (toStrKey a.accountID, text) = none) :
    Ends (applySigners sorter a insert) db
      (fun _ after => SignersStored a db.signers after.signers ∧
        after.accounts = db.accounts ∧
        (∃ count, after.affectedRows =
          db.affectedRows ++ List.replicate count 1) ∧
        (after = db ∨ a.accountID ∉ after.entryCache))
      (fun _ _ => False) := by
  have load : Ends (oldSigners sorter (toStrKey a.accountID) insert) db
      (fun olds after => after = db ∧
        Loaded (toStrKey a.accountID) db.signers olds)
      (fun _ _ => False) := by
    cases insert with
    | true =>
        refine ⟨rfl, List.Pairwise.nil, fun text weight => ?_⟩
        simp [fresh rfl text]
    | false => exact loadSigners_ends sorter readable
  rw [applySigners, Ends.bind_iff]
  refine load.mono ?_ (fun _ _ => id)
  rintro olds _ ⟨rfl, loaded⟩
  rw [Ends.bind_iff]
  refine (applyLoop_ends false (loaded.pending sorted)).mono ?_
    (fun _ _ => id)
  rintro changed after ⟨synced, ⟨count, accounts, cache, affected⟩, flag⟩
  have stored : SignersStored a _ after.signers :=
    ⟨loaded.rows_perm sorted synced, synced.others⟩
  cases changed with
  | true =>
      refine ⟨stored, accounts, ⟨count, affected⟩, .inr ?_⟩
      simp
  | false =>
      rcases flag with impossible | ⟨_, same⟩
      · cases impossible
      · exact ⟨stored, accounts, ⟨count, affected⟩, .inl same⟩

/-- Afterwards the rows of the account are the signers of the entry, every
statement has affected one row, and the rows of other accounts are as they
were. -/
theorem applySigners_exact (sorted : SignersSorted a.signers)
    (readable : Readable (toStrKey a.accountID) db.signers)
    (fresh : insert = true → ∀ text,
      db.signers.find? (toStrKey a.accountID, text) = none) :
    ∃ after count, applySigners sorter a insert db = .ok () after ∧
      (after.signers.rows.filter
        (fun row => row.1.1 = toStrKey a.accountID)).Perm
          (a.signers.map (fun s =>
            ((toStrKey a.accountID, toStrKey s.key), s.weight))) ∧
      after.affectedRows = db.affectedRows ++ List.replicate count 1 ∧
      after.signers.rows.filter
          (fun row => row.1.1 ≠ toStrKey a.accountID) =
        db.signers.rows.filter
          (fun row => row.1.1 ≠ toStrKey a.accountID) := by
  have ends := applySigners_ends sorter sorted readable fresh
  unfold Ends at ends
  split at ends
  · rename_i value after run
    obtain ⟨stored, _, ⟨count, affected⟩, _⟩ := ends
    exact ⟨after, count, run, stored.own, affected, stored.others⟩
  · exact ends.elim

end Apply

/-- An account with one stored signer. -/
def oneSigner : Database :=
  { accounts := Table.empty.insert (toStrKey (1 : AccountID)) 5
    signers := Table.empty.insert
      (toStrKey (1 : AccountID), toStrKey (SignerKey.ed25519 3)) 4
    entryCache := [1], affectedRows := [] }

/-- The entry has two signers, one of them with another weight. -/
theorem applySigners_exact_two :
    ∃ after count, applySigners .insertion
        { AccountEntry.fresh 1 with
          signers := [⟨.ed25519 3, 7⟩, ⟨.hashX 2, 1⟩] } false oneSigner =
          .ok () after ∧
      (after.signers.rows.filter
        (fun row => row.1.1 = toStrKey (1 : AccountID))).Perm
          [((toStrKey (1 : AccountID), toStrKey (SignerKey.ed25519 3)), 7),
            ((toStrKey (1 : AccountID), toStrKey (SignerKey.hashX 2)), 1)] ∧
      after.affectedRows = List.replicate count 1 ∧
      after.signers.rows.filter
        (fun row => row.1.1 ≠ toStrKey (1 : AccountID)) =
          oneSigner.signers.rows.filter
            (fun row => row.1.1 ≠ toStrKey (1 : AccountID)) := by
  have readable : Readable (toStrKey (1 : AccountID)) oneSigner.signers := by
    intro row member _
    rw [List.mem_singleton.mp member]
    exact ⟨.ed25519 3, rfl⟩
  exact applySigners_exact .insertion
    (List.pairwise_pair.mpr (by decide)) readable (fun never => nomatch never)

/-! ## Runs of operations -/

/-- Every row of a signer belongs to an account and holds the text of a
key. -/
structure Fit (db : Database) : Prop where
  owned : ∀ row ∈ db.signers.rows, db.accounts.contains row.1.1 = true
  written : ∀ row ∈ db.signers.rows,
    ∃ key : SignerKey, row.1.2 = toStrKey key

theorem fit_empty : Fit .empty where
  owned _ member := nomatch member
  written _ member := nomatch member

section Runs

variable (sorter : Sorter) {db : Database}

theorem AccountEntry.isValid_sorted {a : AccountEntry}
    (valid : a.isValid = true) : SignersSorted a.signers := by
  have trans : IsTrans Signer (fun s1 s2 => s1.key < s2.key) :=
    ⟨fun _ _ _ => lt_trans⟩
  apply List.isChain_iff_pairwise.mp
  simp only [AccountEntry.isValid, Bool.and_eq_true,
    decide_eq_true_eq] at valid
  exact valid.1.1.1.2

/-- The row is there afterwards, and if it is inserted not before. -/
theorem storeAccountRow_ends {actIDStrKey : Text} {lastModified : ℕ}
    {insert : Bool} :
    Ends (storeAccountRow actIDStrKey lastModified insert) db
      (fun _ after => after.signers = db.signers ∧
        (∀ other, db.accounts.contains other = true →
          after.accounts.contains other = true) ∧
        after.accounts.contains actIDStrKey = true ∧
        (insert = true → db.accounts.contains actIDStrKey = false))
      (fun _ _ => True) := by
  rw [storeAccountRow, Ends.bind_iff, Ends.get_iff]
  cases insert with
  | true =>
      rw [if_pos rfl, Ends.ite_iff]
      refine ⟨fun _ => trivial, fun unlisted => ?_⟩
      have absent := Bool.eq_false_iff.mpr unlisted
      have none := Option.not_isSome_iff_eq_none.mp unlisted
      refine ⟨rfl, fun other listed => ?_, ?_, fun _ => absent⟩
      · rw [Table.contains, Table.find?_insert]
        split
        · rfl
        · exact listed
      · rw [Table.contains, Table.find?_insert, if_pos ⟨rfl, none⟩]
        rfl
  | false =>
      rw [if_neg Bool.false_ne_true, Ends.ite_iff]
      refine ⟨fun _ => trivial, fun one => ?_⟩
      have found : db.accounts.contains actIDStrKey = true := by
        by_contra unlisted
        have none := Option.not_isSome_iff_eq_none.mp unlisted
        apply one
        rw [Table.matching_eq_zero none]
        exact zero_ne_one
      refine ⟨rfl, fun other listed => ?_, ?_,
        fun never => absurd never Bool.false_ne_true⟩
      · rw [Table.contains_update]
        exact listed
      · rw [Table.contains_update]
        exact found

/-- An account that has been stored has the signers of its entry. -/
theorem storeUpdate_ends {frame : AccountFrame} {ledgerSeq : Option ℕ}
    {insert : Bool} (fit : Fit db) :
    Ends (storeUpdate sorter frame ledgerSeq insert) db
      (fun _ after => Fit after ∧
        (frame.mUpdateSigners = true →
          SignersStored frame.mAccountEntry db.signers after.signers))
      (fun _ _ => True) := by
  rw [storeUpdate, Ends.ite_iff]
  refine ⟨fun valid => ?_, fun _ => trivial⟩
  have sorted := AccountEntry.isValid_sorted (Bool.and_eq_true_iff.mp valid).1
  rw [Ends.bind_iff, flushCachedEntry, Ends.modify_iff, Ends.bind_iff]
  refine storeAccountRow_ends.mono ?_ (fun _ _ => id)
  rintro ⟨⟩ middle ⟨signers, kept, present, isNew⟩
  have owned : ∀ row ∈ db.signers.rows,
      middle.accounts.contains row.1.1 = true :=
    fun row member => kept _ (fit.owned row member)
  rw [Ends.ite_iff]
  constructor
  · intro _
    refine (applySigners_ends sorter sorted ?_ ?_).mono ?_
      (fun _ _ => False.elim)
    · intro row member _
      rw [signers] at member
      exact fit.written row member
    · intro inserted text
      rw [signers]
      apply Option.eq_none_iff_forall_not_mem.mpr
      intro weight found
      have before := fit.owned _ (Table.find?_eq_some.mp found)
      rw [isNew inserted] at before
      cases before
    · rintro ⟨⟩ after ⟨stored, accounts, _, _⟩
      rw [signers] at stored
      refine ⟨⟨?_, ?_⟩, fun _ => stored⟩
      · intro row member
        rw [accounts]
        rcases stored.row member with ⟨s, _, rfl⟩ | old
        · exact present
        · exact owned row old
      · intro row member
        rcases stored.row member with ⟨s, _, rfl⟩ | old
        · exact ⟨s.key, rfl⟩
        · exact fit.written row old
  · intro unchanged
    refine ⟨⟨?_, ?_⟩, fun updates => absurd updates unchanged⟩
    · rw [signers]
      exact owned
    · rw [signers]
      exact fit.written

theorem storeDelete_ends {accountID : AccountID} (fit : Fit db) :
    Ends (storeDelete accountID) db (fun _ after => Fit after)
      (fun _ _ => True) := by
  constructor
  · intro row member
    obtain ⟨listed, other⟩ := List.mem_filter.mp member
    rw [Table.contains, Table.find?_erase,
      if_neg (of_decide_eq_true other)]
    exact fit.owned row listed
  · intro row member
    exact fit.written row (List.mem_filter.mp member).1

theorem deleteAccountsModifiedOnOrAfterLedger_ends {oldestLedger : ℕ}
    (fit : Fit db) :
    Ends (deleteAccountsModifiedOnOrAfterLedger oldestLedger) db
      (fun _ after => Fit after) (fun _ _ => True) := by
  constructor
  · intro row member
    obtain ⟨listed, young⟩ := List.mem_filter.mp member
    obtain ⟨lastModified, found⟩ :=
      Table.contains_eq_true.mp (fit.owned row listed)
    simp only [found, Option.all_some] at young
    refine Table.contains_eq_true.mpr ⟨lastModified, ?_⟩
    rw [Table.find?_eq_some]
    exact List.mem_filter.mpr ⟨Table.find?_eq_some.mp found, young⟩
  · intro row member
    exact fit.written row (List.mem_filter.mp member).1

theorem perform_ends (operation : StoreOperation) (fit : Fit db) :
    Ends (operation.perform sorter) db (fun _ after => Fit after)
      (fun _ _ => True) := by
  cases operation with
  | storeAdd frame ledgerSeq =>
      exact (storeUpdate_ends sorter fit).mono (fun _ _ ended => ended.1)
        (fun _ _ => id)
  | storeChange frame ledgerSeq =>
      exact (storeUpdate_ends sorter fit).mono (fun _ _ ended => ended.1)
        (fun _ _ => id)
  | storeDelete accountID => exact storeDelete_ends fit
  | deleteAccountsModifiedOnOrAfterLedger oldestLedger =>
      exact deleteAccountsModifiedOnOrAfterLedger_ends fit

/-- What `applySigners` relies on holds in every run. -/
theorem fit_runStores (operations : List StoreOperation) (fit : Fit db) :
    Fit (runStores sorter operations db) := by
  induction operations generalizing db with
  | nil => exact fit
  | cons operation operations ih =>
      rw [runStores, List.foldl_cons]
      apply ih
      have ends := perform_ends sorter operation fit
      unfold Ends at ends
      split
      · rename_i after run
        rw [run] at ends
        exact ends
      · exact fit

end Runs

end StellarCore.Transactions
