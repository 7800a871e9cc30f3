import StellarCore.Buckets.Bucket

/-!
# What a merge keeps

The records offered to the output are the records of both inputs in order,
the new one where both have the key.  The merge writes those whose key is in
no shadow, less the dead ones if these are not kept.
-/

namespace StellarCore.Buckets

variable {κ ε : Type} [LinearOrder κ] (keyOf : ε → κ)

/-- Sorted strictly by identity. -/
def Sorted (bucket : Bucket κ ε) : Prop :=
  bucket.Pairwise (fun a b => a.key keyOf < b.key keyOf)

def keys (bucket : Bucket κ ε) : List κ :=
  bucket.map (BucketEntry.key keyOf)

def lookup (bucket : Bucket κ ε) (key : κ) : Option (BucketEntry κ ε) :=
  bucket.find? (fun entry => decide (entry.key keyOf = key))

def Shadowed (shadows : List (Bucket κ ε)) (key : κ) : Prop :=
  ∃ shadow ∈ shadows, key ∈ keys keyOf shadow

instance (shadows : List (Bucket κ ε)) (key : κ) :
    Decidable (Shadowed keyOf shadows key) :=
  inferInstanceAs (Decidable (∃ shadow ∈ shadows, _))

/-- Whether an output iterator lets a record through. -/
def kept (keepDeadEntries : Bool) (entry : BucketEntry κ ε) : Bool :=
  keepDeadEntries || !entry.isDead

omit [LinearOrder κ] in
@[simp] theorem filter_kept_true (found : Option (BucketEntry κ ε)) :
    found.filter (kept true) = found := by
  cases found with
  | none => rfl
  | some entry => rfl

variable {keyOf}

section Lookup

theorem Sorted.tail {entry : BucketEntry κ ε} {bucket : Bucket κ ε}
    (sorted : Sorted keyOf (entry :: bucket)) : Sorted keyOf bucket :=
  List.Pairwise.of_cons sorted

theorem Sorted.head_lt {entry other : BucketEntry κ ε}
    {bucket : Bucket κ ε} (sorted : Sorted keyOf (entry :: bucket))
    (member : other ∈ bucket) : entry.key keyOf < other.key keyOf :=
  List.rel_of_pairwise_cons sorted member

theorem Sorted.filter {bucket : Bucket κ ε} (sorted : Sorted keyOf bucket)
    (p : BucketEntry κ ε → Bool) : Sorted keyOf (bucket.filter p) :=
  List.Pairwise.filter p sorted

omit [LinearOrder κ] in
theorem mem_keys_iff {bucket : Bucket κ ε} {key : κ} :
    key ∈ keys keyOf bucket ↔ ∃ entry ∈ bucket, entry.key keyOf = key := by
  unfold keys
  exact List.mem_map

theorem Sorted.nodup_keys {bucket : Bucket κ ε}
    (sorted : Sorted keyOf bucket) : (keys keyOf bucket).Nodup := by
  unfold keys
  rw [List.Nodup, List.pairwise_map]
  exact sorted.imp fun less => less.ne

theorem Sorted.eq_of_key_eq {bucket : Bucket κ ε}
    (sorted : Sorted keyOf bucket) {a b : BucketEntry κ ε}
    (ma : a ∈ bucket) (mb : b ∈ bucket)
    (same : a.key keyOf = b.key keyOf) : a = b :=
  List.inj_on_of_nodup_map sorted.nodup_keys ma mb same

theorem lookup_eq_some_iff {bucket : Bucket κ ε}
    (sorted : Sorted keyOf bucket) {key : κ} {entry : BucketEntry κ ε} :
    lookup keyOf bucket key = some entry ↔
      entry ∈ bucket ∧ entry.key keyOf = key := by
  constructor
  · intro found
    have holds := List.find?_some found
    exact ⟨List.mem_of_find?_eq_some found, of_decide_eq_true holds⟩
  · rintro ⟨member, same⟩
    cases found : lookup keyOf bucket key with
    | none =>
        have missing := List.find?_eq_none.mp found entry member
        simp [same] at missing
    | some other =>
        have holds := List.find?_some found
        have inside := List.mem_of_find?_eq_some found
        rw [sorted.eq_of_key_eq inside member
          ((of_decide_eq_true holds).trans same.symm)]

theorem lookup_eq_none_iff {bucket : Bucket κ ε} {key : κ} :
    lookup keyOf bucket key = none ↔ key ∉ keys keyOf bucket := by
  unfold lookup keys
  simp [List.find?_eq_none]

theorem lookup_filter {bucket : Bucket κ ε}
    (sorted : Sorted keyOf bucket) (p : BucketEntry κ ε → Bool) (key : κ) :
    lookup keyOf (bucket.filter p) key =
      (lookup keyOf bucket key).filter p := by
  apply Option.ext
  intro entry
  rw [lookup_eq_some_iff (sorted.filter p), List.mem_filter,
    Option.filter_eq_some_iff, lookup_eq_some_iff sorted]
  tauto

end Lookup

section Output

/-- Everything written so far is below the key. -/
def OutputIterator.Below (keyOf : ε → κ) (out : OutputIterator κ ε)
    (key : κ) : Prop :=
  ∀ buf ∈ out.mBuf, buf.key keyOf < key

theorem OutputIterator.put_spec {out : OutputIterator κ ε}
    {entry : BucketEntry κ ε} (below : out.Below keyOf (entry.key keyOf)) :
    ∃ put, out.put keyOf entry = some put ∧
      put.mKeepDeadEntries = out.mKeepDeadEntries ∧
      put.getBucket =
        out.getBucket ++ [entry].filter (kept out.mKeepDeadEntries) ∧
      (∀ key, entry.key keyOf < key → put.Below keyOf key) := by
  unfold OutputIterator.put
  by_cases dropped : (!out.mKeepDeadEntries && entry.isDead) = true
  · rw [if_pos dropped]
    refine ⟨out, rfl, rfl, ?_, ?_⟩
    · have notKept : kept out.mKeepDeadEntries entry = false := by
        unfold kept
        simp_all
      simp [notKept]
    · intro key less buf buffered
      exact (below buf buffered).trans less
  · rw [if_neg dropped]
    have isKept : kept out.mKeepDeadEntries entry = true := by
      unfold kept
      cases keeps : out.mKeepDeadEntries with
      | true => rfl
      | false => simpa [keeps] using dropped
    have after : ∀ (put : OutputIterator κ ε) (key : κ),
        put.mBuf = some entry → entry.key keyOf < key →
          put.Below keyOf key := by
      intro put key buffered less buf member
      rw [buffered] at member
      cases member
      exact less
    cases buffered : out.mBuf with
    | none =>
        refine ⟨_, rfl, rfl, ?_, fun key => after _ key rfl⟩
        simp [OutputIterator.getBucket, buffered, isKept]
    | some buf =>
        have less := below buf buffered
        have notAbove : cmp keyOf entry buf = false :=
          decide_eq_false less.not_gt
        have flushes : cmp keyOf buf entry = true := decide_eq_true less
        simp only [notAbove, flushes, Bool.false_eq_true, if_false, if_true]
        refine ⟨_, rfl, rfl, ?_, fun key => after _ key rfl⟩
        simp [OutputIterator.getBucket, buffered, isKept]

/-- Going through a sorted shadow up to a key forgets only smaller keys. -/
theorem mem_keys_dropWhile {shadow : Bucket κ ε}
    {entry : BucketEntry κ ε} {key : κ}
    (above : entry.key keyOf ≤ key) :
    key ∈ keys keyOf (shadow.dropWhile (fun s => cmp keyOf s entry)) ↔
      key ∈ keys keyOf shadow := by
  induction shadow with
  | nil => rfl
  | cons first rest ih =>
      by_cases smaller : cmp keyOf first entry = true
      · rw [List.dropWhile_cons, if_pos smaller, ih]
        have less : first.key keyOf < entry.key keyOf :=
          of_decide_eq_true smaller
        simp only [keys, List.map_cons, List.mem_cons]
        constructor
        · exact Or.inr
        · rintro (same | member)
          · exact absurd same (less.trans_le above).ne'
          · exact member
      · rw [List.dropWhile_cons, if_neg smaller]

theorem Sorted.dropWhile {bucket : Bucket κ ε}
    (sorted : Sorted keyOf bucket) (p : BucketEntry κ ε → Bool) :
    Sorted keyOf (bucket.dropWhile p) :=
  List.Pairwise.sublist (List.dropWhile_sublist p) sorted

/-- Once smaller records are passed, only the first can have the key. -/
theorem mem_keys_dropWhile_iff_head {shadow : Bucket κ ε}
    {entry first : BucketEntry κ ε} {rest : Bucket κ ε}
    (sorted : Sorted keyOf shadow)
    (passed : shadow.dropWhile (fun s => cmp keyOf s entry) =
      first :: rest) :
    entry.key keyOf ∈ keys keyOf shadow ↔ cmp keyOf entry first = false := by
  have notSmaller : ¬ first.key keyOf < entry.key keyOf := by
    have stops := List.head_dropWhile_not
      (fun s => cmp keyOf s entry) (l := shadow) (by simp [passed])
    simp only [passed, List.head_cons] at stops
    exact of_decide_eq_false stops
  have sortedRest : Sorted keyOf (first :: rest) := by
    rw [← passed]
    exact sorted.dropWhile _
  rw [← mem_keys_dropWhile le_rfl, passed]
  simp only [cmp, decide_eq_false_iff_not]
  constructor
  · intro member less
    obtain ⟨other, inside, same⟩ := mem_keys_iff.mp member
    rcases List.mem_cons.mp inside with rfl | later
    · exact less.ne' same
    · exact (less.trans (sortedRest.head_lt later)).ne' same
  · intro notLarger
    have same : first.key keyOf = entry.key keyOf :=
      le_antisymm (not_lt.mp notLarger) (not_lt.mp notSmaller)
    exact mem_keys_iff.mpr ⟨first, List.mem_cons_self, same⟩

omit [LinearOrder κ] in
theorem shadowed_cons {shadow : Bucket κ ε} {shadows : List (Bucket κ ε)}
    {key : κ} :
    Shadowed keyOf (shadow :: shadows) key ↔
      key ∈ keys keyOf shadow ∨ Shadowed keyOf shadows key := by
  unfold Shadowed
  simp

/-- Shadows that have been passed up to a key still decide the keys from
there on. -/
structure Passed (keyOf : ε → κ) (shadows after : List (Bucket κ ε))
    (key : κ) : Prop where
  sorted : ∀ shadow ∈ after, Sorted keyOf shadow
  shadowed : ∀ other, key ≤ other →
    (Shadowed keyOf after other ↔ Shadowed keyOf shadows other)

theorem Passed.cons {shadow moved : Bucket κ ε}
    {shadows after : List (Bucket κ ε)} {key : κ}
    (passed : Passed keyOf shadows after key)
    (sorted : Sorted keyOf moved)
    (same : ∀ other, key ≤ other →
      (other ∈ keys keyOf moved ↔ other ∈ keys keyOf shadow)) :
    Passed keyOf (shadow :: shadows) (moved :: after) key := by
  constructor
  · intro bucket member
    rcases List.mem_cons.mp member with rfl | later
    · exact sorted
    · exact passed.sorted bucket later
  · intro other above
    rw [shadowed_cons, shadowed_cons, same other above,
      passed.shadowed other above]

theorem maybePut_spec (out : OutputIterator κ ε)
    (entry : BucketEntry κ ε) (shadows : List (Bucket κ ε))
    (sorted : ∀ shadow ∈ shadows, Sorted keyOf shadow) :
    ∃ after, Passed keyOf shadows after (entry.key keyOf) ∧
      maybePut keyOf out entry shadows =
        (if Shadowed keyOf shadows (entry.key keyOf) then some out
          else out.put keyOf entry).map (fun put => (put, after)) := by
  induction shadows with
  | nil =>
      refine ⟨[], ⟨by simp, fun _ _ => Iff.rfl⟩, ?_⟩
      have clear : ¬ Shadowed keyOf [] (entry.key keyOf) := by
        simp [Shadowed]
      rw [if_neg clear]
      rfl
  | cons shadow shadows ih =>
      have sortedHead := sorted shadow List.mem_cons_self
      have sortedRest := fun other member =>
        sorted other (List.mem_cons_of_mem shadow member)
      have sortedMoved := sortedHead.dropWhile
        (fun s => cmp keyOf s entry)
      have sameKeys : ∀ other, entry.key keyOf ≤ other →
          (other ∈ keys keyOf
              (shadow.dropWhile (fun s => cmp keyOf s entry)) ↔
            other ∈ keys keyOf shadow) :=
        fun other above => mem_keys_dropWhile above
      obtain ⟨after, passed, result⟩ := ih sortedRest
      unfold maybePut
      cases moved : shadow.dropWhile (fun s => cmp keyOf s entry) with
      | nil =>
          rw [moved] at sortedMoved sameKeys
          refine ⟨[] :: after, passed.cons sortedMoved sameKeys, ?_⟩
          have clear : entry.key keyOf ∉ keys keyOf shadow := by
            rw [← sameKeys _ le_rfl]
            simp [keys]
          simp only [shadowed_cons, clear, false_or, result,
            Option.map_map]
          rfl
      | cons first rest =>
          rw [moved] at sortedMoved sameKeys
          have decides := mem_keys_dropWhile_iff_head sortedHead moved
          by_cases larger : cmp keyOf entry first = true
          · refine ⟨(first :: rest) :: after,
              passed.cons sortedMoved sameKeys, ?_⟩
            have clear : entry.key keyOf ∉ keys keyOf shadow := by
              rw [decides, larger]
              simp
            simp only [larger, shadowed_cons, clear, false_or, result,
              Option.map_map]
            rfl
          · -- the early return: the later iterators have not moved
            have equal : cmp keyOf entry first = false := by
              simpa using larger
            have unmoved : Passed keyOf shadows shadows
                (entry.key keyOf) :=
              ⟨sortedRest, fun _ _ => Iff.rfl⟩
            refine ⟨(first :: rest) :: shadows,
              unmoved.cons sortedMoved sameKeys, ?_⟩
            have hit : Shadowed keyOf (shadow :: shadows)
                (entry.key keyOf) :=
              shadowed_cons.mpr (Or.inl (decides.mpr equal))
            simp [equal, hit]

end Output

section Merge

variable (keyOf) in
/-- The records that the loop of a merge offers to the output, in order. -/
def candidates (oi ni : Bucket κ ε) : Bucket κ ε :=
  match oi, ni with
  | [], [] => []
  | old :: oi, [] => old :: candidates oi []
  | [], new :: ni => new :: candidates [] ni
  | old :: oi, new :: ni =>
      if cmp keyOf old new then old :: candidates oi (new :: ni)
      else if cmp keyOf new old then new :: candidates (old :: oi) ni
      else new :: candidates oi ni
termination_by oi.length + ni.length

theorem mergeLoop_eq_foldlM (oi ni : Bucket κ ε)
    (shadows : List (Bucket κ ε)) (out : OutputIterator κ ε) :
    mergeLoop keyOf oi ni shadows out =
      ((candidates keyOf oi ni).foldlM
        (fun state entry => maybePut keyOf state.1 entry state.2)
        (out, shadows)).map Prod.fst := by
  fun_induction mergeLoop keyOf oi ni shadows out with
  | case1 => simp [candidates]
  | case2 shadows out old oi ih =>
      simp [candidates, ih, Option.map_bind]
  | case3 shadows out new ni ih =>
      simp [candidates, ih, Option.map_bind]
  | case4 shadows out old oi new ni less ih =>
      rw [candidates, if_pos less]
      simp [ih, Option.map_bind]
  | case5 shadows out old oi new ni notLess less ih =>
      rw [candidates, if_neg notLess, if_pos less]
      simp [ih, Option.map_bind]
  | case6 shadows out old oi new ni notLess notGreater ih =>
      rw [candidates, if_neg notLess, if_neg notGreater]
      simp [ih, Option.map_bind]

theorem mem_of_mem_candidates {oi ni : Bucket κ ε}
    {entry : BucketEntry κ ε} (member : entry ∈ candidates keyOf oi ni) :
    entry ∈ oi ∨ entry ∈ ni := by
  fun_induction candidates keyOf oi ni with
  | case1 => exact Or.inl member
  | case2 old oi ih => grind
  | case3 new ni ih => grind
  | case4 old oi new ni less ih => grind
  | case5 old oi new ni notLess less ih => grind
  | case6 old oi new ni notLess notGreater ih => grind

theorem sorted_cons_candidates {entry : BucketEntry κ ε}
    {oi ni : Bucket κ ε}
    (sorted : Sorted keyOf (candidates keyOf oi ni))
    (belowOld : ∀ old ∈ oi, entry.key keyOf < old.key keyOf)
    (belowNew : ∀ new ∈ ni, entry.key keyOf < new.key keyOf) :
    Sorted keyOf (entry :: candidates keyOf oi ni) := by
  apply List.Pairwise.cons _ sorted
  intro other member
  rcases mem_of_mem_candidates member with old | new
  · exact belowOld other old
  · exact belowNew other new

theorem below_of_head {entry first : BucketEntry κ ε}
    {rest : Bucket κ ε} (sorted : Sorted keyOf (first :: rest))
    (less : entry.key keyOf < first.key keyOf) :
    ∀ other ∈ first :: rest, entry.key keyOf < other.key keyOf := by
  intro other member
  rcases List.mem_cons.mp member with rfl | later
  · exact less
  · exact less.trans (sorted.head_lt later)

theorem key_eq_of_not_cmp {a b : BucketEntry κ ε}
    (notLess : ¬ cmp keyOf a b = true)
    (notGreater : ¬ cmp keyOf b a = true) :
    a.key keyOf = b.key keyOf := by
  simp only [cmp, decide_eq_true_eq, not_lt] at notLess notGreater
  exact le_antisymm notGreater notLess

theorem candidates_sorted {oi ni : Bucket κ ε}
    (sortedOld : Sorted keyOf oi) (sortedNew : Sorted keyOf ni) :
    Sorted keyOf (candidates keyOf oi ni) := by
  fun_induction candidates keyOf oi ni with
  | case1 => exact sortedOld
  | case2 old oi ih =>
      exact sorted_cons_candidates (ih sortedOld.tail sortedNew)
        (fun _ => sortedOld.head_lt) (by simp)
  | case3 new ni ih =>
      exact sorted_cons_candidates (ih sortedOld sortedNew.tail)
        (by simp) (fun _ => sortedNew.head_lt)
  | case4 old oi new ni less ih =>
      exact sorted_cons_candidates (ih sortedOld.tail sortedNew)
        (fun _ => sortedOld.head_lt)
        (below_of_head sortedNew (of_decide_eq_true less))
  | case5 old oi new ni notLess less ih =>
      exact sorted_cons_candidates (ih sortedOld sortedNew.tail)
        (below_of_head sortedOld (of_decide_eq_true less))
        (fun _ => sortedNew.head_lt)
  | case6 old oi new ni notLess notGreater ih =>
      have same := key_eq_of_not_cmp notLess notGreater
      apply sorted_cons_candidates (ih sortedOld.tail sortedNew.tail)
      · intro other member
        rw [← same]
        exact sortedOld.head_lt member
      · exact fun _ => sortedNew.head_lt

theorem lookup_cons (entry : BucketEntry κ ε) (bucket : Bucket κ ε)
    (key : κ) :
    lookup keyOf (entry :: bucket) key =
      if entry.key keyOf = key then some entry
      else lookup keyOf bucket key := by
  unfold lookup
  rw [List.find?_cons]
  by_cases same : entry.key keyOf = key
  · simp [same]
  · simp [same]

theorem lookup_eq_none_of_below {bucket : Bucket κ ε} {key : κ}
    (below : ∀ entry ∈ bucket, key < entry.key keyOf) :
    lookup keyOf bucket key = none := by
  apply lookup_eq_none_iff.mpr
  intro member
  obtain ⟨entry, inside, same⟩ := mem_keys_iff.mp member
  exact (below entry inside).ne' same

theorem lookup_candidates {oi ni : Bucket κ ε}
    (sortedOld : Sorted keyOf oi) (sortedNew : Sorted keyOf ni)
    (key : κ) :
    lookup keyOf (candidates keyOf oi ni) key =
      (lookup keyOf ni key).or (lookup keyOf oi key) := by
  fun_induction candidates keyOf oi ni with
  | case1 => rfl
  | case2 old oi ih =>
      rw [lookup_cons, lookup_cons, ih sortedOld.tail sortedNew]
      rfl
  | case3 new ni ih =>
      rw [lookup_cons, lookup_cons, ih sortedOld sortedNew.tail]
      split
      · rfl
      · rfl
  | case4 old oi new ni less ih =>
      rw [lookup_cons, ih sortedOld.tail sortedNew, lookup_cons old]
      split
      case isTrue same =>
        subst key
        rw [lookup_eq_none_of_below
          (below_of_head sortedNew (of_decide_eq_true less))]
        rfl
      case isFalse => rfl
  | case5 old oi new ni notLess less ih =>
      rw [lookup_cons, ih sortedOld sortedNew.tail, lookup_cons new]
      split
      · rfl
      · rfl
  | case6 old oi new ni notLess notGreater ih =>
      have same := key_eq_of_not_cmp notLess notGreater
      rw [lookup_cons, ih sortedOld.tail sortedNew.tail, lookup_cons new,
        lookup_cons old, same]
      split
      · rfl
      · rfl

/-- What the output lets through, over a whole run of the loop. -/
theorem foldlM_maybePut {entries : Bucket κ ε}
    (sorted : Sorted keyOf entries) (out : OutputIterator κ ε)
    (shadows : List (Bucket κ ε))
    (sortedShadows : ∀ shadow ∈ shadows, Sorted keyOf shadow)
    (below : ∀ entry ∈ entries, out.Below keyOf (entry.key keyOf)) :
    ∃ done after,
      entries.foldlM
          (fun state entry => maybePut keyOf state.1 entry state.2)
          (out, shadows) = some (done, after) ∧
        done.getBucket = out.getBucket ++ entries.filter (fun entry =>
          !decide (Shadowed keyOf shadows (entry.key keyOf)) &&
            kept out.mKeepDeadEntries entry) := by
  induction entries generalizing out shadows with
  | nil => exact ⟨out, shadows, rfl, by simp⟩
  | cons entry entries ih =>
      obtain ⟨after, passed, result⟩ :=
        maybePut_spec out entry shadows sortedShadows
      have later : ∀ other ∈ entries,
          (Shadowed keyOf after (other.key keyOf) ↔
            Shadowed keyOf shadows (other.key keyOf)) :=
        fun other member =>
          passed.shadowed _ (sorted.head_lt member).le
      rw [List.foldlM_cons, result]
      by_cases hit : Shadowed keyOf shadows (entry.key keyOf)
      · obtain ⟨done, rest, ends, written⟩ := ih sorted.tail out after
          passed.sorted
          (fun other member => below other (List.mem_cons_of_mem _ member))
        refine ⟨done, rest, ?_, ?_⟩
        · simpa [hit] using ends
        · rw [written, List.filter_cons]
          simp only [hit, decide_true, Bool.not_true, Bool.false_and,
            Bool.false_eq_true, if_false]
          congr 1
          apply List.filter_congr
          intro other member
          simp only [later other member]
      · obtain ⟨put, isPut, keeps, wrote, belowPut⟩ :=
          OutputIterator.put_spec (below entry List.mem_cons_self)
        obtain ⟨done, rest, ends, written⟩ := ih sorted.tail put after
          passed.sorted
          (fun other member => belowPut _ (sorted.head_lt member))
        refine ⟨done, rest, ?_, ?_⟩
        · simpa [hit, isPut] using ends
        · rw [written, wrote, keeps, List.append_assoc]
          congr 1
          rw [List.filter_cons, List.filter_cons]
          have same : entries.filter (fun other =>
              !decide (Shadowed keyOf after (other.key keyOf)) &&
                kept out.mKeepDeadEntries other) =
              entries.filter (fun other =>
                !decide (Shadowed keyOf shadows (other.key keyOf)) &&
                  kept out.mKeepDeadEntries other) := by
            apply List.filter_congr
            intro other member
            simp only [later other member]
          rw [same]
          simp only [hit, decide_false, Bool.not_false, Bool.true_and]
          split
          · rfl
          · rfl

/-- The merge as one filter over the two inputs. -/
theorem merge_eq {old new : Bucket κ ε} {shadows : List (Bucket κ ε)}
    (sortedOld : Sorted keyOf old) (sortedNew : Sorted keyOf new)
    (sortedShadows : ∀ shadow ∈ shadows, Sorted keyOf shadow)
    (keepDeadEntries : Bool) :
    merge keyOf old new shadows keepDeadEntries =
      some ((candidates keyOf old new).filter (fun entry =>
        !decide (Shadowed keyOf shadows (entry.key keyOf)) &&
          kept keepDeadEntries entry)) := by
  obtain ⟨done, after, ends, written⟩ := foldlM_maybePut
    (candidates_sorted sortedOld sortedNew)
    { mKeepDeadEntries := keepDeadEntries } shadows sortedShadows
    (fun entry _ buf buffered => by simp at buffered)
  unfold merge
  rw [mergeLoop_eq_foldlM, ends]
  simpa [OutputIterator.getBucket] using written

theorem merge_spec {old new : Bucket κ ε} {shadows : List (Bucket κ ε)}
    (sortedOld : Sorted keyOf old) (sortedNew : Sorted keyOf new)
    (sortedShadows : ∀ shadow ∈ shadows, Sorted keyOf shadow)
    (keepDeadEntries : Bool) :
    ∃ merged, merge keyOf old new shadows keepDeadEntries = some merged ∧
      Sorted keyOf merged ∧
      ∀ key, lookup keyOf merged key =
        if Shadowed keyOf shadows key then none
        else ((lookup keyOf new key).or (lookup keyOf old key)).filter
          (kept keepDeadEntries) := by
  refine ⟨_, merge_eq sortedOld sortedNew sortedShadows keepDeadEntries,
    (candidates_sorted sortedOld sortedNew).filter _, ?_⟩
  intro key
  rw [lookup_filter (candidates_sorted sortedOld sortedNew),
    ← lookup_candidates sortedOld sortedNew]
  cases found : lookup keyOf (candidates keyOf old new) key with
  | none => simp
  | some entry =>
      have same := ((lookup_eq_some_iff
        (candidates_sorted sortedOld sortedNew)).mp found).2
      rw [Option.filter_some, Option.filter_some, same]
      by_cases hit : Shadowed keyOf shadows key
      · simp [hit]
      · simp [hit]

variable (keyOf) in
/-- The new entry for a key, or the old one where there is no new one. -/
def Preferred (old new : Bucket κ ε) (entry : BucketEntry κ ε) : Prop :=
  entry ∈ new ∨ entry ∈ old ∧ entry.key keyOf ∉ keys keyOf new

theorem Sorted.mem_iff_lookup {bucket : Bucket κ ε}
    (sorted : Sorted keyOf bucket) {entry : BucketEntry κ ε} :
    entry ∈ bucket ↔ lookup keyOf bucket (entry.key keyOf) = some entry := by
  rw [lookup_eq_some_iff sorted]
  exact (and_iff_left rfl).symm

theorem preferred_iff {old new : Bucket κ ε}
    (sortedOld : Sorted keyOf old) (sortedNew : Sorted keyOf new)
    {entry : BucketEntry κ ε} :
    Preferred keyOf old new entry ↔
      (lookup keyOf new (entry.key keyOf)).or
        (lookup keyOf old (entry.key keyOf)) = some entry := by
  unfold Preferred
  rw [sortedNew.mem_iff_lookup, sortedOld.mem_iff_lookup,
    ← lookup_eq_none_iff]
  cases lookup keyOf new (entry.key keyOf) with
  | none => simp
  | some other => simp

theorem existsUnique_preferred {old new : Bucket κ ε}
    (sortedOld : Sorted keyOf old) (sortedNew : Sorted keyOf new) {key : κ}
    (present : key ∈ keys keyOf old ∨ key ∈ keys keyOf new) :
    ∃! entry, entry.key keyOf = key ∧ Preferred keyOf old new entry := by
  have found : ∃ entry, (lookup keyOf new key).or (lookup keyOf old key) =
      some entry := by
    rw [← Option.isSome_iff_exists, Option.isSome_or, Bool.or_eq_true,
      Option.isSome_iff_ne_none, Option.isSome_iff_ne_none, Ne, Ne,
      lookup_eq_none_iff, lookup_eq_none_iff, not_not, not_not]
    exact present.symm
  obtain ⟨entry, isFound⟩ := found
  have same : entry.key keyOf = key := by
    rw [Option.or_eq_some_iff] at isFound
    rcases isFound with inNew | ⟨_, inOld⟩
    · exact ((lookup_eq_some_iff sortedNew).mp inNew).2
    · exact ((lookup_eq_some_iff sortedOld).mp inOld).2
  refine ⟨entry, ⟨same, ?_⟩, ?_⟩
  · rw [preferred_iff sortedOld sortedNew, same]
    exact isFound
  · rintro other ⟨otherKey, preferred⟩
    rw [preferred_iff sortedOld sortedNew, otherKey, isFound] at preferred
    exact (Option.some.inj preferred).symm

end Merge

section Fresh

variable (keyOf) in
/-- The record that a batch of live entries and dead keys holds for a key. -/
def record (liveEntries : List ε) (deadEntries : List κ) (key : κ) :
    Option (BucketEntry κ ε) :=
  if key ∈ deadEntries then some (.deadEntry key)
  else (liveEntries.find? (fun entry => decide (keyOf entry = key))).map
    .liveEntry

theorem foldlM_put {entries : Bucket κ ε}
    (sorted : Sorted keyOf entries) :
    ∃ done,
      entries.foldlM (OutputIterator.put keyOf)
          { mKeepDeadEntries := true } = some done ∧
        done.getBucket = entries := by
  have noShadows : ∀ (entries : Bucket κ ε) (out : OutputIterator κ ε),
      entries.foldlM (OutputIterator.put keyOf) out =
        (entries.foldlM
          (fun state entry => maybePut keyOf state.1 entry state.2)
          (out, [])).map Prod.fst := by
    intro entries
    induction entries with
    | nil => exact fun _ => rfl
    | cons entry entries ih =>
        intro out
        have first : maybePut keyOf out entry [] =
            (out.put keyOf entry).map (fun put => (put, [])) := by
          rw [maybePut]
        rw [List.foldlM_cons, List.foldlM_cons, first]
        cases out.put keyOf entry with
        | none => rfl
        | some put => exact ih put
  obtain ⟨done, after, ends, written⟩ := foldlM_maybePut sorted
    { mKeepDeadEntries := true } [] (by simp)
    (fun entry _ buf buffered => by simp at buffered)
  refine ⟨done, ?_, ?_⟩
  · rw [noShadows, ends]
    rfl
  · rw [written]
    simp [OutputIterator.getBucket, Shadowed, kept]

theorem writeSorted_spec {entries : List (BucketEntry κ ε)}
    (distinct : (keys keyOf entries).Nodup) :
    ∃ bucket, writeSorted keyOf entries = some bucket ∧
      Sorted keyOf bucket ∧ bucket.Perm entries := by
  let le := fun a b : BucketEntry κ ε => a.key keyOf ≤ b.key keyOf
  have ordered : (entries.insertionSort le).Pairwise le := by
    have total : Std.Total le := ⟨fun a b => le_total _ _⟩
    have transitive : IsTrans _ le := ⟨fun a b c => le_trans⟩
    exact List.pairwise_insertionSort le entries
  have permuted : (entries.insertionSort le).Perm entries :=
    List.perm_insertionSort le entries
  have sorted : Sorted keyOf (entries.insertionSort le) := by
    have apart : (entries.insertionSort le).Pairwise
        (fun a b => a.key keyOf ≠ b.key keyOf) := by
      have nodup := (permuted.map (BucketEntry.key keyOf)).nodup_iff.mpr
        distinct
      rwa [List.Nodup, List.pairwise_map] at nodup
    exact (ordered.and apart).imp fun both =>
      lt_of_le_of_ne both.1 both.2
  obtain ⟨done, ends, written⟩ := foldlM_put sorted
  refine ⟨entries.insertionSort le, ?_, sorted, permuted⟩
  unfold writeSorted
  simp only [le] at ends written ⊢
  rw [ends]
  exact congrArg some written

theorem lookup_perm {bucket other : Bucket κ ε}
    (sorted : Sorted keyOf bucket) (permuted : bucket.Perm other)
    (key : κ) : lookup keyOf bucket key = lookup keyOf other key := by
  cases found : lookup keyOf other key with
  | none =>
      rw [lookup_eq_none_iff] at found ⊢
      exact fun member =>
        found ((permuted.map (BucketEntry.key keyOf)).mem_iff.mp member)
  | some entry =>
      have holds := List.find?_some found
      have inside := List.mem_of_find?_eq_some found
      exact (lookup_eq_some_iff sorted).mpr
        ⟨permuted.mem_iff.mpr inside, of_decide_eq_true holds⟩

theorem lookup_map_liveEntry (liveEntries : List ε) (key : κ) :
    lookup keyOf (liveEntries.map .liveEntry) key =
      (liveEntries.find? (fun entry => decide (keyOf entry = key))).map
        .liveEntry := by
  unfold lookup
  rw [List.find?_map]
  rfl

theorem lookup_map_deadEntry (deadEntries : List κ) (key : κ) :
    lookup keyOf (deadEntries.map .deadEntry) key =
      if key ∈ deadEntries then some (.deadEntry key) else none := by
  induction deadEntries with
  | nil => rfl
  | cons dead deadEntries ih =>
      rw [List.map_cons, lookup_cons, ih]
      simp only [BucketEntry.key, List.mem_cons]
      by_cases same : dead = key
      · simp [same]
      · simp [same, Ne.symm same]

theorem fresh_spec {liveEntries : List ε} {deadEntries : List κ}
    (distinct : (liveEntries.map keyOf ++ deadEntries).Nodup) :
    ∃ bucket, fresh keyOf liveEntries deadEntries = some bucket ∧
      Sorted keyOf bucket ∧
      ∀ key, lookup keyOf bucket key =
        record keyOf liveEntries deadEntries key := by
  have liveDistinct :
      (keys keyOf (liveEntries.map .liveEntry)).Nodup := by
    rw [keys, List.map_map]
    exact distinct.of_append_left
  have deadDistinct :
      (keys keyOf (deadEntries.map .deadEntry)).Nodup := by
    rw [keys, List.map_map]
    simpa [Function.comp_def, BucketEntry.key] using
      distinct.of_append_right
  obtain ⟨liveBucket, wroteLive, sortedLive, permLive⟩ :=
    writeSorted_spec liveDistinct
  obtain ⟨deadBucket, wroteDead, sortedDead, permDead⟩ :=
    writeSorted_spec deadDistinct
  obtain ⟨merged, merges, sorted, found⟩ :=
    merge_spec sortedLive sortedDead (List.forall_mem_nil _) true
  refine ⟨merged, ?_, sorted, ?_⟩
  · unfold fresh
    rw [wroteLive, wroteDead]
    exact merges
  · intro key
    rw [found, filter_kept_true, lookup_perm sortedLive permLive,
      lookup_perm sortedDead permDead, lookup_map_liveEntry,
      lookup_map_deadEntry]
    unfold record
    by_cases dead : key ∈ deadEntries
    · simp [dead, Shadowed]
    · simp [dead, Shadowed]

end Fresh

end StellarCore.Buckets
