import Mathlib.Tactic

/-!
# Least recently used caches

The items stand in the order of their last use, newest first, with one item
per key.  `put` and `get` move an item to the front, and `put` drops the last
one when there are too many.
-/

namespace StellarCore.Lib

structure LruCache (κ ν : Type) where
  maxSize : Nat
  items : List (κ × ν)
  distinct : (items.map Prod.fst).Nodup

namespace LruCache

variable {κ ν : Type} [DecidableEq κ]

def empty (maxSize : Nat) : LruCache κ ν :=
  { maxSize, items := [], distinct := List.nodup_nil }

/-- The items of the other keys, in their order. -/
def others (items : List (κ × ν)) (key : κ) : List (κ × ν) :=
  items.filter (fun item => item.1 ≠ key)

theorem others_distinct {items : List (κ × ν)} {key : κ}
    (distinct : (items.map Prod.fst).Nodup) :
    ((others items key).map Prod.fst).Nodup :=
  distinct.sublist (List.filter_sublist.map _)

theorem not_mem_others {items : List (κ × ν)} {key : κ} :
    key ∉ (others items key).map Prod.fst := by
  simp [others]

/-- The value a key has, without counting as a use. -/
def find? (cache : LruCache κ ν) (key : κ) : Option ν :=
  cache.items.lookup key

def contains (cache : LruCache κ ν) (key : κ) : Bool :=
  (cache.find? key).isSome

def front (cache : LruCache κ ν) (key : κ) (value : ν) : LruCache κ ν :=
  { cache with
    items := (key, value) :: others cache.items key
    distinct :=
      List.nodup_cons.mpr ⟨not_mem_others, others_distinct cache.distinct⟩ }

def shrink (cache : LruCache κ ν) : LruCache κ ν :=
  if cache.items.length > cache.maxSize then
    { cache with
      items := cache.items.dropLast
      distinct :=
        cache.distinct.sublist ((List.dropLast_sublist _).map _) }
  else
    cache

def put (cache : LruCache κ ν) (key : κ) (value : ν) : LruCache κ ν :=
  (cache.front key value).shrink

/-- The value of a key, whose item becomes the newest one. -/
def get? (cache : LruCache κ ν) (key : κ) :
    Option (ν × LruCache κ ν) :=
  (cache.find? key).map (fun value => (value, cache.front key value))

@[simp] theorem maxSize_put (cache : LruCache κ ν) (key : κ) (value : ν) :
    (cache.put key value).maxSize = cache.maxSize := by
  unfold put shrink
  split
  · rfl
  · rfl

theorem lookup_others {items : List (κ × ν)} {key asked : κ}
    (different : asked ≠ key) :
    (others items key).lookup asked = items.lookup asked := by
  induction items with
  | nil => rfl
  | cons item items ih =>
      obtain ⟨itemKey, value⟩ := item
      by_cases same : itemKey = key
      · have dropped : others ((itemKey, value) :: items) key =
            others items key := by
          simp [others, same]
        have unequal : (asked == itemKey) = false := by
          simpa [same] using different
        rw [dropped, ih, List.lookup_cons, unequal]
      · have kept : others ((itemKey, value) :: items) key =
            (itemKey, value) :: others items key := by
          simp [others, same]
        rw [kept, List.lookup_cons, List.lookup_cons, ih]

@[simp] theorem find?_front_self (cache : LruCache κ ν) (key : κ)
    (value : ν) : (cache.front key value).find? key = some value := by
  simp [find?, front]

theorem find?_front_of_ne (cache : LruCache κ ν) {key asked : κ}
    (value : ν) (different : asked ≠ key) :
    (cache.front key value).find? asked = cache.find? asked := by
  have unequal : (asked == key) = false := by
    simpa using different
  unfold find? front
  rw [List.lookup_cons, unequal]
  exact lookup_others different

/-- Using an item changes no value. -/
theorem find?_front (cache : LruCache κ ν) {key : κ} {value : ν}
    (found : cache.find? key = some value) (asked : κ) :
    (cache.front key value).find? asked = cache.find? asked := by
  by_cases same : asked = key
  · rw [same, find?_front_self, found]
  · exact cache.find?_front_of_ne value same

theorem lookup_dropLast {items : List (κ × ν)} {asked : κ} {value : ν}
    (found : items.dropLast.lookup asked = some value) :
    items.lookup asked = some value := by
  rcases List.eq_nil_or_concat items with none | ⟨front, last, all⟩
  · simp [none] at found
  · rw [all] at found ⊢
    simp only [List.concat_eq_append, List.dropLast_concat] at found
    simp [List.concat_eq_append, List.lookup_append, found]

/-- Dropping the last item can only make a value unknown. -/
theorem find?_shrink (cache : LruCache κ ν) {asked : κ} {value : ν}
    (found : cache.shrink.find? asked = some value) :
    cache.find? asked = some value := by
  unfold shrink at found
  split at found
  · exact lookup_dropLast found
  · exact found

/-- The key that was just put is known. -/
theorem find?_put_self (cache : LruCache κ ν) (key : κ) (value : ν)
    (room : 0 < cache.maxSize) :
    (cache.put key value).find? key = some value := by
  unfold put shrink
  split
  · rename_i full
    have more : 0 < (others cache.items key).length := by
      simp only [front, List.length_cons] at full
      omega
    show List.lookup key ((key, value) :: others cache.items key).dropLast =
      some value
    rw [List.dropLast_cons_of_ne_nil (List.ne_nil_of_length_pos more)]
    exact List.lookup_cons_self
  · exact find?_front_self cache key value

theorem find?_put_of_ne (cache : LruCache κ ν) {key asked : κ}
    {value found : ν} (different : asked ≠ key)
    (known : (cache.put key value).find? asked = some found) :
    cache.find? asked = some found := by
  have kept := (cache.front key value).find?_shrink known
  rwa [cache.find?_front_of_ne value different] at kept

/-- Without too many items a new one pushes none out. -/
theorem find?_put (cache : LruCache κ ν) (key asked : κ) (value : ν)
    (room : cache.items.length < cache.maxSize) :
    (cache.put key value).find? asked =
      if asked = key then some value else cache.find? asked := by
  have kept : cache.put key value = cache.front key value := by
    have shorter : (others cache.items key).length ≤ cache.items.length :=
      List.length_filter_le _ _
    unfold put shrink
    rw [if_neg]
    simp only [front, List.length_cons]
    omega
  rw [kept]
  split
  · rename_i same
    rw [same]
    exact find?_front_self cache key value
  · rename_i different
    exact find?_front_of_ne cache value different

theorem length_front_of_find? (cache : LruCache κ ν) {key : κ}
    {old : ν} (found : cache.find? key = some old) (value : ν) :
    (cache.front key value).items.length ≤ cache.items.length := by
  have member : (key, old) ∈ cache.items := by
    obtain ⟨before, after, split, -⟩ := List.lookup_eq_some_iff.mp found
    rw [split]
    exact List.mem_append_right _ List.mem_cons_self
  have fewer : (others cache.items key).length < cache.items.length := by
    apply List.length_filter_lt_length_iff_exists.mpr
    exact ⟨(key, old), member, by simp⟩
  simp only [front, List.length_cons]
  omega

theorem length_put (cache : LruCache κ ν) (key : κ) (value : ν) :
    (cache.put key value).items.length ≤ cache.items.length + 1 := by
  have shorter : (others cache.items key).length ≤ cache.items.length :=
    List.length_filter_le _ _
  unfold put shrink
  split
  · simp only [front, List.length_dropLast, List.length_cons]
    omega
  · simp only [front, List.length_cons]
    omega

/-- The item of a key is dropped. -/
def erase (cache : LruCache κ ν) (key : κ) : LruCache κ ν :=
  { cache with
    items := others cache.items key
    distinct := others_distinct cache.distinct }

theorem find?_erase (cache : LruCache κ ν) (key asked : κ) :
    (cache.erase key).find? asked =
      if asked = key then none else cache.find? asked := by
  unfold find? erase
  split
  · rename_i same
    subst same
    rw [List.lookup_eq_none_iff]
    intro item member
    rw [bne_iff_ne]
    intro equal
    have among : asked ∈ (others cache.items asked).map Prod.fst :=
      List.mem_map.mpr ⟨item, member, equal.symm⟩
    exact not_mem_others among
  · rename_i different
    exact lookup_others different

/-- The items whose value passes the test are dropped. -/
def eraseIf (cache : LruCache κ ν) (test : ν → Bool) : LruCache κ ν :=
  { cache with
    items := cache.items.filter (fun item => !test item.2)
    distinct := cache.distinct.sublist (List.filter_sublist.map _) }

omit [DecidableEq κ] in
theorem length_eraseIf (cache : LruCache κ ν) (test : ν → Bool) :
    (cache.eraseIf test).items.length ≤ cache.items.length :=
  List.length_filter_le _ _

private theorem lookup_filter {items : List (κ × ν)} (test : ν → Bool)
    (distinct : (items.map Prod.fst).Nodup) (asked : κ) :
    (items.filter (fun item => !test item.2)).lookup asked =
      (items.lookup asked).filter (fun value => !test value) := by
  induction items with
  | nil => rfl
  | cons item items ih =>
      obtain ⟨key, value⟩ := item
      rw [List.map_cons, List.nodup_cons] at distinct
      have rest := ih distinct.2
      by_cases same : asked = key
      · subst same
        have absent : items.lookup asked = none := by
          rw [List.lookup_eq_none_iff]
          intro item member
          rw [bne_iff_ne]
          intro equal
          apply distinct.1
          exact List.mem_map.mpr ⟨item, member, equal.symm⟩
        rw [List.lookup_cons_self]
        cases hit : test value with
        | true =>
            rw [List.filter_cons_of_neg (by simp [hit]), rest, absent,
              Option.filter_some_neg (by simp [hit])]
            rfl
        | false =>
            rw [List.filter_cons_of_pos (by simp [hit]),
              List.lookup_cons_self, Option.filter_some_pos (by simp [hit])]
      · have unequal : (asked == key) = false := by
          simpa using same
        cases hit : test value with
        | true =>
            rw [List.filter_cons_of_neg (by simp [hit]), rest,
              List.lookup_cons, unequal]
        | false =>
            rw [List.filter_cons_of_pos (by simp [hit]), List.lookup_cons,
              unequal, rest, List.lookup_cons, unequal]

theorem find?_eraseIf (cache : LruCache κ ν) (test : ν → Bool) (asked : κ) :
    (cache.eraseIf test).find? asked =
      (cache.find? asked).filter (fun value => !test value) :=
  lookup_filter test cache.distinct asked

end LruCache

end StellarCore.Lib
