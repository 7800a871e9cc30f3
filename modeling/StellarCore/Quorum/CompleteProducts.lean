import StellarCore.Quorum.Slices

/-!
# When an enumeration is complete

A product should show the union of every choice of one value of each
component.  It does so if at most one component after the first has several
values: the others are never reset.
-/

namespace StellarCore.Quorum

open StellarCore.Lib

namespace Enumerator

/-! ## What a loop over an enumerator sees -/

/-- The values from here to the end. -/
def Enumerates : Enumerator → List Bitset → Prop
  | e, [] => isLive e = false
  | e, v :: values =>
      isLive e = true ∧ value e = v ∧ Enumerates (next e) values

instance decidableEnumerates :
    (e : Enumerator) → (values : List Bitset) →
      Decidable (Enumerates e values)
  | e, [] => inferInstanceAs (Decidable (isLive e = false))
  | e, v :: values =>
      have := decidableEnumerates (next e) values
      inferInstanceAs (Decidable
        (isLive e = true ∧ value e = v ∧ Enumerates (next e) values))

/-- The loop ends, and has seen the expected values, each as often. -/
def Complete (e : Enumerator) (expected : List Bitset) : Prop :=
  ∃ values, Enumerates e values ∧ values.Perm expected

theorem Enumerates.unique {e : Enumerator} {first second : List Bitset}
    (one : Enumerates e first) (two : Enumerates e second) :
    first = second := by
  induction first generalizing e second with
  | nil =>
      cases second with
      | nil => rfl
      | cons v second =>
          have dead : isLive e = false := one
          have live : isLive e = true := two.1
          rw [dead] at live
          exact absurd live Bool.false_ne_true
  | cons v first ih =>
      cases second with
      | nil =>
          have dead : isLive e = false := two
          have live : isLive e = true := one.1
          rw [dead] at live
          exact absurd live Bool.false_ne_true
      | cons w second =>
          rw [ih one.2.2 two.2.2, ← one.2.1, ← two.2.1]

theorem complete_iff {e : Enumerator} {values expected : List Bitset}
    (enumerates : Enumerates e values) :
    Complete e expected ↔ values.Perm expected := by
  constructor
  · rintro ⟨others, seen, perm⟩
    rw [enumerates.unique seen]
    exact perm
  · exact fun perm => ⟨values, enumerates, perm⟩

theorem Follows.enumerates {stop : Enumerator → Bitset → Prop}
    (stops : ∀ e v, stop e v → isLive e = false) {e : Enumerator}
    {v : Bitset} {left : List Bitset} (live : isLive e = true)
    (follows : Follows stop e v left) : Enumerates e (v :: left) := by
  induction left generalizing e v with
  | nil => exact ⟨live, follows.1, stops _ _ follows.2⟩
  | cons w left ih =>
      exact ⟨live, follows.1, ih follows.2.1 follows.2.2⟩

theorem Visits.enumerates {stop : Enumerator → Bitset → Prop}
    (stops : ∀ e v, stop e v → isLive e = false) {e : Enumerator}
    {values : List Bitset} (visits : Visits stop e values) :
    Enumerates e values := by
  cases values with
  | nil => exact absurd visits id
  | cons v left => exact visits.2.enumerates stops visits.1

theorem Lists.enumerates {e : Enumerator} {values : List Bitset}
    (lists : Lists e values) : Enumerates (reset e) values :=
  Visits.enumerates (fun _ _ ended => (ended 0).1) lists

/-- The enumerator shows the values after a reset and then stays at its
end. -/
def Shows (e : Enumerator) (values : List Bitset) : Prop :=
  Visits Finished (reset e) values

theorem Shows.positive {e : Enumerator} {values : List Bitset}
    (shows : Shows e values) : 0 < values.length := by
  cases values with
  | nil => exact absurd shows id
  | cons v left => exact Nat.succ_pos _

theorem Follows.iterate {e : Enumerator} {v : Bitset} {left : List Bitset}
    (live : isLive e = true) (follows : Follows Finished e v left)
    (steps : ℕ) :
    isLive (next^[steps] e) = decide (steps < (v :: left).length) ∧
      ∀ w, (v :: left)[steps]? = some w → value (next^[steps] e) = w := by
  induction left generalizing e v steps with
  | nil =>
      cases steps with
      | zero =>
          refine ⟨live, ?_⟩
          intro w here
          rw [← Option.some.inj here]
          exact follows.1
      | succ steps =>
          refine ⟨follows.2 steps, ?_⟩
          intro w outside
          cases outside
  | cons u left ih =>
      cases steps with
      | zero =>
          refine ⟨live, ?_⟩
          intro w here
          rw [← Option.some.inj here]
          exact follows.1
      | succ steps =>
          obtain ⟨stillLive, shown⟩ := ih follows.2.1 follows.2.2 steps
          refine ⟨?_, shown⟩
          rw [Function.iterate_succ_apply, stillLive]
          exact decide_eq_decide.mpr Nat.succ_lt_succ_iff.symm

/-- Where the enumerator is after some steps. -/
theorem Shows.iterate {e : Enumerator} {values : List Bitset}
    (shows : Shows e values) (steps : ℕ) :
    isLive (next^[steps] (reset e)) = decide (steps < values.length) ∧
      ∀ w, values[steps]? = some w →
        value (next^[steps] (reset e)) = w := by
  cases values with
  | nil => exact absurd shows id
  | cons v left => exact Follows.iterate shows.1 shows.2 steps

/-! ## Products -/

/-- A component with the values it shows. -/
abbrev Component := Enumerator × List Bitset

def counts (parts : List Component) : List ℕ :=
  parts.map (fun part => part.2.length)

/-- The components after the first when they have turned `t` times: each
turns once more as long as those before it are at their end. -/
def turned : ℕ → List Component → List Enumerator
  | _, [] => []
  | t, part :: parts =>
      next^[t] (reset part.1) :: turned (t - (part.2.length - 1)) parts

theorem turned_zero (parts : List Component) :
    turned 0 parts = parts.map (fun part => reset part.1) := by
  induction parts with
  | nil => rfl
  | cons part parts ih =>
      rw [turned, Nat.zero_sub, ih]
      rfl

theorem turned_eq_of_le {part : Component} {parts : List Component}
    {t u : ℕ} (first : t ≤ part.2.length - 1)
    (second : u ≤ part.2.length - 1) :
    turned (t - (part.2.length - 1)) parts =
      turned (u - (part.2.length - 1)) parts := by
  rw [Nat.sub_eq_zero_of_le first, Nat.sub_eq_zero_of_le second]

theorem carry_turned {parts : List Component}
    (shows : ∀ part ∈ parts, Shows part.1 part.2) (t : ℕ) :
    carry (turned t parts) =
      (turned (t + 1) parts, decide (t + 1 < turnCount (counts parts))) := by
  induction parts generalizing t with
  | nil => rfl
  | cons part parts ih =>
      have rest : ∀ other ∈ parts, Shows other.1 other.2 :=
        fun other member => shows other (List.mem_cons_of_mem part member)
      have first := shows part List.mem_cons_self
      have positive := first.positive
      have live := (first.iterate (t + 1)).1
      have count : turnCount (counts (part :: parts)) =
          (part.2.length - 1) + turnCount (counts parts) :=
        turnCount_cons _ _
      have some : 0 < turnCount (counts parts) := Nat.succ_pos _
      rw [turned, turned, carry, count,
        ← Function.iterate_succ_apply' Enumerator.next t, live]
      by_cases more : t + 1 < part.2.length
      · have found : t + 1 < (part.2.length - 1) + turnCount (counts parts) :=
          by omega
        simp only [more, found, decide_true, if_true]
        rw [turned_eq_of_le (by omega : t ≤ part.2.length - 1)
          (by omega : t + 1 ≤ part.2.length - 1)]
      · have later : t - (part.2.length - 1) + 1 =
            t + 1 - (part.2.length - 1) := by
          omega
        have same : (t + 1 - (part.2.length - 1) <
            turnCount (counts parts)) ↔
              t + 1 < (part.2.length - 1) + turnCount (counts parts) := by
          omega
        simp only [more, decide_false, Bool.false_eq_true, if_false]
        rw [ih rest, later, decide_eq_decide.mpr same]

/-- After the last turn all of them are at their end. -/
theorem anyLive_turned {parts : List Component}
    (shows : ∀ part ∈ parts, Shows part.1 part.2) {t : ℕ}
    (done : turnCount (counts parts) ≤ t) :
    anyLive (turned t parts) = false := by
  induction parts generalizing t with
  | nil => rfl
  | cons part parts ih =>
      have first := shows part List.mem_cons_self
      have live := (first.iterate t).1
      have positive := first.positive
      have count : turnCount (counts (part :: parts)) =
          (part.2.length - 1) + turnCount (counts parts) :=
        turnCount_cons _ _
      have some : 0 < turnCount (counts parts) := Nat.succ_pos _
      rw [turned, anyLive, live, ih
        (fun other member => shows other (List.mem_cons_of_mem part member))
        (by omega)]
      have ended : ¬ t < part.2.length := by omega
      rw [decide_eq_false ended]
      rfl

/-- The values of all turns from `t` on. -/
def turnValues (values : List Bitset) (parts : List Component) (t : ℕ) :
    List Bitset :=
  (List.range' t (turnCount (counts parts) - t)).flatMap (fun u =>
    values.map (· ||| valueAll (turned u parts)))

/-- The first component runs through its values once. -/
theorem product_first {e : Enumerator} {enums : List Enumerator}
    {v : Bitset} {left rest : List Bitset}
    (live : isLive e = true) (follows : Follows Finished e v left)
    (atLast : ∀ last w, isLive last = true → reset last = reset e →
      Follows Finished last w [] →
        Enumerates (next (product (last :: enums))) rest) :
    Enumerates (product (e :: enums))
      ((v :: left).map (· ||| valueAll enums) ++ rest) := by
  have liveProduct : isLive (product (e :: enums)) = true := by
    rw [isLive, anyLive, live, Bool.true_or]
  have shown : value (product (e :: enums)) = v ||| valueAll enums := by
    rw [value, valueAll, follows.value_eq]
  induction left generalizing e v with
  | nil => exact ⟨liveProduct, shown, atLast e v live rfl follows⟩
  | cons w left ih =>
      obtain ⟨_, stillLive, later⟩ := follows
      have step : next (product (e :: enums)) =
          product (next e :: enums) := by
        simp only [next, nextAll, live, stillLive, Bool.not_true,
          Bool.false_eq_true, if_false, if_true]
      refine ⟨liveProduct, shown, ?_⟩
      rw [step]
      refine ih stillLive later ?_ ?_ ?_
      · intro last u lastLive same
        exact atLast last u lastLive (same.trans (reset_next e))
      · rw [isLive, anyLive, stillLive, Bool.true_or]
      · rw [value, valueAll, later.value_eq]

theorem turnValues_succ (values : List Bitset) {parts : List Component}
    {t : ℕ} (more : t < turnCount (counts parts)) :
    turnValues values parts t =
      values.map (· ||| valueAll (turned t parts)) ++
        turnValues values parts (t + 1) := by
  unfold turnValues
  have length : turnCount (counts parts) - t =
      turnCount (counts parts) - (t + 1) + 1 := by
    omega
  rw [length, List.range'_succ, List.flatMap_cons]

theorem turnValues_done (values : List Bitset) {parts : List Component}
    {t : ℕ} (done : turnCount (counts parts) ≤ t) :
    turnValues values parts t = [] := by
  unfold turnValues
  rw [Nat.sub_eq_zero_of_le done]
  rfl

/-- The first component runs through its values at every turn. -/
theorem product_turns {first : Component} {parts : List Component}
    (firstShows : Shows first.1 first.2)
    (shows : ∀ part ∈ parts, Shows part.1 part.2) {t : ℕ}
    (more : t < turnCount (counts parts)) :
    Enumerates (product (reset first.1 :: turned t parts))
      (turnValues first.2 parts t) := by
  obtain ⟨e, values⟩ := first
  cases values with
  | nil => exact absurd firstShows id
  | cons v left =>
      induction waiting : turnCount (counts parts) - (t + 1)
        generalizing t with
      | zero =>
          have done : turnCount (counts parts) ≤ t + 1 := by omega
          rw [turnValues_succ _ more, turnValues_done _ done]
          refine product_first firstShows.1 firstShows.2 ?_
          intro last w live same follows
          have ended : isLive (next last) = false := follows.2 0
          have rest := anyLive_turned shows done
          simp only [next, nextAll, live, ended, Bool.not_true,
            Bool.false_eq_true, if_false, carry_turned shows,
            not_lt.mpr done, decide_false]
          show isLive (product _) = false
          rw [isLive, anyLive, ended, rest]
          rfl
      | succ k ih =>
          have again : t + 1 < turnCount (counts parts) := by omega
          rw [turnValues_succ _ more]
          refine product_first firstShows.1 firstShows.2 ?_
          intro last w live same follows
          have ended : isLive (next last) = false := follows.2 0
          have start : reset (next last) = reset e := by
            rw [reset_next, same, reset_reset]
          simp only [next, nextAll, live, ended, Bool.not_true,
            Bool.false_eq_true, if_false, carry_turned shows, again,
            decide_true, start]
          exact ih again (by omega)

theorem newProduct_enumerates {first : Component} {parts : List Component}
    (firstShows : Shows first.1 first.2)
    (shows : ∀ part ∈ parts, Shows part.1 part.2) :
    Enumerates (product (((first :: parts).map Prod.fst).map reset))
      (turnValues first.2 parts 0) := by
  have some : 0 < turnCount (counts parts) := Nat.succ_pos _
  have turns := product_turns firstShows shows some
  rw [turned_zero] at turns
  rw [List.map_map]
  exact turns

/-! ## Every combination -/

/-- The unions of every choice of one value from each list. -/
def combined : List (List Bitset) → List Bitset
  | [] => [0]
  | values :: lists =>
      (combined lists).flatMap (fun c => values.map (· ||| c))

theorem length_combined (lists : List (List Bitset)) :
    (combined lists).length = (lists.map List.length).prod := by
  induction lists with
  | nil => rfl
  | cons values lists ih =>
      rw [combined, List.length_flatMap, List.map_cons, List.prod_cons]
      simp only [List.length_map, List.map_const', List.sum_replicate, ih,
        smul_eq_mul]
      exact Nat.mul_comm _ _

theorem length_turnValues (values : List Bitset) (parts : List Component) :
    (turnValues values parts 0).length =
      values.length * turnCount (counts parts) := by
  unfold turnValues
  rw [List.length_flatMap]
  simp only [List.length_map, List.map_const', List.sum_replicate,
    List.length_range', Nat.sub_zero, smul_eq_mul]
  exact Nat.mul_comm _ _

/-- A component with one value goes on showing it after its end. -/
def Keeps (part : Component) : Prop :=
  ∀ v, part.2 = [v] → ∀ steps, value (next^[steps] (reset part.1)) = v

/-- Those with one value keep it as long as a later component turns. -/
def Kept : List Component → Prop
  | [] => True
  | part :: parts =>
      ((∃ other ∈ parts, 1 < other.2.length) → Keeps part) ∧ Kept parts

theorem Lists.keeps {e : Enumerator} {values : List Bitset}
    (lists : Lists e values) : Keeps (e, values) := by
  rintro v rfl steps
  obtain ⟨_, shown, ended⟩ := lists
  cases steps with
  | zero => exact shown
  | succ steps => exact (ended steps).2

theorem turnCount_eq_one_of_alone {parts : List Component}
    (alone : ¬ ∃ other ∈ parts, 1 < other.2.length) :
    turnCount (counts parts) = 1 := by
  apply turnCount_eq_one
  rw [List.countP_eq_zero]
  intro count member several
  obtain ⟨other, inside, rfl⟩ := List.mem_map.mp member
  exact alone ⟨other, inside, of_decide_eq_true several⟩

/-- A component with one value shows it at every turn. -/
theorem Kept.shown {e : Enumerator} {v : Bitset} {parts : List Component}
    (kept : Kept ((e, [v]) :: parts)) (shows : Shows e [v]) {t : ℕ}
    (turn : t < turnCount (counts parts)) :
    value (next^[t] (reset e)) = v := by
  by_cases turning : ∃ other ∈ parts, 1 < other.2.length
  · exact kept.1 turning v rfl t
  · rw [turnCount_eq_one_of_alone turning] at turn
    obtain rfl := Nat.lt_one_iff.mp turn
    exact (shows.iterate 0).2 v rfl

/-- If one component at most turns, the turns are all combinations. -/
theorem turned_combined {parts : List Component}
    (shows : ∀ part ∈ parts, Shows part.1 part.2)
    (one : AtMostOneTurns (counts parts)) (kept : Kept parts) :
    (List.range (turnCount (counts parts))).map
        (fun t => valueAll (turned t parts)) =
      combined (parts.map Prod.snd) := by
  induction parts with
  | nil => rfl
  | cons part parts ih =>
      obtain ⟨e, values⟩ := part
      have first := shows _ List.mem_cons_self
      have rest := ih
        (fun other member => shows other (List.mem_cons_of_mem _ member))
      have count : turnCount (counts ((e, values) :: parts)) =
          (values.length - 1) + turnCount (counts parts) :=
        turnCount_cons _ _
      unfold AtMostOneTurns at one
      rw [counts, List.map_cons, List.countP_cons] at one
      rw [List.map_cons, combined, count]
      by_cases several : 1 < values.length
      · -- the components after this one have a single value each
        have alone : (counts parts).countP (fun n => decide (1 < n)) = 0 := by
          rw [if_pos (decide_eq_true several)] at one
          exact Nat.le_zero.mp (Nat.le_of_add_le_add_right one)
        have single := turnCount_eq_one alone
        have atStart := rest (by unfold AtMostOneTurns; omega) kept.2
        rw [single, List.range_one, List.map_singleton] at atStart
        rw [single, ← atStart, List.flatMap_singleton]
        dsimp only
        apply List.ext_getElem
        · rw [List.length_map, List.length_map, List.length_range]
          omega
        · intro t inside _
          rw [List.length_map, List.length_range] at inside
          have within : t < values.length := by omega
          have early : t ≤ values.length - 1 := by omega
          have shown := (first.iterate t).2 _
            (List.getElem?_eq_getElem within)
          rw [List.getElem_map, List.getElem_map, List.getElem_range, turned,
            valueAll, shown, Nat.sub_eq_zero_of_le early]
      · have positive : 0 < values.length := first.positive
        obtain ⟨v, rfl⟩ := List.length_eq_one_iff.mp
          (by omega : values.length = 1)
        have fewRest : AtMostOneTurns (counts parts) := by
          unfold AtMostOneTurns counts
          omega
        rw [← rest fewRest kept.2, List.length_singleton, Nat.sub_self,
          Nat.zero_add, List.flatMap_map, List.map_eq_flatMap]
        apply List.flatMap_congr
        intro t inside
        have shown := kept.shown first (List.mem_range.mp inside)
        simp only [turned, valueAll, shown, List.length_singleton,
          Nat.sub_self, Nat.sub_zero, List.map_singleton]

theorem turnValues_combined {first : Component} {parts : List Component}
    (shows : ∀ part ∈ parts, Shows part.1 part.2)
    (one : AtMostOneTurns (counts parts)) (kept : Kept parts) :
    turnValues first.2 parts 0 =
      combined ((first :: parts).map Prod.snd) := by
  rw [List.map_cons, combined, ← turned_combined shows one kept,
    List.flatMap_map, turnValues, List.range_eq_range', Nat.sub_zero]

theorem counts_cons (part : Component) (parts : List Component) :
    counts (part :: parts) = part.2.length :: counts parts :=
  rfl

theorem map_length_snd (parts : List Component) :
    (parts.map Prod.snd).map List.length = counts parts := by
  rw [List.map_map]
  rfl

theorem counts_pos {parts : List Component}
    (shows : ∀ part ∈ parts, Shows part.1 part.2) :
    ∀ n ∈ counts parts, 0 < n := by
  intro n member
  obtain ⟨part, inside, rfl⟩ := List.mem_map.mp member
  exact (shows part inside).positive

/-- At most as many values are seen as there are combinations. -/
theorem length_turnValues_le {first : Component} {parts : List Component}
    (shows : ∀ part ∈ parts, Shows part.1 part.2) :
    (turnValues first.2 parts 0).length ≤
      (combined ((first :: parts).map Prod.snd)).length := by
  rw [length_turnValues, length_combined, map_length_snd,
    counts_cons, List.prod_cons]
  exact Nat.mul_le_mul_left _ (turnCount_le_prod (counts_pos shows))

theorem length_turnValues_eq_iff {first : Component}
    {parts : List Component} (firstShows : Shows first.1 first.2)
    (shows : ∀ part ∈ parts, Shows part.1 part.2) :
    (turnValues first.2 parts 0).length =
        (combined ((first :: parts).map Prod.snd)).length ↔
      AtMostOneTurns (counts parts) := by
  rw [length_turnValues, length_combined, map_length_snd,
    counts_cons, List.prod_cons,
    ← turnCount_eq_prod_iff (counts_pos shows)]
  exact Nat.mul_right_inj firstShows.positive.ne'

/-- What a product needs of the number of values. -/
def OneTurns (parts : List Component) : Prop :=
  parts ≠ [] ∧ AtMostOneTurns (counts parts.tail)

/-- The condition for a product of the components. -/
def Turns (parts : List Component) : Prop :=
  OneTurns parts ∧ Kept parts.tail

/-- Under the condition every value is seen; what is needed holds whenever
every value is seen. -/
def CompleteWhen (e : Enumerator) (expected : List Bitset)
    (condition needed : Prop) : Prop :=
  (condition → Complete e expected) ∧ (Complete e expected → needed)

theorem newProduct_complete {parts : List Component}
    (shows : ∀ part ∈ parts, Shows part.1 part.2) :
    CompleteWhen (newProduct (parts.map Prod.fst))
      (combined (parts.map Prod.snd)) (Turns parts) (OneTurns parts) := by
  rw [newProduct, resetAll_eq_map]
  cases parts with
  | nil =>
      constructor
      · exact fun turns => absurd rfl turns.1.1
      · rintro ⟨values, enumerates, perm⟩
        have none : Enumerates (product []) [] := rfl
        have length := perm.length_eq
        rw [enumerates.unique none] at length
        exact absurd length Nat.zero_ne_one
  | cons first parts =>
      have firstShows := shows first List.mem_cons_self
      have rest : ∀ other ∈ parts, Shows other.1 other.2 :=
        fun other member => shows other (List.mem_cons_of_mem first member)
      have seen := newProduct_enumerates firstShows rest
      unfold CompleteWhen
      rw [complete_iff seen]
      constructor
      · rintro ⟨⟨_, one⟩, kept⟩
        rw [turnValues_combined rest one kept]
      · intro perm
        exact ⟨List.cons_ne_nil _ _,
          (length_turnValues_eq_iff firstShows rest).mp perm.length_eq⟩

/-! ## Selections -/

/-- What a product of the components shows. -/
def productSeen : List Component → List Bitset
  | [] => []
  | first :: parts => turnValues first.2 parts 0

theorem productSeen_enumerates {parts : List Component}
    (shows : ∀ part ∈ parts, Shows part.1 part.2) :
    Enumerates (product ((parts.map Prod.fst).map reset))
      (productSeen parts) := by
  cases parts with
  | nil => rfl
  | cons first parts =>
      exact newProduct_enumerates (shows first List.mem_cons_self)
        (fun other member => shows other (List.mem_cons_of_mem first member))

section Selection

variable {inner : List Enumerator} {index : Enumerator}

/-- The selection goes through its product and then on to the next one. -/
theorem selection_product {prod : List Enumerator}
    {values rest : List Bitset} (live : anyLive prod = true)
    (seen : Enumerates (product prod) values)
    (after : ∀ ended, anyLive ended = false →
      Enumerates (selection inner (next index)
        (if isLive (next index) then select (value (next index)) inner
          else ended)) rest) :
    Enumerates (selection inner index prod) (values ++ rest) := by
  induction values generalizing prod with
  | nil =>
      have dead : anyLive prod = false := seen
      rw [dead] at live
      exact absurd live Bool.false_ne_true
  | cons v values ih =>
      obtain ⟨_, shown, later⟩ := seen
      refine ⟨?_, shown, ?_⟩
      · rw [isLive, live, Bool.true_or]
      · cases values with
        | nil =>
            have ended : anyLive (nextAll prod) = false := later
            rw [next_selection_of_end live ended]
            exact after _ ended
        | cons w values =>
            have stillLive : anyLive (nextAll prod) = true := later.1
            rw [next_selection_of_live live stillLive]
            exact ih stillLive later

theorem newSelection_enumerates {parts : List Component}
    (shows : ∀ part ∈ parts, Shows part.1 part.2)
    {places : List Bitset} (enumerates : Enumerates index places)
    (begins : places ≠ [])
    (some : ∀ bits ∈ places, pick bits.toNat parts ≠ []) :
    Enumerates (newSelection index (parts.map Prod.fst))
      (places.flatMap (fun bits => productSeen (pick bits.toNat parts))) := by
  rw [newSelection, ← select_resetAll]
  generalize same : resetAll (parts.map Prod.fst) = inner
  have selected : ∀ bits : Bitset, select bits inner =
      ((pick bits.toNat parts).map Prod.fst).map reset := by
    intro bits
    rw [← same, select_resetAll, select_eq_map_pick, pick_map]
  induction places generalizing index with
  | nil => exact absurd rfl begins
  | cons bits places ih =>
      obtain ⟨indexLive, shown, later⟩ := enumerates
      have chosen : ∀ part ∈ pick bits.toNat parts, Shows part.1 part.2 :=
        fun part member => shows part ((pick_sublist _ _).subset member)
      have seen := productSeen_enumerates chosen
      rw [← selected] at seen
      have live : anyLive (select bits inner) = true := by
        cases picked : pick bits.toNat parts with
        | nil => exact absurd picked (some bits List.mem_cons_self)
        | cons first others =>
            rw [picked] at chosen
            have firstShows := chosen first List.mem_cons_self
            have firstLive := (firstShows.iterate 0).1
            have positive := firstShows.positive
            rw [selected, picked, List.map_cons, List.map_cons, anyLive]
            have firstLive : isLive (reset first.1) = true :=
              firstLive.trans (decide_eq_true positive)
            rw [firstLive, Bool.true_or]
      rw [List.flatMap_cons, shown]
      refine selection_product live seen ?_
      intro ended dead
      cases places with
      | nil =>
          have indexDead : isLive (next index) = false := later
          show isLive (selection _ _ _) = false
          rw [isLive, indexDead, if_neg Bool.false_ne_true, dead]
          rfl
      | cons more places =>
          rw [if_pos later.1]
          exact ih later (List.cons_ne_nil _ _)
            (fun bits member => some bits (List.mem_cons_of_mem _ member))

theorem length_productSeen_le {parts : List Component}
    (shows : ∀ part ∈ parts, Shows part.1 part.2) :
    (productSeen parts).length ≤
      (combined (parts.map Prod.snd)).length := by
  cases parts with
  | nil => exact Nat.zero_le _
  | cons first parts =>
      exact length_turnValues_le
        (fun other member => shows other (List.mem_cons_of_mem first member))

theorem length_productSeen_eq_iff {parts : List Component}
    (shows : ∀ part ∈ parts, Shows part.1 part.2) :
    (productSeen parts).length =
      (combined (parts.map Prod.snd)).length ↔ OneTurns parts := by
  unfold OneTurns
  cases parts with
  | nil => simp [productSeen, combined]
  | cons first parts =>
      rw [productSeen, length_turnValues_eq_iff (shows _ List.mem_cons_self)
        (fun other member => shows other (List.mem_cons_of_mem first member))]
      exact (and_iff_right (List.cons_ne_nil _ _)).symm

theorem productSeen_combined {parts : List Component}
    (shows : ∀ part ∈ parts, Shows part.1 part.2)
    (turns : Turns parts) :
    productSeen parts = combined (parts.map Prod.snd) := by
  cases parts with
  | nil => exact absurd rfl turns.1.1
  | cons first parts =>
      exact turnValues_combined
        (fun other member => shows other (List.mem_cons_of_mem first member))
        turns.1.2 turns.2

/-- The index goes through the selected components, as numbers. -/
theorem newSelection_complete {parts : List Component}
    (shows : ∀ part ∈ parts, Shows part.1 part.2)
    (small : parts.length ≤ 64) {places : List ℕ}
    (enumerates : Enumerates index (places.map (BitVec.ofNat 64)))
    (begins : places ≠ [])
    (bounds : ∀ bits ∈ places, 0 < bits ∧ bits < 2 ^ parts.length)
    {selected : List (List Component)}
    (picks : places.map (fun bits => pick bits parts) = selected) :
    CompleteWhen (newSelection index (parts.map Prod.fst))
      (selected.flatMap (fun chosen => combined (chosen.map Prod.snd)))
      (∀ chosen ∈ selected, Turns chosen)
      (∀ chosen ∈ selected, OneTurns chosen) := by
  have inside : ∀ chosen ∈ selected, chosen ⊆ parts := by
    intro chosen member
    rw [← picks] at member
    obtain ⟨bits, _, rfl⟩ := List.mem_map.mp member
    exact (pick_sublist bits parts).subset
  have number : ∀ bits ∈ places, (BitVec.ofNat 64 bits).toNat = bits := by
    intro bits member
    have power : 2 ^ parts.length ≤ 2 ^ 64 :=
      Nat.pow_le_pow_right (by norm_num) small
    exact Nat.mod_eq_of_lt ((bounds bits member).2.trans_le power)
  have seen : Enumerates (newSelection index (parts.map Prod.fst))
      (selected.flatMap productSeen) := by
    have values := newSelection_enumerates shows enumerates
      (by rwa [Ne, List.map_eq_nil_iff]) (by
        intro bits member
        obtain ⟨n, place, rfl⟩ := List.mem_map.mp member
        rw [number n place]
        exact pick_ne_nil (bounds n place).1.ne' (bounds n place).2)
    have same := List.flatMap_congr (l := places) (fun bits member =>
      congrArg (fun n => productSeen (pick n parts)) (number bits member))
    rw [List.flatMap_map, same] at values
    rwa [← picks, List.flatMap_map]
  unfold CompleteWhen
  rw [complete_iff seen]
  constructor
  · intro turns
    have same := List.flatMap_congr (l := selected) (fun chosen member =>
      productSeen_combined
        (fun part place => shows part (inside chosen member place))
        (turns chosen member))
    rw [same]
  · intro perm
    have length := perm.length_eq
    rw [List.length_flatMap, List.length_flatMap,
      sum_map_eq_iff_of_le] at length
    · intro chosen member
      exact (length_productSeen_eq_iff
        (fun part place => shows part (inside chosen member place))).mp
          (length chosen member)
    · intro chosen member
      exact length_productSeen_le
        (fun part place => shows part (inside chosen member place))

end Selection

/-! ## Selections by the indices of the program -/

section Indices

variable {parts : List Component} {index : Enumerator}

/-- Every choice of so many components; the index is a shift by less than the
width of a word. -/
theorem permutation_complete {nSel : ℕ}
    (shows : ∀ part ∈ parts, Shows part.1 part.2)
    (few : parts.length < 64)
    (built : newPermutation nSel parts.length = some index) :
    CompleteWhen (newSelection index (parts.map Prod.fst))
      ((parts.sublists.filter (fun chosen => chosen.length = nSel)).flatMap
        (fun chosen => combined (chosen.map Prod.snd)))
      (∀ chosen : List Component, chosen.Sublist parts →
        chosen.length = nSel → Turns chosen)
      (∀ chosen : List Component, chosen.Sublist parts →
        chosen.length = nSel → OneTurns chosen) := by
  simp only [newPermutation, Option.bind_eq_bind, Option.bind_eq_some_iff,
    Option.guard_eq_some'] at built
  obtain ⟨_, enough, _, ⟨positive, _⟩, _, _, same⟩ := built
  obtain rfl := Option.some.inj same
  have visits := permutation_visits positive enough few
  have complete := newSelection_complete shows few.le
    (visits.enumerates (fun _ _ ended => ended 0))
    (combinations_ne_nil enough) ?_ (map_pick_combinations nSel parts)
  · simpa only [List.mem_filter, List.mem_sublists, decide_eq_true_eq,
      and_imp] using complete
  · intro bits member
    refine ⟨Nat.pos_of_ne_zero ?_, combinations_lt member⟩
    rintro rfl
    have length := (mem_pick_combinations.mp ⟨0, member, rfl⟩).2
    rw [pick_zero] at length
    exact positive.ne length

/-- Every choice of some components. -/
theorem powerset_complete (shows : ∀ part ∈ parts, Shows part.1 part.2)
    (built : newPowerset parts.length = some index) :
    CompleteWhen (newSelection index (parts.map Prod.fst))
      ((parts.sublists.filter (fun chosen => chosen.length ≠ 0)).flatMap
        (fun chosen => combined (chosen.map Prod.snd)))
      (∀ chosen : List Component, chosen.Sublist parts →
        chosen.length ≠ 0 → Turns chosen)
      (∀ chosen : List Component, chosen.Sublist parts →
        chosen.length ≠ 0 → OneTurns chosen) := by
  simp only [newPowerset, Option.bind_eq_bind, Option.bind_eq_some_iff,
    Option.guard_eq_some'] at built
  obtain ⟨_, few, same⟩ := built
  obtain rfl := Option.some.inj same
  cases parts with
  | nil =>
      have none : Complete (newSelection
          (powerset 1 (1 <<< UInt64.ofNat 0)) []) [] := ⟨[], rfl, .nil⟩
      refine ⟨fun _ => none, ?_⟩
      intro _ chosen sublist some
      rw [List.sublist_nil.mp sublist] at some
      exact absurd rfl some
  | cons first others =>
      have some : 0 < (first :: others).length := Nat.succ_pos _
      have visits := powerset_visits some few
      have complete := newSelection_complete shows few.le
        (visits.enumerates (fun _ _ ended => ended)) ?_ ?_
        (map_pick_range' (first :: others))
      · simpa only [List.mem_filter, List.mem_sublists, decide_eq_true_eq,
          and_imp] using complete
      · have large := Nat.one_lt_two_pow (Nat.succ_ne_zero others.length)
        rw [Ne, List.range'_eq_nil_iff]
        exact (Nat.sub_pos_of_lt large).ne'
      · intro bits member
        rw [List.mem_range'_1] at member
        omega

end Indices

end Enumerator

end StellarCore.Quorum
