import StellarCore.Quorum.Permutations

/-!
# What the enumerators visit

The values that an enumerator takes from a reset until it ends.  A product
runs its first enumerator through for every turn of the later ones; of these
one is on its way while those before it have ended and are never reset, so
not every combination is visited.
-/

namespace StellarCore.Quorum

open StellarCore.Lib

namespace Enumerator

/-! ## Resets -/

mutual

theorem reset_reset : ∀ e : Enumerator, reset (reset e) = reset e
  | constant _ _ => rfl
  | permutation _ _ _ => rfl
  | powerset _ _ => rfl
  | product mInnerEnums => by
      rw [reset, reset, resetAll_resetAll mInnerEnums]
  | selection _ mIndexEnum _ => by
      rw [reset, reset, reset_reset mIndexEnum]

theorem resetAll_resetAll : ∀ enums : List Enumerator,
    resetAll (resetAll enums) = resetAll enums
  | [] => rfl
  | e :: enums => by
      rw [resetAll, resetAll, reset_reset e, resetAll_resetAll enums]

end

mutual

theorem reset_next : ∀ e : Enumerator, reset (next e) = reset e
  | constant _ _ => rfl
  | permutation _ _ _ => rfl
  | powerset _ _ => rfl
  | product mInnerEnums => by
      rw [next, reset, reset, resetAll_nextAll mInnerEnums]
  | selection mInnerEnums mIndexEnum mProduct => by
      have index := reset_next mIndexEnum
      simp only [next]
      generalize (if anyLive mProduct = true then nextAll mProduct
        else mProduct) = mProduct'
      split
      · simp only [reset]
      · split
        · simp only [reset, index]
        · simp only [reset, index]

theorem resetAll_nextAll : ∀ enums : List Enumerator,
    resetAll (nextAll enums) = resetAll enums
  | [] => rfl
  | curr :: enums => by
      have first := reset_next curr
      have rest := resetAll_nextAll enums
      have carried := resetAll_carry enums
      simp only [nextAll]
      split
      · simp only [resetAll, rest]
      · split
        · simp only [resetAll, first]
        · cases result : carry enums with
          | mk enums' found =>
              rw [result] at carried
              cases found with
              | true =>
                  simp only [resetAll, reset_reset, first]
                  rw [carried]
              | false =>
                  simp only [resetAll, first]
                  rw [carried]

theorem resetAll_carry : ∀ enums : List Enumerator,
    resetAll (carry enums).1 = resetAll enums
  | [] => rfl
  | curr :: enums => by
      have first := reset_next curr
      have carried := resetAll_carry enums
      simp only [carry]
      split
      · simp only [resetAll, first]
      · simp only [resetAll, first, carried]

end

theorem resetAll_eq_map (enums : List Enumerator) :
    resetAll enums = enums.map reset := by
  induction enums with
  | nil => rfl
  | cons e enums ih => rw [resetAll, ih, List.map_cons]

theorem select_eq_map_pick (bits : Bitset) (enums : List Enumerator) :
    select bits enums = (pick bits.toNat enums).map reset := by
  induction enums generalizing bits with
  | nil => rfl
  | cons e enums ih =>
      have half : (bits >>> 1).toNat = bits.toNat / 2 := by
        rw [BitVec.toNat_ushiftRight, Nat.shiftRight_eq_div_pow,
          Nat.pow_one]
      have bit : bits.getLsbD 0 = bits.toNat.testBit 0 := rfl
      simp only [select, pick, ih, half, bit]
      split
      · rfl
      · rfl

/-! ## The course of an enumerator -/

/-- An enumerator that has ended, and shows `v` from now on. -/
def Ended (e : Enumerator) (v : Bitset) : Prop :=
  ∀ steps, isLive (next^[steps] e) = false ∧ value (next^[steps] e) = v

/-- An enumerator that has ended, whatever it shows. -/
def Finished (e : Enumerator) (_ : Bitset) : Prop :=
  ∀ steps, isLive (next^[steps] e) = false

/-- An enumerator that stands at its end. -/
def Over (e : Enumerator) (_ : Bitset) : Prop :=
  isLive e = false

/-- The enumerator shows `v`, then the values `left`, and then stops. -/
def Follows (stop : Enumerator → Bitset → Prop) :
    Enumerator → Bitset → List Bitset → Prop
  | e, v, [] => value e = v ∧ stop (next e) v
  | e, v, w :: left =>
      value e = v ∧ isLive (next e) = true ∧ Follows stop (next e) w left

def Visits (stop : Enumerator → Bitset → Prop) (e : Enumerator) :
    List Bitset → Prop
  | [] => False
  | v :: left => isLive e = true ∧ Follows stop e v left

/-- The values after a reset. -/
def Lists (e : Enumerator) (values : List Bitset) : Prop :=
  Visits Ended (reset e) values

theorem Ended.value_eq {e : Enumerator} {v : Bitset} (ended : Ended e v) :
    value e = v :=
  (ended 0).2

theorem Ended.next {e : Enumerator} {v : Bitset} (ended : Ended e v) :
    Ended (Enumerator.next e) v := by
  intro steps
  exact ended (steps + 1)

theorem Ended.follows {e : Enumerator} {v : Bitset} (ended : Ended e v) :
    Follows Ended e v [] :=
  ⟨ended.value_eq, ended.next⟩

theorem Follows.value_eq {stop : Enumerator → Bitset → Prop}
    {e : Enumerator} {v : Bitset} {left : List Bitset}
    (follows : Follows stop e v left) : value e = v := by
  cases left with
  | nil => exact follows.1
  | cons w left => exact follows.1

theorem Finished.next {e : Enumerator} {v w : Bitset}
    (finished : Finished e v) : Finished (Enumerator.next e) w := by
  intro steps
  exact finished (steps + 1)

theorem ended_of_fixed {e : Enumerator} {v : Bitset}
    (fixed : Enumerator.next e = e) (dead : isLive e = false)
    (shows : value e = v) : Ended e v := by
  intro steps
  rw [Function.iterate_fixed fixed]
  exact ⟨dead, shows⟩

theorem constant_lists (mBits : Bitset) (mDone : Bool) :
    Lists (constant mBits mDone) [mBits] := by
  refine ⟨rfl, rfl, ?_⟩
  exact ended_of_fixed rfl rfl rfl

/-! ## Products -/

/-- What a component shows now and what it still has to show. -/
abbrev Wheel := Bitset × List Bitset

def current : List Wheel → Bitset
  | [] => 0
  | wheel :: wheels => wheel.1 ||| current wheels

def final (v : Bitset) (left : List Bitset) : Bitset :=
  left.getLastD v

/-- The values still to come of components that are never reset: the first
of them runs out, then the second, and so on. -/
def turns : List Wheel → List Bitset
  | [] => []
  | (v, left) :: wheels =>
      left.map (· ||| current wheels) ++
        (turns wheels).map (final v left ||| ·)

def Turning (e : Enumerator) (wheel : Wheel) : Prop :=
  Follows Ended e wheel.1 wheel.2

def Stopped (e : Enumerator) (wheel : Wheel) : Prop :=
  Ended e wheel.1

theorem turning_valueAll {enums : List Enumerator} {wheels : List Wheel}
    (turning : List.Forall₂ Turning enums wheels) :
    valueAll enums = current wheels := by
  induction turning with
  | nil => rfl
  | cons first _ ih =>
      rw [valueAll, current, ih, Follows.value_eq first]

theorem stopped_dead {enums : List Enumerator} {wheels : List Wheel}
    (stopped : List.Forall₂ Stopped enums wheels) :
    anyLive enums = false := by
  induction stopped with
  | nil => rfl
  | cons first _ ih =>
      rw [anyLive, ih]
      have dead := (first 0).1
      simpa using dead

theorem nextAll_of_dead {enums : List Enumerator}
    (dead : anyLive enums = false) : nextAll enums = enums := by
  induction enums with
  | nil => rfl
  | cons e enums ih =>
      rw [anyLive, Bool.or_eq_false_iff] at dead
      rw [nextAll, dead.1, ih dead.2]
      rfl

theorem stopped_turning {enums : List Enumerator} {wheels : List Wheel}
    (stopped : List.Forall₂ Stopped enums wheels) :
    valueAll enums = current wheels := by
  induction stopped with
  | nil => rfl
  | cons first _ ih =>
      rw [valueAll, current, ih, Ended.value_eq first]

theorem stopped_product {enums : List Enumerator} {wheels : List Wheel}
    (stopped : List.Forall₂ Stopped enums wheels) :
    Ended (product enums) (current wheels) := by
  have dead := stopped_dead stopped
  apply ended_of_fixed
  · rw [Enumerator.next, nextAll_of_dead dead]
  · rw [isLive, dead]
  · rw [value, stopped_turning stopped]

/-- The inner loop turns the components by one place, or finds that all of
them have ended. -/
theorem carry_spec {enums : List Enumerator} {wheels : List Wheel}
    (turning : List.Forall₂ Turning enums wheels) :
    (turns wheels = [] → (carry enums).2 = false ∧
      List.Forall₂ Stopped (carry enums).1 wheels) ∧
    (∀ v left, turns wheels = v :: left → (carry enums).2 = true ∧
      ∃ later, List.Forall₂ Turning (carry enums).1 later ∧
        current later = v ∧ turns later = left) := by
  induction turning with
  | nil =>
      constructor
      · intro _
        exact ⟨rfl, List.Forall₂.nil⟩
      · intro v left impossible
        cases impossible
  | @cons e wheel enums wheels first rest ih =>
      obtain ⟨shown, left⟩ := wheel
      cases left with
      | nil =>
          have ended : Ended (Enumerator.next e) shown := first.2
          have dead : isLive (Enumerator.next e) = false := (ended 0).1
          have step : carry (e :: enums) =
              (Enumerator.next e :: (carry enums).1, (carry enums).2) := by
            simp only [carry, dead, Bool.false_eq_true, if_false]
          have values : turns ((shown, []) :: wheels) =
              (turns wheels).map (shown ||| ·) := rfl
          rw [step, values]
          constructor
          · intro none
            obtain ⟨failed, stopped⟩ := ih.1 (List.map_eq_nil_iff.mp none)
            exact ⟨failed, List.Forall₂.cons ended stopped⟩
          · intro v left turn
            obtain ⟨w, others, turnRest, rfl, rfl⟩ :=
              List.map_eq_cons_iff.mp turn
            obtain ⟨found, later, stillTurning, now, after⟩ :=
              ih.2 w others turnRest
            refine ⟨found, (shown, []) :: later,
              List.Forall₂.cons ended.follows stillTurning, ?_, ?_⟩
            · rw [current, now]
            · rw [turns, after]
              rfl
      | cons w left =>
          obtain ⟨-, live, follows⟩ := first
          have step : carry (e :: enums) =
              (Enumerator.next e :: enums, true) := by
            simp only [carry, live, if_true]
          rw [step]
          constructor
          · intro none
            simp [turns] at none
          · intro v others turn
            rw [turns, List.map_cons, List.cons_append,
              List.cons.injEq] at turn
            obtain ⟨rfl, rfl⟩ := turn
            refine ⟨rfl, (w, left) :: wheels,
              List.Forall₂.cons follows rest, rfl, ?_⟩
            have same : final shown (w :: left) = final w left := by
              unfold final
              rw [List.getLastD_cons]
            rw [turns, same]

section Product

variable {e : Enumerator} {enums : List Enumerator} {shown : Bitset}
  {left values : List Bitset} {wheels : List Wheel}

private theorem next_product_of_live (live : isLive e = true)
    (stillLive : isLive (Enumerator.next e) = true) :
    Enumerator.next (product (e :: enums)) =
      product (Enumerator.next e :: enums) := by
  simp only [Enumerator.next, nextAll, live, stillLive, Bool.not_true,
    Bool.false_eq_true, if_false, if_true]

private theorem next_product_of_carry (live : isLive e = true)
    (ended : isLive (Enumerator.next e) = false) :
    Enumerator.next (product (e :: enums)) =
      product ((if (carry enums).2 then reset e else Enumerator.next e) ::
        (carry enums).1) := by
  simp only [Enumerator.next, nextAll, live, ended, Bool.not_true,
    Bool.false_eq_true, if_false]
  cases result : carry enums with
  | mk enums found =>
      cases found with
      | true => simp only [reset_next, if_true]
      | false => simp only [Bool.false_eq_true, if_false]

private theorem product_isLive (live : isLive e = true) :
    isLive (product (e :: enums)) = true := by
  rw [isLive, anyLive, live, Bool.true_or]

private theorem product_value (turning : List.Forall₂ Turning enums wheels)
    (follows : Follows Ended e shown left) :
    value (product (e :: enums)) = shown ||| current wheels := by
  rw [value, valueAll, turning_valueAll turning, follows.value_eq]

/-- The first component runs through what it has left; `rest` comes after
its last value. -/
private theorem product_runs {rest : List Bitset}
    (turning : List.Forall₂ Turning enums wheels)
    (atLast : ∀ {e : Enumerator} {shown : Bitset}, isLive e = true →
      Follows Ended e shown [] → Lists e values →
        Follows Ended (product (e :: enums)) (shown ||| current wheels) rest)
    (live : isLive e = true) (follows : Follows Ended e shown left)
    (lists : Lists e values) :
    Follows Ended (product (e :: enums)) (shown ||| current wheels)
      (left.map (· ||| current wheels) ++ rest) := by
  induction left generalizing e shown with
  | nil => exact atLast live follows lists
  | cons w left ih =>
      have listsNext : Lists (Enumerator.next e) values := by
        unfold Lists at lists ⊢
        rw [reset_next]
        exact lists
      refine ⟨product_value turning follows, ?_⟩
      obtain ⟨-, stillLive, later⟩ := follows
      rw [next_product_of_live live stillLive]
      exact ⟨product_isLive stillLive, ih stillLive later listsNext⟩

/-- The first component runs through its values at every turn. -/
theorem product_follows (live : isLive e = true)
    (follows : Follows Ended e shown left) (lists : Lists e values)
    (turning : List.Forall₂ Turning enums wheels) :
    Follows Ended (product (e :: enums)) (shown ||| current wheels)
      (left.map (· ||| current wheels) ++
        (turns wheels).flatMap (fun c => values.map (· ||| c))) := by
  induction count : turns wheels generalizing e enums shown left wheels with
  | nil =>
      refine product_runs turning ?_ live follows lists
      intro e shown live follows _
      obtain ⟨failed, stopped⟩ := (carry_spec turning).1 count
      refine ⟨product_value turning follows, ?_⟩
      have ended : Ended (Enumerator.next e) shown := follows.2
      have all : List.Forall₂ Stopped
          (Enumerator.next e :: (carry enums).1) ((shown, []) :: wheels) :=
        List.Forall₂.cons ended stopped
      rw [next_product_of_carry live (ended 0).1, failed]
      exact stopped_product all
  | cons c others ih =>
      refine product_runs turning ?_ live follows lists
      intro e shown live follows lists
      obtain ⟨found, later, stillTurning, now, after⟩ :=
        (carry_spec turning).2 c others count
      have ended : Ended (Enumerator.next e) shown := follows.2
      have shows := product_value turning follows
      have step : Enumerator.next (product (e :: enums)) =
          product (reset e :: (carry enums).1) := by
        rw [next_product_of_carry live (ended 0).1, found, if_pos rfl]
      cases values with
      | nil => exact absurd lists id
      | cons w values =>
          have listsReset : Lists (reset e) (w :: values) := by
            unfold Lists
            rw [reset_reset]
            exact lists
          have turned := ih lists.1 lists.2 listsReset stillTurning after
          rw [now] at turned
          refine ⟨shows, ?_⟩
          rw [step]
          exact ⟨product_isLive lists.1, turned⟩

end Product

def wheel : List Bitset → Wheel
  | [] => (0, [])
  | v :: left => (v, left)

/-- The values that the components after the first show together. -/
def columns (lists : List (List Bitset)) : List Bitset :=
  current (lists.map wheel) :: turns (lists.map wheel)

/-- The values of a product of components with the given values. -/
def productValues : List (List Bitset) → List Bitset
  | [] => []
  | values :: lists =>
      (columns lists).flatMap (fun c => values.map (· ||| c))

private theorem lists_turning {enums : List Enumerator}
    {lists : List (List Bitset)}
    (all : List.Forall₂ Lists enums lists) :
    List.Forall₂ Turning (enums.map reset) (lists.map wheel) := by
  induction all with
  | nil => exact List.Forall₂.nil
  | @cons e values enums lists first _ ih =>
      cases values with
      | nil => exact absurd first id
      | cons v left => exact List.Forall₂.cons first.2 ih

theorem product_visits {enums : List Enumerator}
    {lists : List (List Bitset)} (some : lists ≠ [])
    (all : List.Forall₂ Lists enums lists) :
    Visits Ended (product (enums.map reset)) (productValues lists) := by
  cases all with
  | nil => exact absurd rfl some
  | @cons e values enums lists first rest =>
      cases values with
      | nil => exact absurd first id
      | cons v left =>
          have again : Lists (reset e) (v :: left) := by
            unfold Lists
            rw [reset_reset]
            exact first
          refine ⟨product_isLive first.1, ?_⟩
          have follows := product_follows first.1 first.2 again
            (lists_turning rest)
          exact follows

theorem product_lists {enums : List Enumerator}
    {lists : List (List Bitset)} (some : lists ≠ [])
    (all : List.Forall₂ Lists enums lists) :
    Lists (product enums) (productValues lists) := by
  unfold Lists
  rw [reset, resetAll_eq_map]
  exact product_visits some all

/-! ## Selections -/

section Selection

variable {inner : List Enumerator} {lists : List (List Bitset)}
  {index : Enumerator} {prod : List Enumerator} {shown bits : Bitset}
  {left places : List Bitset}

/-- The values of a selection, for the values of its index. -/
def selectionValues (lists : List (List Bitset)) (places : List Bitset) :
    List Bitset :=
  places.flatMap (fun bits => productValues (pick bits.toNat lists))

private theorem selection_ended (ended : Ended (product prod) shown)
    (finished : Finished index bits) :
    Ended (selection inner index prod) shown := by
  have dead : anyLive prod = false := (ended 0).1
  have stays : ∀ steps, Enumerator.next^[steps]
      (selection inner index prod) =
        selection inner (Enumerator.next^[steps] index) prod := by
    intro steps
    induction steps with
    | zero => rfl
    | succ steps ih =>
        have done := finished (steps + 1)
        rw [Function.iterate_succ_apply'] at done
        rw [Function.iterate_succ_apply', ih, Enumerator.next]
        simp only [dead, Bool.false_eq_true, if_false, done,
          Function.iterate_succ_apply']
  intro steps
  rw [stays]
  constructor
  · rw [isLive, dead, finished steps]
    rfl
  · exact ended.value_eq

theorem next_selection_of_live (live : anyLive prod = true)
    (stillLive : anyLive (nextAll prod) = true) :
    Enumerator.next (selection inner index prod) =
      selection inner index (nextAll prod) := by
  rw [Enumerator.next]
  simp only [live, stillLive, if_true]

theorem next_selection_of_end (live : anyLive prod = true)
    (ended : anyLive (nextAll prod) = false) :
    Enumerator.next (selection inner index prod) =
      selection inner (Enumerator.next index)
        (if isLive (Enumerator.next index) then
          select (value (Enumerator.next index)) inner
        else nextAll prod) := by
  rw [Enumerator.next]
  simp only [live, ended, if_true, Bool.false_eq_true, if_false]
  split
  · rfl
  · rfl

private theorem selection_runs {stop : Enumerator → Bitset → Prop}
    {rest : List Bitset}
    (atLast : ∀ {prod : List Enumerator} {shown : Bitset},
      anyLive prod = true → Follows Ended (product prod) shown [] →
        Follows stop (selection inner index prod) shown rest)
    (live : anyLive prod = true)
    (follows : Follows Ended (product prod) shown left) :
    Follows stop (selection inner index prod) shown (left ++ rest) := by
  induction left generalizing prod shown with
  | nil => exact atLast live follows
  | cons w left ih =>
      obtain ⟨shows, stillLive, later⟩ := follows
      refine ⟨shows, ?_⟩
      have nextLive : anyLive (nextAll prod) = true := stillLive
      rw [next_selection_of_live live nextLive]
      refine ⟨?_, ih nextLive later⟩
      rw [isLive, nextLive, Bool.true_or]

private theorem select_visits (all : List.Forall₂ Lists inner lists)
    (some : pick bits.toNat lists ≠ []) :
    Visits Ended (product (select bits inner))
      (productValues (pick bits.toNat lists)) := by
  rw [select_eq_map_pick]
  exact product_visits some (pick_forall₂ all bits.toNat)

/-- Two ways to stop: that of the index and that of the selection. -/
private theorem selection_follows
    {indexStop stop : Enumerator → Bitset → Prop}
    (indexEnds : ∀ {index : Enumerator} {bits : Bitset},
      indexStop index bits → isLive index = false)
    (ends : ∀ {index : Enumerator} {prod : List Enumerator}
      {shown bits : Bitset}, Ended (product prod) shown →
        indexStop index bits → stop (selection inner index prod) shown)
    (all : List.Forall₂ Lists inner lists)
    (live : anyLive prod = true)
    (follows : Follows Ended (product prod) shown left)
    (indexFollows : Follows indexStop index bits places)
    (some : ∀ bits ∈ places, pick bits.toNat lists ≠ []) :
    Follows stop (selection inner index prod) shown
      (left ++ selectionValues lists places) := by
  induction places generalizing index prod shown left bits with
  | nil =>
      refine selection_runs ?_ live follows
      intro prod shown live follows
      have ended : Ended (product (nextAll prod)) shown := follows.2
      have indexDead := indexEnds indexFollows.2
      have step : Enumerator.next (selection inner index prod) =
          selection inner (Enumerator.next index) (nextAll prod) := by
        rw [next_selection_of_end live (ended 0).1, indexDead]
        rfl
      refine ⟨follows.1, ?_⟩
      rw [step]
      exact ends ended indexFollows.2
  | cons chosen places ih =>
      refine selection_runs ?_ live follows
      intro prod shown live follows
      have ended : Ended (product (nextAll prod)) shown := follows.2
      obtain ⟨-, indexLive, indexLater⟩ := indexFollows
      have visits := select_visits all
        (some chosen List.mem_cons_self)
      have step : Enumerator.next (selection inner index prod) =
          selection inner (Enumerator.next index) (select chosen inner) := by
        rw [next_selection_of_end live (ended 0).1, if_pos indexLive,
          indexLater.value_eq]
      have shows : value (selection inner index prod) = shown := follows.1
      rw [selectionValues, List.flatMap_cons]
      cases values : productValues (pick chosen.toNat lists) with
      | nil =>
          rw [values] at visits
          exact absurd visits id
      | cons w later =>
          rw [values] at visits
          refine ⟨shows, ?_⟩
          rw [step]
          refine ⟨?_, ?_⟩
          · have nextLive : anyLive (select chosen inner) = true := visits.1
            rw [isLive, nextLive, Bool.true_or]
          · apply ih visits.1 visits.2 indexLater
            intro bits member
            exact some bits (List.mem_cons_of_mem chosen member)

private theorem selection_visits
    {indexStop stop : Enumerator → Bitset → Prop}
    (indexEnds : ∀ {index : Enumerator} {bits : Bitset},
      indexStop index bits → isLive index = false)
    (ends : ∀ {index : Enumerator} {prod : List Enumerator}
      {shown bits : Bitset}, Ended (product prod) shown →
        indexStop index bits → stop (selection inner index prod) shown)
    (all : List.Forall₂ Lists inner lists)
    (indexVisits : Visits indexStop index places)
    (some : ∀ bits ∈ places, pick bits.toNat lists ≠ []) :
    Visits stop (selection inner index (select (value index) inner))
      (selectionValues lists places) := by
  cases places with
  | nil => exact absurd indexVisits id
  | cons bits places =>
      have shows : value index = bits := indexVisits.2.value_eq
      have visits := select_visits all (some bits List.mem_cons_self)
      rw [shows, selectionValues, List.flatMap_cons]
      cases values : productValues (pick bits.toNat lists) with
      | nil =>
          rw [values] at visits
          exact absurd visits id
      | cons w later =>
          rw [values] at visits
          refine ⟨?_, ?_⟩
          · have live : anyLive (select bits inner) = true := visits.1
            rw [isLive, live, Bool.true_or]
          · apply selection_follows indexEnds ends all visits.1 visits.2
              indexVisits.2
            intro bits member
            exact some bits (List.mem_cons_of_mem _ member)

private theorem resetAll_lists (all : List.Forall₂ Lists inner lists) :
    List.Forall₂ Lists (resetAll inner) lists := by
  rw [resetAll_eq_map, List.forall₂_map_left_iff]
  refine all.imp ?_
  intro e values lists
  unfold Lists
  rw [reset_reset]
  exact lists

theorem select_resetAll (bits : Bitset) (enums : List Enumerator) :
    select bits (resetAll enums) = select bits enums := by
  induction enums generalizing bits with
  | nil => rfl
  | cons e enums ih => simp only [resetAll, select, reset_reset, ih]

theorem selection_lists (all : List.Forall₂ Lists inner lists)
    (visits : Visits Finished (reset index) places)
    (some : ∀ bits ∈ places, pick bits.toNat lists ≠ []) :
    Lists (newSelection index inner) (selectionValues lists places) := by
  unfold Lists
  rw [newSelection, reset]
  refine selection_visits ?_ selection_ended (resetAll_lists all) visits some
  intro index bits finished
  exact finished 0

theorem selection_visits_once (all : List.Forall₂ Lists inner lists)
    (visits : Visits Over index places)
    (some : ∀ bits ∈ places, pick bits.toNat lists ≠ []) :
    Visits Over (newSelection index inner)
      (selectionValues lists places) := by
  rw [newSelection, ← select_resetAll]
  refine selection_visits id ?_ (resetAll_lists all) visits some
  intro index prod shown bits ended dead
  have prodDead : anyLive prod = false := (ended 0).1
  rw [Over, isLive, prodDead, dead]
  rfl

end Selection

/-! ## The indices -/

section Permutation

variable {mCur : UInt64} {mSet mTot : ℕ}

private theorem value_permutation {v : ℕ} (same : mCur.toNat = v) :
    value (permutation mCur mSet mTot) = BitVec.ofNat 64 v := by
  apply BitVec.eq_of_toNat_eq
  have bound := mCur.toNat_lt
  rw [value, UInt64.toNat_toBitVec, BitVec.toNat_ofNat, ← same]
  exact (Nat.mod_eq_of_lt bound).symm

private theorem permutation_finished (below : mTot < 64)
    (finished : 2 ^ mTot ≤ mCur.toNat) (bits : Bitset) :
    Finished (permutation mCur mSet mTot) bits := by
  intro steps
  induction steps generalizing mCur with
  | zero =>
      apply Bool.eq_false_iff.mpr
      intro live
      have inside := (permutation_isLive_iff below).mp live
      omega
  | succ steps ih => exact ih (nextPermutation_finished below finished)

private theorem permutation_follows (below : mTot < 64) {v : ℕ}
    {left : List ℕ} (same : mCur.toNat = v)
    (chain : (v :: left).IsChain NextCombination)
    (inside : ∀ w ∈ left, w < 2 ^ mTot)
    {last : ℕ} (lastOne : (v :: left).getLast? = some last) {past : ℕ}
    (top : NextCombination last past) (above : 2 ^ mTot ≤ past)
    (fits : past < 2 ^ 64) :
    Follows Finished (permutation mCur mSet mTot) (BitVec.ofNat 64 v)
      (left.map (BitVec.ofNat 64)) := by
  induction left generalizing mCur v with
  | nil =>
      have lastIs : v = last := by simpa using lastOne
      refine ⟨value_permutation same, ?_⟩
      apply permutation_finished below
      rw [← lastIs, ← same] at top
      rw [nextPermutation_toNat top fits]
      exact above
  | cons w left ih =>
      have bound := inside w List.mem_cons_self
      have power : 2 ^ mTot < 2 ^ 64 :=
        Nat.pow_lt_pow_right (by norm_num) below
      have step : NextCombination mCur.toNat w := by
        rw [same]
        exact chain.rel
      have next := nextPermutation_toNat step (bound.trans power)
      refine ⟨value_permutation same, ?_, ?_⟩
      · rw [Enumerator.next, permutation_isLive_iff below, next]
        exact bound
      · apply ih next chain.tail
        · intro x member
          exact inside x (List.mem_cons_of_mem w member)
        · simpa using lastOne

theorem permutation_visits (some : 0 < mSet) (enough : mSet ≤ mTot)
    (below : mTot < 64) :
    Visits Finished (permutation (lowestBits mSet 0) mSet mTot)
      ((combinations mSet mTot).map (BitVec.ofNat 64)) := by
  obtain ⟨k, rfl⟩ := Nat.exists_eq_succ_of_ne_zero some.ne'
  have start := lowestBits_zero_toNat (show k + 1 ≤ 64 by omega)
  have chain := combinations_chain k mTot
  have head := combinations_head enough
  have lastOne := combinations_getLast enough
  have inside : ∀ w ∈ combinations (k + 1) mTot, w < 2 ^ mTot := by
    intro w member
    exact combinations_lt member
  have fits : 2 ^ mTot + (2 ^ k - 1) < 2 ^ 64 := by
    have power : 2 ^ mTot ≤ 2 ^ 63 :=
      Nat.pow_le_pow_right (by norm_num) (by omega)
    have smaller : 2 ^ k ≤ 2 ^ mTot :=
      Nat.pow_le_pow_right (by norm_num) (by omega)
    omega
  cases values : combinations (k + 1) mTot with
  | nil =>
      rw [values] at head
      cases head
  | cons v left =>
      rw [values] at head chain lastOne inside
      have first : v = 2 ^ (k + 1) - 1 := by simpa using head
      have same : (lowestBits (k + 1) 0).toNat = v := by
        rw [start, first]
      refine ⟨?_, ?_⟩
      · rw [permutation_isLive_iff below, same]
        exact inside v List.mem_cons_self
      · apply permutation_follows below same chain _ lastOne
          (nextCombination_top enough) (Nat.le_add_right _ _) fits
        intro w member
        exact inside w (List.mem_cons_of_mem v member)

end Permutation

private theorem powerset_follows {mCur mLim : UInt64} {v count : ℕ}
    (same : mCur.toNat = v) (ends : v + count + 1 = mLim.toNat) :
    Follows Over (powerset mCur mLim) (BitVec.ofNat 64 v)
      ((List.range' (v + 1) count).map (BitVec.ofNat 64)) := by
  have bound := mLim.toNat_lt
  induction count generalizing mCur v with
  | zero =>
      have step : (mCur + 1).toNat = v + 1 := by
        rw [UInt64.toNat_add, same]
        exact Nat.mod_eq_of_lt (by show v + 1 < 2 ^ 64; omega)
      refine ⟨?_, ?_⟩
      · rw [value, ← same]
        exact (BitVec.ofNat_toNat 64 mCur.toBitVec).symm
      · rw [Over, Enumerator.next, isLive, decide_eq_false_iff_not,
          UInt64.lt_iff_toNat_lt, step]
        omega
  | succ count ih =>
      have step : (mCur + 1).toNat = v + 1 := by
        rw [UInt64.toNat_add, same]
        exact Nat.mod_eq_of_lt (by show v + 1 < 2 ^ 64; omega)
      refine ⟨?_, ?_, ?_⟩
      · rw [value, ← same]
        exact (BitVec.ofNat_toNat 64 mCur.toBitVec).symm
      · rw [Enumerator.next, isLive, decide_eq_true_eq,
          UInt64.lt_iff_toNat_lt, step]
        omega
      · exact ih step (by omega)

theorem powerset_visits {nBits : ℕ} (some : 0 < nBits) (below : nBits < 64) :
    Visits Over (powerset 1 (1 <<< UInt64.ofNat nBits))
      ((List.range' 1 (2 ^ nBits - 1)).map (BitVec.ofNat 64)) := by
  have limit := one_shiftLeft_toNat below
  have large : 2 ^ 1 ≤ 2 ^ nBits :=
    Nat.pow_le_pow_right (by norm_num) some
  have length : 2 ^ nBits - 1 = 2 ^ nBits - 2 + 1 := by omega
  rw [length, List.range'_succ, List.map_cons]
  refine ⟨?_, ?_⟩
  · rw [isLive, decide_eq_true_eq, UInt64.lt_iff_toNat_lt, limit]
    exact large
  · apply powerset_follows rfl
    rw [limit]
    show 1 + (2 ^ nBits - 2) + 1 = 2 ^ nBits
    omega

end Enumerator

end StellarCore.Quorum
