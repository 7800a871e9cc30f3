import Mathlib.Tactic
import Mathlib.Data.List.Chain
import Mathlib.Data.List.Sublists

/-!
# The numbers with a fixed number of bits

`combinations k t` lists, in increasing order, the numbers with `k` of the
`t` lowest bits.  Each follows the one before it by moving the top of the
lowest run of bits up by one place and the rest of the run down to zero.
`pick` reads a number as a choice of places of a list.
-/

namespace StellarCore.Lib

def combinations : ℕ → ℕ → List ℕ
  | 0, _ => [0]
  | _ + 1, 0 => []
  | k + 1, t + 1 =>
      combinations (k + 1) t ++ (combinations k t).map (2 ^ t + ·)

/-- `y` is the next number with as many bits as `x`: above `lower` places
there is a run of `run + 1` bits in `x`. -/
def NextCombination (x y : ℕ) : Prop :=
  ∃ lower run above,
    x = 2 ^ (lower + run + 2) * above + 2 ^ lower * (2 ^ (run + 1) - 1) ∧
      y = 2 ^ (lower + run + 2) * above + 2 ^ (lower + run + 1) +
        (2 ^ run - 1)

theorem combinations_lt {k t x : ℕ} (member : x ∈ combinations k t) :
    x < 2 ^ t := by
  induction t generalizing k x with
  | zero =>
      cases k with
      | zero =>
          have zero : x = 0 := by simpa [combinations] using member
          subst zero
          norm_num
      | succ k => simp [combinations] at member
  | succ t ih =>
      have double : 2 ^ (t + 1) = 2 ^ t + 2 ^ t := by
        rw [Nat.pow_succ]
        omega
      cases k with
      | zero =>
          have zero : x = 0 := by simpa [combinations] using member
          subst zero
          exact Nat.two_pow_pos _
      | succ k =>
          simp only [combinations, List.mem_append, List.mem_map] at member
          rcases member with low | ⟨rest, low, equality⟩
          · have bound := ih low
            omega
          · have bound := ih low
            omega

theorem combinations_eq_nil {k t : ℕ} (few : t < k) :
    combinations k t = [] := by
  induction t generalizing k with
  | zero =>
      cases k with
      | zero => omega
      | succ k => rfl
  | succ t ih =>
      cases k with
      | zero => omega
      | succ k =>
          rw [combinations, ih (by omega), ih (by omega)]
          rfl

theorem combinations_head {k t : ℕ} (enough : k ≤ t) :
    (combinations k t).head? = some (2 ^ k - 1) := by
  induction t generalizing k with
  | zero =>
      have zero : k = 0 := by omega
      subst zero
      rfl
  | succ t ih =>
      cases k with
      | zero => rfl
      | succ k =>
          simp only [combinations, List.head?_append, List.head?_map]
          rcases Nat.lt_or_ge t (k + 1) with short | long
          · have all : t = k := by omega
            subst all
            rw [combinations_eq_nil (Nat.lt_succ_self t), ih (le_refl t)]
            simp only [List.head?_nil, Option.map_some, Option.none_or]
            congr 1
            have positive := Nat.two_pow_pos t
            rw [Nat.pow_succ]
            omega
          · rw [ih long]
            rfl

theorem combinations_getLast {k t : ℕ} (enough : k ≤ t) :
    (combinations k t).getLast? = some (2 ^ (t - k) * (2 ^ k - 1)) := by
  induction t generalizing k with
  | zero =>
      have zero : k = 0 := by omega
      subst zero
      rfl
  | succ t ih =>
      cases k with
      | zero => simp [combinations]
      | succ k =>
          have few : k ≤ t := by omega
          simp only [combinations, List.getLast?_append, List.getLast?_map,
            ih few, Option.map_some, Option.some_or]
          congr 1
          have places : t + 1 - (k + 1) = t - k := by omega
          have split : 2 ^ t = 2 ^ (t - k) * 2 ^ k := by
            rw [← Nat.pow_add]
            congr 1
            omega
          have positive := Nat.two_pow_pos k
          rw [places, split, ← Nat.mul_add, Nat.pow_succ]
          congr 1
          omega

theorem combinations_ne_nil {k t : ℕ} (enough : k ≤ t) :
    combinations k t ≠ [] := by
  intro empty
  have head := combinations_head enough
  rw [empty] at head
  cases head

/-! ## The order -/

theorem NextCombination.pos {x y : ℕ} (next : NextCombination x y) :
    0 < x := by
  obtain ⟨lower, run, above, rfl, -⟩ := next
  have positive := Nat.two_pow_pos run
  have some : 0 < 2 ^ lower * (2 ^ (run + 1) - 1) := by
    apply Nat.mul_pos (Nat.two_pow_pos _)
    rw [Nat.pow_succ]
    omega
  omega

/-- A bit above both numbers changes nothing. -/
theorem NextCombination.add {x y t : ℕ} (next : NextCombination x y)
    (bound : y < 2 ^ t) : NextCombination (2 ^ t + x) (2 ^ t + y) := by
  obtain ⟨lower, run, above, rfl, rfl⟩ := next
  have fits : lower + run + 1 < t := by
    apply (Nat.pow_lt_pow_iff_right (a := 2) (by norm_num)).mp
    omega
  have split : 2 ^ t =
      2 ^ (lower + run + 2) * 2 ^ (t - (lower + run + 2)) := by
    rw [← Nat.pow_add]
    congr 1
    omega
  refine ⟨lower, run, above + 2 ^ (t - (lower + run + 2)), ?_, ?_⟩
  · rw [split, Nat.mul_add]
    omega
  · rw [split, Nat.mul_add]
    omega

/-- After the run at the top of `t` places a new place is taken. -/
theorem nextCombination_top {k t : ℕ} (enough : k + 1 ≤ t) :
    NextCombination (2 ^ (t - (k + 1)) * (2 ^ (k + 1) - 1))
      (2 ^ t + (2 ^ k - 1)) := by
  refine ⟨t - (k + 1), k, 0, ?_, ?_⟩
  · omega
  · have places : t - (k + 1) + k + 1 = t := by omega
    rw [places]
    omega

theorem combinations_chain (k t : ℕ) :
    (combinations (k + 1) t).IsChain NextCombination := by
  induction t generalizing k with
  | zero => exact List.IsChain.nil
  | succ t ih =>
      rw [combinations, List.isChain_append]
      refine ⟨ih k, ?_, ?_⟩
      · cases k with
        | zero =>
            rw [combinations]
            exact List.IsChain.singleton _
        | succ k =>
            rw [List.isChain_map]
            refine (ih k).imp_of_mem_imp ?_
            intro x y _ later next
            exact next.add (combinations_lt later)
      · intro x last y first
        rcases Nat.lt_or_ge t (k + 1) with short | long
        · rw [combinations_eq_nil short] at last
          cases last
        · rw [combinations_getLast long, Option.mem_some_iff] at last
          rw [List.head?_map, combinations_head (by omega),
            Option.map_some, Option.mem_some_iff] at first
          subst last
          subst first
          exact nextCombination_top long

theorem combinations_sorted (k t : ℕ) :
    (combinations k t).Pairwise (· < ·) := by
  induction t generalizing k with
  | zero =>
      cases k with
      | zero => exact List.pairwise_singleton _ _
      | succ k => exact List.Pairwise.nil
  | succ t ih =>
      cases k with
      | zero => exact List.pairwise_singleton _ _
      | succ k =>
          rw [combinations, List.pairwise_append, List.pairwise_map]
          refine ⟨ih (k + 1), (ih k).imp ?_, ?_⟩
          · intro x y less
            exact Nat.add_lt_add_left less _
          · intro x low y high
            obtain ⟨rest, _, rfl⟩ := List.mem_map.mp high
            exact (combinations_lt low).trans_le (Nat.le_add_right _ _)

private theorem countP_testBit_succ_low {t x : ℕ} (low : x < 2 ^ t) :
    (List.range (t + 1)).countP x.testBit =
      (List.range t).countP x.testBit := by
  rw [List.range_succ, List.countP_append, List.countP_singleton,
    Nat.testBit_lt_two_pow low]
  rfl

private theorem countP_testBit_succ_high {t rest : ℕ}
    (low : rest < 2 ^ t) :
    (List.range (t + 1)).countP (2 ^ t + rest).testBit =
      (List.range t).countP rest.testBit + 1 := by
  have same : (List.range t).countP (2 ^ t + rest).testBit =
      (List.range t).countP rest.testBit := by
    apply List.countP_congr
    intro i member
    rw [Nat.testBit_two_pow_add_gt (List.mem_range.mp member)]
  rw [List.range_succ, List.countP_append, List.countP_singleton, same,
    Nat.testBit_two_pow_add_eq, Nat.testBit_lt_two_pow low]
  rfl

/-- The list is complete: it has every number below `2 ^ t` with `k` bits. -/
theorem mem_combinations {k t x : ℕ} :
    x ∈ combinations k t ↔
      x < 2 ^ t ∧ (List.range t).countP x.testBit = k := by
  induction t generalizing k x with
  | zero =>
      cases k with
      | zero => simp [combinations]
      | succ k => simp [combinations]
  | succ t ih =>
      have double : 2 ^ (t + 1) = 2 ^ t + 2 ^ t := by
        rw [Nat.pow_succ]
        omega
      rcases Nat.lt_or_ge x (2 ^ t) with low | high
      · have inside : x < 2 ^ (t + 1) := by omega
        rw [countP_testBit_succ_low low]
        have counted := @ih k x
        simp only [low, true_and] at counted
        simp only [inside, true_and]
        rw [← counted]
        cases k with
        | zero => cases t with
          | zero => rfl
          | succ t => rfl
        | succ k =>
            simp only [combinations, List.mem_append, List.mem_map,
              or_iff_left_iff_imp]
            rintro ⟨rest, _, equality⟩
            omega
      · obtain ⟨rest, rfl⟩ := Nat.exists_eq_add_of_le high
        rcases Nat.lt_or_ge rest (2 ^ t) with low | beyond
        · have inside : 2 ^ t + rest < 2 ^ (t + 1) := by omega
          rw [countP_testBit_succ_high low]
          simp only [inside, true_and]
          cases k with
          | zero =>
              have positive := Nat.two_pow_pos t
              simp only [combinations, List.mem_singleton]
              omega
          | succ k =>
              have outside : 2 ^ t + rest ∉ combinations (k + 1) t := by
                intro member
                have bound := combinations_lt member
                omega
              have counted := @ih k rest
              simp only [low, true_and] at counted
              simp only [combinations, List.mem_append, outside, false_or,
                List.mem_map, Nat.add_left_cancel_iff, exists_eq_right,
                counted, Nat.succ_inj]
        · constructor
          · intro member
            have bound := combinations_lt member
            omega
          · rintro ⟨bound, _⟩
            omega

/-! ## Choices of places -/

/-- The elements at the places of the bits. -/
def pick {α : Type} : ℕ → List α → List α
  | _, [] => []
  | bits, x :: xs =>
      if bits.testBit 0 then x :: pick (bits / 2) xs
      else pick (bits / 2) xs

section Pick

variable {α : Type}

theorem pick_congr {bits others : ℕ} {xs : List α}
    (agree : ∀ i < xs.length, bits.testBit i = others.testBit i) :
    pick bits xs = pick others xs := by
  induction xs generalizing bits others with
  | nil => rfl
  | cons x xs ih =>
      have rest : pick (bits / 2) xs = pick (others / 2) xs := by
        apply ih
        intro i inside
        rw [← Nat.testBit_succ, ← Nat.testBit_succ]
        exact agree (i + 1) (by simpa using inside)
      simp only [pick, agree 0 (by simp), rest]

theorem pick_append_singleton (bits : ℕ) (xs : List α) (x : α) :
    pick bits (xs ++ [x]) =
      if bits.testBit xs.length then pick bits xs ++ [x]
      else pick bits xs := by
  induction xs generalizing bits with
  | nil => simp [pick]
  | cons y xs ih =>
      simp only [List.cons_append, pick, ih, List.length_cons,
        Nat.testBit_succ]
      by_cases first : bits.testBit 0 = true
      · simp only [first, if_true]
        split
        · rfl
        · rfl
      · simp only [first, if_neg, Bool.false_eq_true, not_false_eq_true]

theorem pick_zero (xs : List α) : pick 0 xs = [] := by
  induction xs with
  | nil => rfl
  | cons x xs ih => simpa [pick] using ih

theorem pick_sublist (bits : ℕ) (xs : List α) :
    (pick bits xs).Sublist xs := by
  induction xs generalizing bits with
  | nil => exact List.Sublist.slnil
  | cons x xs ih =>
      rw [pick]
      split
      · exact (ih _).cons_cons x
      · exact (ih _).cons x

theorem pick_ne_nil {bits : ℕ} {xs : List α} (some : bits ≠ 0)
    (bound : bits < 2 ^ xs.length) : pick bits xs ≠ [] := by
  induction xs generalizing bits with
  | nil =>
      rw [List.length_nil, Nat.pow_zero] at bound
      omega
  | cons x xs ih =>
      rw [pick]
      split
      · exact List.cons_ne_nil _ _
      · rename_i even
        rw [Nat.testBit_zero, decide_eq_true_eq] at even
        rw [List.length_cons, Nat.pow_succ] at bound
        exact ih (by omega) (by omega)

theorem pick_map {β : Type} (f : α → β) (bits : ℕ) (xs : List α) :
    pick bits (xs.map f) = (pick bits xs).map f := by
  induction xs generalizing bits with
  | nil => rfl
  | cons x xs ih =>
      simp only [List.map_cons, pick, ih]
      split
      · rfl
      · rfl

theorem pick_forall₂ {β : Type} {R : α → β → Prop} {xs : List α}
    {ys : List β} (related : List.Forall₂ R xs ys) (bits : ℕ) :
    List.Forall₂ R (pick bits xs) (pick bits ys) := by
  induction related generalizing bits with
  | nil => exact List.Forall₂.nil
  | cons first _ ih =>
      simp only [pick]
      split
      · exact List.Forall₂.cons first (ih _)
      · exact ih _

theorem pick_first (k : ℕ) (xs : List α) :
    pick (2 ^ k - 1) xs = xs.take k := by
  induction xs generalizing k with
  | nil => simp [pick]
  | cons x xs ih =>
      cases k with
      | zero => simpa [pick] using pick_zero xs
      | succ k =>
          have positive := Nat.two_pow_pos k
          have half : (2 ^ (k + 1) - 1) / 2 = 2 ^ k - 1 := by
            rw [Nat.pow_succ]
            omega
          have odd : (2 ^ (k + 1) - 1).testBit 0 = true := by
            rw [Nat.testBit_two_pow_sub_one]
            simp
          simp only [pick, odd, if_true, half, ih, List.take_succ_cons]

theorem pick_last (places k : ℕ) (xs : List α)
    (bound : xs.length ≤ places + k) :
    pick (2 ^ places * (2 ^ k - 1)) xs = xs.drop places := by
  induction places generalizing xs with
  | zero =>
      rw [Nat.pow_zero, Nat.one_mul, pick_first, List.drop_zero]
      exact List.take_of_length_le (by omega)
  | succ places ih =>
      cases xs with
      | nil => simp [pick]
      | cons x xs =>
          have even : 2 ^ (places + 1) * (2 ^ k - 1) =
              2 * (2 ^ places * (2 ^ k - 1)) := by
            rw [Nat.pow_succ]
            ring
          have short : xs.length ≤ places + k := by
            simp only [List.length_cons] at bound
            omega
          rw [even, pick, List.drop_succ_cons, ← ih xs short]
          simp

theorem pick_append_low {bits : ℕ} {xs : List α} (x : α)
    (bound : bits < 2 ^ xs.length) :
    pick bits (xs ++ [x]) = pick bits xs := by
  rw [pick_append_singleton, Nat.testBit_lt_two_pow bound]
  rfl

theorem pick_append_high {bits : ℕ} {xs : List α} (x : α)
    (bound : bits < 2 ^ xs.length) :
    pick (2 ^ xs.length + bits) (xs ++ [x]) = pick bits xs ++ [x] := by
  rw [pick_append_singleton, Nat.testBit_two_pow_add_eq,
    Nat.testBit_lt_two_pow bound]
  simp only [Bool.not_false, if_true]
  congr 1
  apply pick_congr
  intro i inside
  exact Nat.testBit_two_pow_add_gt inside bits

/-- The numbers below a power of two choose every sublist once. -/
theorem map_pick_range (xs : List α) :
    (List.range (2 ^ xs.length)).map (fun bits => pick bits xs) =
      xs.sublists := by
  induction xs using List.reverseRecOn with
  | nil => rfl
  | append_singleton xs x ih =>
      have double : 2 ^ (xs ++ [x]).length =
          2 ^ xs.length + 2 ^ xs.length := by
        rw [List.length_append, List.length_singleton, Nat.pow_succ]
        omega
      rw [double, List.range_add, List.map_append, List.map_map,
        List.sublists_concat, ← ih, List.map_map]
      congr 1
      · apply List.map_congr_left
        intro bits member
        exact pick_append_low x (List.mem_range.mp member)
      · apply List.map_congr_left
        intro bits member
        exact pick_append_high x (List.mem_range.mp member)

/-- Those above zero choose every sublist but the empty one. -/
theorem map_pick_range' (xs : List α) :
    (List.range' 1 (2 ^ xs.length - 1)).map (fun bits => pick bits xs) =
      xs.sublists.filter (fun chosen => chosen.length ≠ 0) := by
  have positive := Nat.two_pow_pos xs.length
  have count : 2 ^ xs.length = 2 ^ xs.length - 1 + 1 := by omega
  have none : pick 0 xs = [] := pick_zero xs
  rw [← map_pick_range, List.filter_map, List.range_eq_range', count,
    List.range'_succ, Nat.add_sub_cancel, Nat.zero_add,
    List.filter_cons_of_neg]
  · congr 1
    symm
    rw [List.filter_eq_self]
    intro bits member
    rw [List.mem_range'_1] at member
    have some : pick bits xs ≠ [] := pick_ne_nil (by omega) (by omega)
    simpa using some
  · simp [none]

/-- The numbers with `k` bits choose every sublist of length `k` once. -/
theorem map_pick_combinations (k : ℕ) (xs : List α) :
    (combinations k xs.length).map (fun bits => pick bits xs) =
      xs.sublists.filter (fun chosen => chosen.length = k) := by
  induction xs using List.reverseRecOn generalizing k with
  | nil =>
      cases k with
      | zero => rfl
      | succ k => rfl
  | append_singleton xs x ih =>
      rw [List.length_append, List.length_singleton, List.sublists_concat,
        List.filter_append, List.filter_map]
      cases k with
      | zero =>
          have none : xs.sublists.filter ((fun chosen =>
              decide (chosen.length = 0)) ∘ (· ++ [x])) = [] := by
            simp
          rw [none, List.map_nil, List.append_nil, ← ih]
          simp [combinations, pick_zero]
      | succ k =>
          have longer : ((fun chosen => decide (chosen.length = k + 1)) ∘
              (· ++ [x])) = fun chosen : List α => chosen.length = k := by
            funext chosen
            simp
          rw [combinations, List.map_append, List.map_map, longer, ← ih,
            ← ih, List.map_map]
          congr 1
          · apply List.map_congr_left
            intro bits member
            exact pick_append_low x (combinations_lt member)
          · apply List.map_congr_left
            intro bits member
            exact pick_append_high x (combinations_lt member)

theorem mem_pick_combinations {k : ℕ} {xs chosen : List α} :
    (∃ bits ∈ combinations k xs.length, pick bits xs = chosen) ↔
      chosen.Sublist xs ∧ chosen.length = k := by
  rw [← List.mem_map, map_pick_combinations, List.mem_filter,
    List.mem_sublists, decide_eq_true_eq]

end Pick

/-! ## Turns and combinations -/

/-- Without resets every number but the first only adds its turns. -/
def turnCount (ns : List ℕ) : ℕ :=
  (ns.map (· - 1)).sum + 1

/-- At most one of the numbers is more than one. -/
def AtMostOneTurns (ns : List ℕ) : Prop :=
  ns.countP (fun n => decide (1 < n)) ≤ 1

section Turns

variable {ns : List ℕ}

theorem turnCount_cons (n : ℕ) (ns : List ℕ) :
    turnCount (n :: ns) = (n - 1) + turnCount ns := by
  unfold turnCount
  rw [List.map_cons, List.sum_cons, Nat.add_assoc]

theorem turnCount_le_prod (positive : ∀ n ∈ ns, 0 < n) :
    turnCount ns ≤ ns.prod := by
  induction ns with
  | nil => exact le_rfl
  | cons n ns ih =>
      have others : ∀ m ∈ ns, 0 < m :=
        fun m member => positive m (List.mem_cons_of_mem n member)
      have first := positive n List.mem_cons_self
      have rest := ih others
      have product := List.prod_pos others
      rw [turnCount_cons, List.prod_cons]
      obtain ⟨k, rfl⟩ := Nat.exists_eq_succ_of_ne_zero first.ne'
      have grows := Nat.le_mul_of_pos_right k product
      rw [Nat.succ_mul, Nat.succ_sub_one]
      omega

theorem turnCount_eq_one
    (none : ns.countP (fun n => decide (1 < n)) = 0) : turnCount ns = 1 := by
  have ones : ∀ m ∈ ns.map (· - 1), m = 0 := by
    intro m member
    obtain ⟨n, inside, rfl⟩ := List.mem_map.mp member
    have notMore := List.countP_eq_zero.mp none n inside
    simp only [decide_eq_true_eq, not_lt] at notMore
    exact Nat.sub_eq_zero_of_le notMore
  rw [turnCount, List.sum_eq_zero ones]

/-- There are as many turns as combinations only if one number turns. -/
theorem turnCount_eq_prod_iff (positive : ∀ n ∈ ns, 0 < n) :
    turnCount ns = ns.prod ↔ AtMostOneTurns ns := by
  unfold AtMostOneTurns
  induction ns with
  | nil => exact ⟨fun _ => Nat.zero_le 1, fun _ => rfl⟩
  | cons n ns ih =>
      have others : ∀ m ∈ ns, 0 < m :=
        fun m member => positive m (List.mem_cons_of_mem n member)
      have first := positive n List.mem_cons_self
      have bound := turnCount_le_prod others
      have product := List.prod_pos others
      rw [turnCount_cons, List.prod_cons, List.countP_cons]
      by_cases turns : 1 < n
      · have allOne : ns.prod = 1 ↔
            ns.countP (fun n => decide (1 < n)) = 0 := by
          rw [List.countP_eq_zero]
          constructor
          · intro one m member notOne
            have divides := List.dvd_prod member
            rw [one, Nat.dvd_one] at divides
            rw [divides] at notOne
            simp at notOne
          · intro none
            refine List.prod_eq_one ?_
            intro m member
            have notMore := none m member
            have some := others m member
            simp only [decide_eq_true_eq, not_lt] at notMore
            omega
        have counted : (if decide (1 < n) = true then 1 else 0) = 1 := by
          simp [turns]
        rw [counted]
        obtain ⟨k, rfl⟩ : ∃ k, n = k + 2 := ⟨n - 2, by omega⟩
        have expand : (k + 2) * ns.prod = (k + 1) * ns.prod + ns.prod := by
          ring
        have grows := Nat.le_mul_of_pos_right (k + 1) product
        constructor
        · intro same
          have equal : (k + 1) * ns.prod = k + 1 := by omega
          have one : ns.prod = 1 :=
            Nat.eq_of_mul_eq_mul_left (Nat.succ_pos k)
              (equal.trans (Nat.mul_one _).symm)
          rw [allOne.mp one]
        · intro few
          have one := allOne.mpr (by omega)
          have turned := (ih others).mpr (by omega)
          rw [one] at turned ⊢
          omega
      · have one : n = 1 := by omega
        have counted : (if decide (1 < n) = true then 1 else 0) = 0 := by
          simp [turns]
        rw [counted, one, Nat.one_mul, Nat.add_zero, ← ih others]
        omega

end Turns

/-- Sums of smaller terms are the same only if all terms are. -/
theorem sum_map_eq_iff_of_le {α : Type} {xs : List α} {f g : α → ℕ}
    (le : ∀ x ∈ xs, f x ≤ g x) :
    (xs.map f).sum = (xs.map g).sum ↔ ∀ x ∈ xs, f x = g x := by
  induction xs with
  | nil => simp
  | cons x xs ih =>
      have first := le x List.mem_cons_self
      have others : ∀ y ∈ xs, f y ≤ g y :=
        fun y member => le y (List.mem_cons_of_mem x member)
      have rest : (xs.map f).sum ≤ (xs.map g).sum :=
        List.sum_le_sum others
      rw [List.map_cons, List.map_cons, List.sum_cons, List.sum_cons,
        List.forall_mem_cons, ← ih others]
      omega

end StellarCore.Lib
