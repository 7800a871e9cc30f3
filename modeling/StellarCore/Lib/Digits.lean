import Mathlib.Data.Nat.Digits.Lemmas

/-!
# Digits of a number

Lists of digits with the highest one first, and a reader that takes digits of
one power of two and hands them on as digits of another one.
-/

namespace StellarCore.Lib

/-! ## Numbers -/

/-- The number that the digits stand for. -/
def number (base : ℕ) (digits : List ℕ) : ℕ :=
  Nat.ofDigits base digits.reverse

/-- The lowest `count` digits of a number. -/
def digitsOf (base : ℕ) : ℕ → ℕ → List ℕ
  | 0, _ => []
  | count + 1, n => digitsOf base count (n / base) ++ [n % base]

section Number

variable {base : ℕ} {digits : List ℕ}

theorem number_nil (base : ℕ) : number base [] = 0 :=
  rfl

theorem number_append_singleton (base : ℕ) (digits : List ℕ) (digit : ℕ) :
    number base (digits ++ [digit]) =
      number base digits * base + digit := by
  rw [number, List.reverse_append, List.reverse_singleton,
    List.singleton_append, Nat.ofDigits_cons, number]
  ring

theorem number_lt (many : 1 < base) (small : ∀ digit ∈ digits, digit < base) :
    number base digits < base ^ digits.length := by
  rw [number, ← List.length_reverse]
  apply Nat.ofDigits_lt_base_pow_length many
  intro digit member
  exact small digit (List.mem_reverse.mp member)

theorem number_injective {others : List ℕ} (many : 1 < base)
    (length : digits.length = others.length)
    (small : ∀ digit ∈ digits, digit < base)
    (smaller : ∀ digit ∈ others, digit < base)
    (same : number base digits = number base others) : digits = others := by
  apply List.reverse_injective
  refine Nat.ofDigits_inj_of_len_eq many ?_ ?_ ?_ same
  · rw [List.length_reverse, List.length_reverse, length]
  · intro digit member
    exact small digit (List.mem_reverse.mp member)
  · intro digit member
    exact smaller digit (List.mem_reverse.mp member)

theorem digitsOf_length (base count n : ℕ) :
    (digitsOf base count n).length = count := by
  induction count generalizing n with
  | zero => rfl
  | succ count ih =>
      rw [digitsOf, List.length_append, ih, List.length_singleton]

theorem digitsOf_lt (many : 0 < base) (count n : ℕ) :
    ∀ digit ∈ digitsOf base count n, digit < base := by
  induction count generalizing n with
  | zero => intro digit member; cases member
  | succ count ih =>
      intro digit member
      rcases List.mem_append.mp member with higher | lowest
      · exact ih (n / base) digit higher
      · rw [List.mem_singleton.mp lowest]
        exact Nat.mod_lt n many

theorem number_digitsOf {count n : ℕ} (bound : n < base ^ count) :
    number base (digitsOf base count n) = n := by
  induction count generalizing n with
  | zero =>
      rw [Nat.pow_zero] at bound
      rw [digitsOf, number_nil]
      omega
  | succ count ih =>
      have higher : n / base < base ^ count := by
        apply Nat.div_lt_of_lt_mul
        rwa [Nat.mul_comm, ← Nat.pow_succ]
      rw [digitsOf, number_append_singleton, ih higher]
      exact Nat.div_add_mod' n base

theorem digitsOf_number (many : 1 < base)
    (small : ∀ digit ∈ digits, digit < base) :
    digitsOf base digits.length (number base digits) = digits := by
  apply number_injective many
  · exact digitsOf_length _ _ _
  · exact digitsOf_lt (by omega) _ _
  · exact small
  · exact number_digitsOf (number_lt many small)

end Number

end StellarCore.Lib
