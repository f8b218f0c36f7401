import Mathlib.Algebra.BigOperators.Group.List.Basic
import Mathlib.Tactic.Ring

/-!
# One's complement sums

Digits below a base are added with end-around carry: a carry out of the highest place is added in
again at the lowest.  The sum of many digits can be computed without any carry and folded at the
end, once or several times, because all that counts is the residue modulo the base less one.  Zero
is the one digit that only zero folds to.
-/

namespace Inet4.OnesComplement

open Nat

variable {b m n : ℕ}

/-- Addition of two digits, where a carry is added in again. -/
def add (b x y : ℕ) : ℕ := if x + y < b then x + y else x + y + 1 - b

/-- The one's complement sum of digits. -/
def sum (b : ℕ) (digits : List ℕ) : ℕ := digits.foldl (add b) 0

/-- The high places added to the lowest one. -/
def fold (b n : ℕ) : ℕ := n % b + n / b

/-- The digit that a number folds to in the end. -/
def digit (b n : ℕ) : ℕ := if n = 0 then 0 else (n - 1) % (b - 1) + 1

@[simp]
theorem digit_zero (b : ℕ) : digit b 0 = 0 := if_pos rfl

theorem digit_of_ne_zero (hn : n ≠ 0) : digit b n = (n - 1) % (b - 1) + 1 := if_neg hn

@[simp]
theorem digit_eq_zero : digit b n = 0 ↔ n = 0 := by
  constructor
  · intro hdigit
    by_contra hn
    rw [digit_of_ne_zero hn] at hdigit
    exact succ_ne_zero _ hdigit
  · intro hn
    rw [hn, digit_zero]

theorem digit_lt (hb : 2 ≤ b) (n : ℕ) : digit b n < b := by
  by_cases hn : n = 0
  · rw [hn, digit_zero]
    omega
  · have hmod : (n - 1) % (b - 1) < b - 1 := mod_lt _ (by omega)
    rw [digit_of_ne_zero hn]
    omega

theorem digit_of_lt (hn : n < b) : digit b n = n := by
  by_cases hzero : n = 0
  · rw [hzero, digit_zero]
  · have hmod : (n - 1) % (b - 1) = n - 1 := mod_eq_of_lt (by omega)
    rw [digit_of_ne_zero hzero, hmod]
    omega

/-- Multiples of the base less one do not count, unless nothing else is there. -/
theorem digit_add_mul (hn : n ≠ 0) (k : ℕ) : digit b (n + (b - 1) * k) = digit b n := by
  have hsum : n + (b - 1) * k ≠ 0 := by omega
  have hsub : n + (b - 1) * k - 1 = n - 1 + (b - 1) * k := by omega
  rw [digit_of_ne_zero hsum, digit_of_ne_zero hn, hsub, add_mul_mod_self_left]

theorem digit_fold (hb : 2 ≤ b) (n : ℕ) : digit b (fold b n) = digit b n := by
  have hdiv : n % b + b * (n / b) = n := mod_add_div n b
  by_cases hfold : fold b n = 0
  · have hparts : n % b = 0 ∧ n / b = 0 := Nat.add_eq_zero_iff.mp hfold
    have hn : n = 0 := by rw [← hdiv, hparts.1, hparts.2]; rfl
    rw [hn, fold, Nat.zero_mod, Nat.zero_div]
  · have hsplit : fold b n + (b - 1) * (n / b) = n :=
      calc
        fold b n + (b - 1) * (n / b) = n % b + (1 + (b - 1)) * (n / b) := by
          unfold fold
          ring
        _ = n % b + b * (n / b) := by
          rw [Nat.add_sub_cancel' (by omega)]
        _ = n := hdiv
    calc
      digit b (fold b n) = digit b (fold b n + (b - 1) * (n / b)) := (digit_add_mul hfold _).symm
      _ = digit b n := by rw [hsplit]

/-- A number can be folded before another one is added. -/
theorem digit_digit_add (b m n : ℕ) : digit b (digit b m + n) = digit b (m + n) := by
  by_cases hm : m = 0
  · rw [hm, digit_zero]
  · have hdiv : (m - 1) % (b - 1) + (b - 1) * ((m - 1) / (b - 1)) = m - 1 := mod_add_div _ _
    have hdigit := digit_of_ne_zero (b := b) hm
    have hne : digit b m + n ≠ 0 := by omega
    have hsplit : digit b m + n + (b - 1) * ((m - 1) / (b - 1)) = m + n := by omega
    rw [← digit_add_mul hne, hsplit]

theorem digit_congr_add (h : digit b m = digit b n) (k : ℕ) :
    digit b (m + k) = digit b (n + k) := by
  rw [← digit_digit_add b m, h, digit_digit_add]

theorem add_eq_digit {x y : ℕ} (hx : x < b) (hy : y < b) : add b x y = digit b (x + y) := by
  unfold add
  split
  · rename_i hlt
    exact (digit_of_lt hlt).symm
  · rename_i hge
    have hsplit : x + y = x + y + 1 - b + (b - 1) * 1 := by omega
    have hne : x + y + 1 - b ≠ 0 := by omega
    rw [hsplit, digit_add_mul hne, digit_of_lt (by omega), ← hsplit]

theorem foldl_add_eq_digit {digits : List ℕ} (hb : 2 ≤ b) (hdigits : ∀ x ∈ digits, x < b) (n : ℕ) :
    digits.foldl (add b) (digit b n) = digit b (n + digits.sum) := by
  induction digits generalizing n with
  | nil => rfl
  | cons x rest ih =>
    have hx : x < b := hdigits x List.mem_cons_self
    have hrest : ∀ y ∈ rest, y < b := fun y hy ↦ hdigits y (List.mem_cons_of_mem x hy)
    rw [List.foldl_cons, add_eq_digit (digit_lt hb n) hx, digit_digit_add, ih hrest, List.sum_cons,
      add_assoc]

/-- The sum with end-around carries is the plain sum, folded. -/
theorem sum_eq_digit {digits : List ℕ} (hb : 2 ≤ b) (hdigits : ∀ x ∈ digits, x < b) :
    sum b digits = digit b digits.sum := by
  have hfold := foldl_add_eq_digit hb hdigits 0
  rw [digit_zero, zero_add] at hfold
  exact hfold

/-- A number and the complement of its digit fold to the highest digit. -/
theorem digit_add_complement (hb : 2 ≤ b) (n : ℕ) : digit b (n + (b - 1 - digit b n)) = b - 1 := by
  have hlt := digit_lt hb n
  have hall : digit b n + (b - 1 - digit b n) = b - 1 := by omega
  rw [← digit_digit_add, hall, digit_of_lt (by omega)]

/-- The highest digit is a second zero: adding it changes no number but zero. -/
theorem digit_add_last (hn : n ≠ 0) : digit b (n + (b - 1)) = digit b n := by
  have h := digit_add_mul (b := b) hn 1
  rw [mul_one] at h
  exact h

end Inet4.OnesComplement
