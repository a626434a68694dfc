import Mathlib.Data.Rat.Floor
import Mathlib.Tactic.Linarith

/-!
# Exact arithmetic on binary64

An operation on binary64 numbers gives the exact result, rounded. Which way it is rounded does
not matter where the exact result is a binary64 number itself: then it is the
result (`Rounding`). So sums, products and differences of natural numbers below `2 ^ 53`
are exact, as is their division by a power of two.
-/

namespace QuicLab

/-- The finite numbers: significands of 53 bits, scaled by a power of two. -/
def Representable (x : ℚ) : Prop :=
  ∃ m e : ℤ, |m| < 2 ^ 53 ∧ -1074 ≤ e ∧ e ≤ 971 ∧ x = m * 2 ^ e

/-- A number below `2 ^ 53`, divided by a power of two. -/
theorem representable_div {n k : ℕ} (hn : n < 2 ^ 53) (hk : k ≤ 1074) :
    Representable ((n : ℚ) / 2 ^ k) := by
  refine ⟨n, -k, ?_, by omega, by omega, ?_⟩
  · rw [Nat.abs_cast]
    exact_mod_cast hn
  · rw [zpow_neg, zpow_natCast, Int.cast_natCast, div_eq_mul_inv]

theorem representable_natCast {n : ℕ} (hn : n < 2 ^ 53) : Representable (n : ℚ) := by
  have h := representable_div hn (Nat.zero_le 1074)
  rwa [pow_zero, div_one] at h

/-- A way of rounding. -/
structure Rounding where
  round : ℚ → ℚ
  round_of_representable : ∀ x, Representable x → round x = x

namespace Rounding

variable (r : Rounding)

def add (x y : ℚ) : ℚ := r.round (x + y)

def sub (x y : ℚ) : ℚ := r.round (x - y)

def mul (x y : ℚ) : ℚ := r.round (x * y)

def div (x y : ℚ) : ℚ := r.round (x / y)

variable {m n k : ℕ}

theorem add_natCast (h : m + n < 2 ^ 53) : r.add m n = ((m + n : ℕ) : ℚ) := by
  rw [add, ← Nat.cast_add, r.round_of_representable _ (representable_natCast h)]

theorem sub_natCast (hle : n ≤ m) (h : m < 2 ^ 53) : r.sub m n = ((m - n : ℕ) : ℚ) := by
  rw [sub, ← Nat.cast_sub hle, r.round_of_representable _ (representable_natCast (by omega))]

theorem mul_natCast (h : m * n < 2 ^ 53) : r.mul m n = ((m * n : ℕ) : ℚ) := by
  rw [mul, ← Nat.cast_mul, r.round_of_representable _ (representable_natCast h)]

theorem div_two_pow (h : m < 2 ^ 53) (hk : k ≤ 1074) : r.div m (2 ^ k) = (m : ℚ) / 2 ^ k :=
  r.round_of_representable _ (representable_div h hk)

/-- The whole part of a quotient is that of natural numbers. -/
theorem floor_div_two_pow (h : m < 2 ^ 53) (hk : k ≤ 1074) :
    (⌊r.div m (2 ^ k)⌋ : ℚ) = ((m / 2 ^ k : ℕ) : ℚ) := by
  have hfloor := Rat.floor_natCast_div_natCast m (2 ^ k)
  rw [Nat.cast_pow, Nat.cast_ofNat] at hfloor
  rw [r.div_two_pow h hk, hfloor, ← Int.natCast_div, Int.cast_natCast]

end Rounding

end QuicLab
