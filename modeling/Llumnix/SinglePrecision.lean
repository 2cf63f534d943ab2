/-
**Integers in single precision.**

A number of single precision has 24 significant bits.  An integer, and the sum of two integers, is rounded to
the nearest number of that kind, and to the even one of two that are equally near.  Integers of 64 bits are
far from the range where this overflows.

* `ofInt_mono` — **rounding keeps the order**.
-/

import Mathlib

namespace SinglePrecision

open Nat Int

/-- The multiple of `u` that is nearest to `n`, the even one of two. -/
def roundTo (u n : Nat) : Nat :=
  if 2 * (n % u) < u ∨ 2 * (n % u) = u ∧ n / u % 2 = 0 then n / u * u else (n / u + 1) * u

def ofNat (n : Nat) : Nat := roundTo (2 ^ (n.log2 - 23)) n

/-- **An integer as a number of single precision.** -/
def ofInt : Int → Int
  | .ofNat n => ofNat n
  | .negSucc n => -ofNat (n + 1)

variable {u m n : Nat}

theorem div_mul_le_roundTo (u n : Nat) : n / u * u ≤ roundTo u n := by
  unfold roundTo
  split
  · exact le_rfl
  · exact mul_le_mul_right u (le_succ _)

theorem roundTo_le (u n : Nat) : roundTo u n ≤ (n / u + 1) * u := by
  unfold roundTo
  split
  · exact mul_le_mul_right u (le_succ _)
  · exact le_rfl

theorem roundTo_mono (h : m ≤ n) : roundTo u m ≤ roundTo u n := by
  rcases (Nat.div_le_div_right h : m / u ≤ n / u).eq_or_lt with hq | hq
  · have hr : m % u ≤ n % u := by
      have hm := div_add_mod m u
      have hn := div_add_mod n u
      rw [hq] at hm
      omega
    unfold roundTo
    rw [hq]
    split_ifs with h₁ h₂ h₂
    · exact le_rfl
    · exact mul_le_mul_right u (le_succ _)
    · omega
    · exact le_rfl
  · calc roundTo u m ≤ (m / u + 1) * u := roundTo_le u m
      _ ≤ n / u * u := mul_le_mul_right u hq
      _ ≤ roundTo u n := div_mul_le_roundTo u n

theorem roundTo_mul (hu : 0 < u) (k : Nat) : roundTo u (k * u) = k * u := by
  rw [roundTo, if_pos (.inl (by rw [Nat.mul_mod_left]; omega)), Nat.mul_div_cancel _ hu]

/-- A power of two is a multiple of the last bit of the numbers below it and of those above it. -/
theorem roundTo_two_pow {k j : Nat} (h : k ≤ j) : roundTo (2 ^ k) (2 ^ j) = 2 ^ j := by
  have hm := roundTo_mul (Nat.two_pow_pos k) (2 ^ (j - k))
  rwa [← Nat.pow_add, Nat.sub_add_cancel h] at hm

theorem ofNat_mono (h : m ≤ n) : ofNat m ≤ ofNat n := by
  rcases Nat.eq_zero_or_pos m with rfl | hm
  · exact zero_le _
  have hl : m.log2 ≤ n.log2 := (le_log2 (by omega)).2 ((log2_self_le (by omega)).trans h)
  rcases hl.eq_or_lt with heq | hlt
  · rw [ofNat, ofNat, heq]
    exact roundTo_mono h
  · calc ofNat m ≤ roundTo (2 ^ (m.log2 - 23)) (2 ^ (m.log2 + 1)) := roundTo_mono lt_log2_self.le
      _ = 2 ^ (m.log2 + 1) := roundTo_two_pow (by omega)
      _ ≤ 2 ^ n.log2 := Nat.pow_le_pow_right (by decide) hlt
      _ = roundTo (2 ^ (n.log2 - 23)) (2 ^ n.log2) := (roundTo_two_pow (sub_le _ _)).symm
      _ ≤ ofNat n := roundTo_mono (log2_self_le (by omega))

/-- **Rounding keeps the order.** -/
theorem ofInt_mono : Monotone ofInt := by
  rintro (m | m) (n | n) h
  · exact Int.ofNat_le.2 (ofNat_mono (Int.ofNat_le.1 h))
  · exact absurd ((natCast_nonneg m).trans h) (negSucc_lt_zero n).not_ge
  · exact (neg_nonpos_of_nonneg (natCast_nonneg _)).trans (natCast_nonneg _)
  · exact Int.neg_le_neg (Int.ofNat_le.2 (ofNat_mono (by omega)))

example : ofInt 16777217 = 16777216 ∧ ofInt (-16777219) = -16777220 := by decide

end SinglePrecision
