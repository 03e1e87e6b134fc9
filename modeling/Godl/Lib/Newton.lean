import Mathlib

/-!
# Newton's iteration for the integer square root

From any positive guess, the next guess of Newton's iteration is no smaller than the root.
So guesses that start above the root stay there, and the first one that does not fall is the
root.

## Main definitions

* `newton n x` — the guess after `x` for the square root of `n`.
* `sqrt_le_newton` — no guess is below the root.
* `eq_sqrt_of_le_newton` — a guess that does not fall is the root.
-/

namespace Lib

variable {n x : ℕ}

/-- The next guess for the square root of `n`. -/
def newton (n x : ℕ) : ℕ := (x + n / x) / 2

/-- **No guess is below the root.** -/
theorem sqrt_le_newton (hx : 0 < x) : Nat.sqrt n ≤ newton n x := by
  have hroot : Nat.sqrt n * Nat.sqrt n ≤ n := Nat.sqrt_le n
  rw [newton, Nat.le_div_iff_mul_le two_pos]
  rcases Nat.le_total (Nat.sqrt n * 2) x with hle | hle
  · exact hle.trans (Nat.le_add_right _ _)
  · obtain ⟨d, hd⟩ := Nat.exists_eq_add_of_le hle
    -- The mean of `x` and `d` is the root, so their product is at most its square.
    have hprod : 4 * (d * x) ≤ 4 * (Nat.sqrt n * Nat.sqrt n) := by
      calc 4 * (d * x) = 4 * x * d := by ring
        _ ≤ (x + d) ^ 2 := four_mul_le_sq_add x d
        _ = 4 * (Nat.sqrt n * Nat.sqrt n) := by rw [← hd]; ring
    have hdiv : d ≤ n / x := by
      rw [Nat.le_div_iff_mul_le hx]
      omega
    omega

/-- A guess that does not fall is not above the root. -/
theorem le_sqrt_of_le_newton (hx : 0 < x) (h : x ≤ newton n x) : x ≤ Nat.sqrt n := by
  rw [newton, Nat.le_div_iff_mul_le two_pos] at h
  have hdiv : x ≤ n / x := by omega
  rw [Nat.le_div_iff_mul_le hx] at hdiv
  exact Nat.le_sqrt.2 hdiv

/-- **The first guess that does not fall is the root.** -/
theorem eq_sqrt_of_le_newton (hx : 0 < x) (habove : Nat.sqrt n ≤ x) (h : x ≤ newton n x) :
    x = Nat.sqrt n := le_antisymm (le_sqrt_of_le_newton hx h) habove

/-- Above the root, what is divided by the guess exceeds the root by two at most. -/
theorem div_le_sqrt_add_two (hn : 0 < n) (habove : Nat.sqrt n ≤ x) :
    n / x ≤ Nat.sqrt n + 2 := by
  have hpos : 0 < Nat.sqrt n := Nat.sqrt_pos.2 hn
  have hlt : n < (Nat.sqrt n + 1) * (Nat.sqrt n + 1) := Nat.lt_succ_sqrt n
  refine (Nat.div_le_div_left habove hpos).trans ?_
  refine Nat.le_of_lt_succ ((Nat.div_lt_iff_lt_mul hpos).2 ?_)
  rw [Nat.succ_eq_add_one]
  nlinarith

/-- A power of two with half as many bits, rounded up, is above the root. -/
theorem sqrt_lt_two_pow {b : ℕ} (h : n < 2 ^ b) : Nat.sqrt n < 2 ^ ((b + 1) / 2) := by
  rw [Nat.sqrt_lt, ← Nat.pow_add]
  exact h.trans_le (Nat.pow_le_pow_right two_pos (by omega))

end Lib
