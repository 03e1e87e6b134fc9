import Godl.Lib.Selection
import Godl.Program.Deploy

/-!
# The squares of a random automation

An automation with the random strategy names a number of squares and leaves it to a hash
which ones.  The loop that draws them is selection sampling: the byte of a position is
scaled to the positions that are left and compared with what is still needed.  When all
positions that are left are needed, no byte is large enough to refuse one.

## Main definitions

* `byteTest` — the comparison of the loop.
* `randomMaskLoop_eq` — the loop is selection sampling.
* `generateRandomMask_count` — exactly the requested number of squares is selected.
-/

namespace Godl

open Lib

/-- Whether the byte of a position picks it. -/
def byteTest (r : List ℕ) (i needed left : ℕ) : Bool := r[i]?.getD 0 * left < needed * 256

/-- A byte is below 256, so a position is picked when all that are left are needed. -/
theorem byteTest_forced {r : List ℕ} (hbytes : ∀ b ∈ r, b < 256) (i : ℕ) {n : ℕ} (hn : 0 < n) :
    byteTest r i n n = true := by
  have hbyte : r[i]?.getD 0 < 256 := by
    cases hget : r[i]? with
    | none => exact Nat.zero_lt_succ _
    | some b => exact hbytes b (List.mem_of_getElem? hget)
  rw [byteTest, decide_eq_true_eq, Nat.mul_comm n]
  exact Nat.mul_lt_mul_of_pos_right hbyte hn

/-- **The loop is selection sampling** over the last `k` positions.  It returns, so the
subtraction in it never underflows and no byte is missing. -/
theorem randomMaskLoop_eq {r : List ℕ} {numSquares : ℕ} (hr : 25 ≤ r.length) (k i selected : ℕ)
    (mask : ℕ → Bool) (hi : i + k = 25) (hselected : selected ≤ numSquares) :
    randomMaskLoop r numSquares (List.range' i k) selected mask = .ok fun j =>
      mask j || decide
        (j ∈ selectSample (byteTest r) (numSquares - selected) (List.range' i k)) := by
  induction k generalizing i selected mask with
  | zero => simp [randomMaskLoop, selectSample]
  | succ k ih =>
    have hget : r[i]? = some (r[i]?.getD 0) := by
      rw [List.getElem?_eq_getElem (by omega)]
      rfl
    have hleft : 25 - i = k + 1 := by omega
    rw [List.range'_succ, randomMaskLoop, hget]
    simp only [fromOption, ok_bind, subU64, if_pos hselected, hleft, selectSample,
      List.length_range', byteTest, decide_eq_true_eq]
    split
    · next hpick =>
      rw [ih (i + 1) (selected + 1) _ (by omega) (by omega), Nat.sub_add_eq]
      refine congrArg Except.ok (funext fun j => ?_)
      by_cases hj : j = i
      · simp [hj]
      · simp [hj]
    · exact ih (i + 1) selected mask (by omega) hselected

/-- Squares are counted by their numbers. -/
theorem countP_squareList (p : ℕ → Bool) :
    squareList.countP (fun sq => p sq.val) = (List.range 25).countP p := by
  rw [← List.map_coe_finRange_eq_range, List.countP_map]
  rfl

/-- **A random mask selects exactly the requested number of squares**, whatever the bytes. -/
theorem generateRandomMask_count {numSquares : ℕ} {r : List ℕ} (hnum : numSquares ≤ 25)
    (hr : 25 ≤ r.length) (hbytes : ∀ b ∈ r, b < 256) :
    ∃ squares, generateRandomMask numSquares r = .ok squares ∧
      squareList.countP squares = numSquares := by
  have hloop := @randomMaskLoop_eq r numSquares hr 25 0 0 (fun _ => false)
    (Nat.zero_add 25) (Nat.zero_le _)
  rw [← List.range_eq_range'] at hloop
  rw [generateRandomMask, hloop, ok_bind]
  refine ⟨_, rfl, ?_⟩
  simp only [Bool.false_or, Nat.sub_zero]
  have hcount := countP_mem_selectSample (List.nodup_range (n := 25))
    (fun i _ n hn => byteTest_forced hbytes i hn) (hnum.trans List.length_range.ge)
  exact (countP_squareList _).trans hcount

/-- Three squares out of a hash of bytes that count up. -/
theorem generateRandomMask_count_three : (3 ≤ 25 ∧ 25 ≤ (List.range 32).length ∧
    ∀ b ∈ List.range 32, b < 256) ∧
    ∃ squares, generateRandomMask 3 (List.range 32) = .ok squares ∧
      squareList.countP squares = 3 :=
  ⟨by decide, generateRandomMask_count (by decide) (by decide) (by decide)⟩

end Godl
