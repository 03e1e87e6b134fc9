import Mathlib

/-!
# Selection sampling

One pass over a list picks elements until a quota is met.  Whether an element is picked is
up to a test that sees how many are still needed and how many are left.  A test that
cannot refuse while every element left is needed picks exactly as many as the quota.

## Main definitions

* `selectSample test needed l` — the elements that are picked.
* `length_selectSample`, `countP_mem_selectSample` — the quota is met exactly.
-/

namespace Lib

variable {α : Type} {test : α → ℕ → ℕ → Bool} {needed : ℕ} {l : List α}

/-- Pick from `l` until `needed` elements are picked; `test x needed left` decides on `x`,
which is one of the `left` elements that are left. -/
def selectSample (test : α → ℕ → ℕ → Bool) : ℕ → List α → List α
  | _, [] => []
  | needed, x :: rest =>
      if 0 < needed ∧ test x needed (rest.length + 1) then
        x :: selectSample test (needed - 1) rest
      else selectSample test needed rest

/-- What is picked was there, in this order. -/
theorem selectSample_sublist (test : α → ℕ → ℕ → Bool) (needed : ℕ) (l : List α) :
    (selectSample test needed l).Sublist l := by
  induction l generalizing needed with
  | nil => exact List.Sublist.slnil
  | cons x rest ih =>
    rw [selectSample]
    split
    · exact (ih _).cons_cons x
    · exact (ih _).cons x

/-- **The quota is met exactly.** -/
theorem length_selectSample (hforced : ∀ x ∈ l, ∀ n, 0 < n → test x n n = true)
    (h : needed ≤ l.length) : (selectSample test needed l).length = needed := by
  induction l generalizing needed with
  | nil => exact (Nat.le_zero.1 h).symm
  | cons x rest ih =>
    rw [List.length_cons] at h
    have hrest : ∀ y ∈ rest, ∀ n, 0 < n → test y n n = true :=
      fun y hy => hforced y (List.mem_cons_of_mem x hy)
    rw [selectSample]
    split
    · next hpick =>
      rw [List.length_cons, ih hrest (by omega)]
      omega
    · next hskip =>
      -- An element is skipped only where another one is left for its place.
      refine ih hrest (Nat.le_of_lt_succ (lt_of_le_of_ne h fun hall => hskip ?_))
      rw [hall]
      exact ⟨Nat.succ_pos _, hforced x List.mem_cons_self _ (Nat.succ_pos _)⟩

/-- So many elements of a list without duplicates are picked. -/
theorem countP_mem_selectSample [DecidableEq α] (hl : l.Nodup)
    (hforced : ∀ x ∈ l, ∀ n, 0 < n → test x n n = true) (h : needed ≤ l.length) :
    l.countP (fun x => decide (x ∈ selectSample test needed l)) = needed := by
  have hsub := selectSample_sublist test needed l
  have hperm : (l.filter fun x => decide (x ∈ selectSample test needed l)).Perm
      (selectSample test needed l) := by
    refine (List.perm_ext_iff_of_nodup (hl.filter _) (hsub.nodup hl)).2 fun x => ?_
    simp only [List.mem_filter, decide_eq_true_eq]
    exact ⟨And.right, fun hx => ⟨hsub.mem hx, hx⟩⟩
  rw [List.countP_eq_length_filter, hperm.length_eq, length_selectSample hforced h]

end Lib
