import Mathlib

/-!
# What flows between accounts

Every account holds an amount.  A step changes finitely many of them, and all of them together
change by what came in from outside less what went out.  The outside is kept as one number, for
instance a supply that the accounts share: when it grows from `a` to `b` the accounts grow with
it.  The accounts themselves may be infinitely many.

## Main definitions

* `Flow l l' a b` — finitely many accounts change from `l` to `l'`, together as `a` to `b`.
-/

namespace Lib

variable {ι : Type} {l l' l'' : ι → ℕ} {a b c : ℕ}

/-- Finitely many accounts change from `l` to `l'`, and together they change as `a` to `b`. -/
def Flow (l l' : ι → ℕ) (a b : ℕ) : Prop :=
  ∃ K : Finset ι, (∀ k ∉ K, l' k = l k) ∧ ∑ k ∈ K, l' k + a = ∑ k ∈ K, l k + b

namespace Flow

theorem refl (l : ι → ℕ) (a : ℕ) : Flow l l a a := ⟨∅, by simp, rfl⟩

/-- The accounts among which a flow takes place may be any that contain the changed ones. -/
theorem sum_of_subset [DecidableEq ι] {K J : Finset ι} (hsame : ∀ k ∉ K, l' k = l k)
    (hsum : ∑ k ∈ K, l' k + a = ∑ k ∈ K, l k + b) (hsub : K ⊆ J) :
    ∑ k ∈ J, l' k + a = ∑ k ∈ J, l k + b := by
  have hrest : ∑ k ∈ J \ K, l' k = ∑ k ∈ J \ K, l k :=
    Finset.sum_congr rfl fun k hk => hsame k (Finset.mem_sdiff.1 hk).2
  have hl := Finset.sum_sdiff (f := l) hsub
  have hl' := Finset.sum_sdiff (f := l') hsub
  omega

theorem trans [DecidableEq ι] (h : Flow l l' a b) (h' : Flow l' l'' b c) : Flow l l'' a c := by
  obtain ⟨K, hsame, hsum⟩ := h
  obtain ⟨J, hsame', hsum'⟩ := h'
  refine ⟨K ∪ J, fun k hk => ?_, ?_⟩
  · rw [Finset.notMem_union] at hk
    exact (hsame' k hk.2).trans (hsame k hk.1)
  · have hfirst := sum_of_subset hsame hsum (Finset.subset_union_left : K ⊆ K ∪ J)
    have hsecond := sum_of_subset hsame' hsum' (Finset.subset_union_right : J ⊆ K ∪ J)
    omega

/-- One account changes, by as much as the outside. -/
theorem single [DecidableEq ι] {i : ι} (hsame : ∀ k, k ≠ i → l' k = l k)
    (hi : l' i + a = l i + b) : Flow l l' a b := by
  refine ⟨{i}, fun k hk => hsame k (by simpa using hk), ?_⟩
  simpa using hi

/-- An amount moves from one account to another; the two may be the same. -/
theorem transfer [DecidableEq ι] {source dest : ι} {n : ℕ}
    (hbalance : ∀ k, l' k + (if k = source then n else 0) =
      l k + (if k = dest then n else 0)) : Flow l l' a a := by
  refine ⟨{source, dest}, fun k hk => ?_, ?_⟩
  · have hk' : k ≠ source ∧ k ≠ dest := by simpa using hk
    have hbalance := hbalance k
    rw [if_neg hk'.1, if_neg hk'.2] at hbalance
    exact hbalance
  · have hsum : ∑ k ∈ {source, dest}, (l' k + if k = source then n else 0) =
        ∑ k ∈ {source, dest}, (l k + if k = dest then n else 0) :=
      Finset.sum_congr rfl fun k _ => hbalance k
    rw [Finset.sum_add_distrib, Finset.sum_add_distrib] at hsum
    simp only [Finset.sum_ite_eq', Finset.mem_insert, Finset.mem_singleton, true_or, or_true,
      if_true] at hsum
    omega

/-- What is the same before and after is no flow. -/
theorem of_eq (h : l' = l) : Flow l l' a a := by
  subst h
  exact .refl l' a

end Flow

end Lib
