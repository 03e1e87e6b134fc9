import Mathlib

/-!
# Books and the accounts that cover them

Every account holds an amount, and for some of them an amount is booked.  While a
transaction is under way an account may hold more or less than is booked for it; the
difference is a function to the integers, and each entry or transfer adds to it at one or
two accounts.  When it ends nowhere below zero, every account covers its books.

## Main definitions

* `gain k n` — `n` more at the account `k`.
* `Covered K booked held δ` — the accounts in `K` hold what is booked for them and `δ` more.
-/

namespace Lib

variable {ι : Type} [DecidableEq ι] {K : ι → Prop} {booked held held' : ι → ℕ} {δ ε : ι → ℤ}

/-- `n` more at the account `k`. -/
def gain (k : ι) (n : ℤ) : ι → ℤ := fun j => if j = k then n else 0

@[simp] theorem gain_self (k : ι) (n : ℤ) : gain k n k = n := if_pos rfl

theorem gain_of_ne {j k : ι} (h : j ≠ k) (n : ℤ) : gain k n j = 0 := if_neg h

@[simp] theorem gain_zero (k : ι) : gain k 0 = 0 := by
  funext j
  exact ite_self 0

/-- The accounts in `K` hold what is booked for them and `δ` more. -/
def Covered (K : ι → Prop) (booked held : ι → ℕ) (δ : ι → ℤ) : Prop :=
  ∀ k, K k → (booked k : ℤ) + δ k ≤ held k

namespace Covered

omit [DecidableEq ι] in
theorem mono (h : Covered K booked held δ) (hδ : ∀ k, K k → ε k ≤ δ k) :
    Covered K booked held ε := fun k hk => by
  have := h k hk
  have := hδ k hk
  omega

omit [DecidableEq ι] in
/-- No account in `K` lost anything. -/
theorem grow (h : Covered K booked held δ) (hheld : ∀ k, K k → held k ≤ held' k) :
    Covered K booked held' δ := fun k hk => by
  have := h k hk
  have := hheld k hk
  omega

omit [DecidableEq ι] in
theorem exact (h : Covered K booked held δ) (hδ : ∀ k, K k → 0 ≤ δ k) {k : ι} (hk : K k) :
    booked k ≤ held k := by
  have := h k hk
  have := hδ k hk
  omega

/-- An amount moved from one account to another; the two may be the same. -/
theorem transfer (h : Covered K booked held δ) {source dest : ι} {n : ℕ}
    (hbalance : ∀ k, held' k + (if k = source then n else 0) =
      held k + (if k = dest then n else 0)) :
    Covered K booked held' (δ - gain source n + gain dest n) := by
  intro k hk
  have hbefore := h k hk
  have hmoved := hbalance k
  simp only [gain, Pi.add_apply, Pi.sub_apply]
  split_ifs at hmoved ⊢ <;> omega

/-- What comes from an account outside `K` is a gain. -/
theorem receive (h : Covered K booked held δ) {source dest : ι} {n : ℕ} (hsource : ¬ K source)
    (hbalance : ∀ k, held' k + (if k = source then n else 0) =
      held k + (if k = dest then n else 0)) :
    Covered K booked held' (δ + gain dest n) := by
  refine (h.transfer hbalance).mono fun k hk => ?_
  have hne : k ≠ source := fun heq => hsource (heq ▸ hk)
  simp [gain_of_ne hne]

/-- Another amount is booked for one account. -/
theorem rebook (h : Covered K booked held δ) (k : ι) (n : ℕ) :
    Covered K (Function.update booked k n) held (δ - gain k (n - booked k)) := by
  intro j hj
  have hbefore := h j hj
  by_cases hkey : j = k
  · subst hkey
    simp only [Function.update_self, Pi.sub_apply, gain_self]
    omega
  · simpa [Function.update_of_ne hkey, gain_of_ne hkey] using hbefore

theorem unbook {k : ι} {n : ℕ} (h : Covered K (Function.update booked k n) held δ) :
    Covered K booked held (δ + gain k (n - booked k)) := by
  have := h.rebook k (booked k)
  rw [Function.update_idem, Function.update_eq_self, Function.update_self] at this
  refine this.mono fun j _ => ?_
  simp only [gain, Pi.add_apply, Pi.sub_apply]
  split <;> omega

/-- An account is topped up to `n` from outside, and `n` is booked for it. -/
theorem create (h : Covered K booked held δ) {payer target : ι} {n : ℕ} (hpayer : ¬ K payer)
    (hδ : δ target ≤ 0) (hbalance : ∀ k, held' k + (if k = payer then n - held target else 0) =
      held k + (if k = target then n - held target else 0)) :
    Covered K (Function.update booked target n) held' δ := by
  intro k hk
  have hbefore := h k hk
  have hmoved := hbalance k
  have hne : k ≠ payer := fun heq => hpayer (heq ▸ hk)
  rw [if_neg hne] at hmoved
  by_cases hkey : k = target
  · subst hkey
    rw [if_pos rfl] at hmoved
    rw [Function.update_self]
    omega
  · rw [if_neg hkey] at hmoved
    rw [Function.update_of_ne hkey]
    omega

/-- Nothing is booked any more for an account, and what it held is free. -/
theorem release (h : Covered K booked held δ) {k dest : ι}
    (hbalance : ∀ j, held' j + (if j = k then held k else 0) =
      held j + (if j = dest then held k else 0)) :
    Covered K (Function.update booked k 0) held' (Function.update δ k 0) := by
  intro j hj
  have hbefore := h j hj
  have hmoved := hbalance j
  by_cases hkey : j = k
  · subst hkey
    simp
  · rw [if_neg hkey] at hmoved
    rw [Function.update_of_ne hkey, Function.update_of_ne hkey]
    omega

end Covered

end Lib
