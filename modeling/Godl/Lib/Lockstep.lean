import Godl.Lib.Outcome

/-!
# Two computations in lockstep

Two versions of one computation make the same steps on states that differ a little.  They go
on together or abort together, except that the second one may abort for reasons of its own.

## Main definitions

* `Lockstep E R x y` — `x` and `y` return values related by `R` or abort with the same error,
  unless `y` aborts with an error in `E`.
-/

namespace Lib

variable {ε α α' β β' γ : Type} {E : ε → Prop}

/-- The two computations return related values or abort with the same error, or the second
one aborts for a reason of its own. -/
inductive Lockstep (E : ε → Prop) (R : α → β → Prop) : Except ε α → Except ε β → Prop
  | ok {a : α} {b : β} (h : R a b) : Lockstep E R (.ok a) (.ok b)
  | error (e : ε) : Lockstep E R (.error e) (.error e)
  | own {e : ε} (x : Except ε α) (h : E e) : Lockstep E R x (.error e)

namespace Lockstep

variable {R S : α → β → Prop} {T : α' → β' → Prop} {x : Except ε α} {y : Except ε β}

/-- When both return, their values are related. -/
theorem related (h : Lockstep E R x y) {a : α} {b : β} (hx : x = .ok a) (hy : y = .ok b) :
    R a b := by
  cases h with
  | ok h =>
    cases hx
    cases hy
    exact h
  | error e => cases hx
  | own x h => cases hy

/-- When the first one returns and the second one aborts, the reason is its own. -/
theorem fault (h : Lockstep E R x y) {a : α} {e : ε} (hx : x = .ok a) (hy : y = .error e) :
    E e := by
  cases h with
  | ok h => cases hy
  | error e => cases hx
  | own x h =>
    cases hy
    exact h

/-- When the first one returns and the second one has no reasons of its own, both return. -/
theorem returns (h : Lockstep (fun _ => False) R x y) {a : α} (hx : x = .ok a) :
    ∃ b, y = .ok b ∧ R a b := by
  cases h with
  | ok h =>
    cases hx
    exact ⟨_, rfl, h⟩
  | error e => cases hx
  | own x h => exact h.elim

theorem mono (h : Lockstep E R x y) (himp : ∀ a b, R a b → S a b) : Lockstep E S x y := by
  cases h with
  | ok h => exact .ok (himp _ _ h)
  | error e => exact .error e
  | own x h => exact .own x h

theorem weaken {E' : ε → Prop} (h : Lockstep E R x y) (himp : ∀ e, E e → E' e) :
    Lockstep E' R x y := by
  cases h with
  | ok h => exact .ok h
  | error e => exact .error e
  | own x h => exact .own x (himp _ h)

/-- A computation is in lockstep with itself. -/
theorem refl {P : α → α → Prop} (hP : ∀ a, P a a) {x : Except ε α} : Lockstep E P x x := by
  cases x with
  | ok a => exact .ok (hP a)
  | error e => exact .error e

/-- One line of both blocks. -/
theorem bind (h : Lockstep E R x y) {f : α → Except ε α'} {g : β → Except ε β'}
    (hrest : ∀ a b, R a b → Lockstep E T (f a) (g b)) : Lockstep E T (x >>= f) (y >>= g) := by
  cases h with
  | ok h => exact hrest _ _ h
  | error e => exact .error e
  | own x h => exact .own _ h

/-- A line that both blocks share. -/
theorem bind_same (x : Except ε γ) {f : γ → Except ε α} {g : γ → Except ε β}
    (hrest : ∀ a, x = .ok a → Lockstep E R (f a) (g a)) : Lockstep E R (x >>= f) (x >>= g) := by
  cases x with
  | ok a => exact hrest a rfl
  | error e => exact .error e

/-- A line that both blocks share, by what it ensures. -/
theorem bind_ensures {x : Except ε γ} {Q : γ → Prop} (hx : Ensures x Q) {f : γ → Except ε α}
    {g : γ → Except ε β} (hrest : ∀ a, Q a → Lockstep E R (f a) (g a)) :
    Lockstep E R (x >>= f) (x >>= g) := bind_same x fun a ha => hrest a (hx a ha)

/-- A condition that both blocks require. -/
theorem bind_require {c : Prop} [Decidable c] {e : ε} {f : Unit → Except ε α}
    {g : Unit → Except ε β} (hrest : c → Lockstep E R (f ()) (g ())) :
    Lockstep E R (require c e >>= f) (require c e >>= g) :=
  bind_ensures (ensures_require.2 fun hc => hc : Ensures _ fun _ => c) fun _ hc => hrest hc

/-- A line that only the second block has. -/
theorem bind_own {y : Except ε γ} {g : γ → Except ε β} (hown : ∀ e, y = .error e → E e)
    (hrest : ∀ b, y = .ok b → Lockstep E R x (g b)) : Lockstep E R x (y >>= g) := by
  cases y with
  | ok b => exact hrest b rfl
  | error e => exact .own x (hown e rfl)

/-- A test that both blocks make. -/
theorem ite_same (c : Prop) [Decidable c] {x' : Except ε α} {y' : Except ε β}
    (hpos : c → Lockstep E R x y) (hneg : ¬c → Lockstep E R x' y') :
    Lockstep E R (if c then x else x') (if c then y else y') := by
  split
  · next h => exact hpos h
  · next h => exact hneg h

/-- A condition that the second block may miss for a reason of its own. -/
theorem require_of_imp {c d : Prop} [Decidable c] [Decidable d] {e : ε} (hcd : d → c)
    (hown : c → ¬d → E e) : Lockstep E (fun _ _ => c ∧ d) (require c e) (require d e) := by
  unfold require
  by_cases hc : c
  · by_cases hd : d
    · rw [if_pos hc, if_pos hd]
      exact .ok ⟨hc, hd⟩
    · rw [if_neg hd]
      exact .own _ (hown hc hd)
  · rw [if_neg hc, if_neg fun hd => hc (hcd hd)]
    exact .error e

end Lockstep

end Lib
