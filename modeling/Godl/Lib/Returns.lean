import Godl.Lib.Outcome

/-!
# Computations that return

`Returns x Q` says that `x` does not abort, and that its value satisfies `Q`.  The rules
are those of `Ensures` with what used to be assumed now to be proved.

The two judgements together relate two computations: `Ensures x fun a => Returns y (R a)`
says that `y` goes through whenever `x` does.

## Main definitions

* `Returns x Q` — `x` returns a value that satisfies `Q`.
* `Ensures.returns_bind` — two blocks that begin with the same line.
-/

namespace Lib

variable {ε α β γ : Type}

/-- `x` returns a value that satisfies `Q`. -/
def Returns (x : Except ε α) (Q : α → Prop) : Prop := ∃ a, x = .ok a ∧ Q a

/-! ## The rules of `Returns` -/

theorem Returns.mono {x : Except ε α} {P Q : α → Prop} (h : Returns x P)
    (hPQ : ∀ a, P a → Q a) : Returns x Q := by
  obtain ⟨a, ha, hP⟩ := h
  exact ⟨a, ha, hPQ a hP⟩

theorem returns_of_eq {x : Except ε α} {a : α} {Q : α → Prop} (hx : x = .ok a) (hQ : Q a) :
    Returns x Q := ⟨a, hx, hQ⟩

@[simp] theorem returns_ok {a : α} {Q : α → Prop} :
    Returns (.ok a : Except ε α) Q ↔ Q a := by
  simp [Returns]

@[simp] theorem returns_pure {a : α} {Q : α → Prop} :
    Returns (pure a : Except ε α) Q ↔ Q a := by
  simp [Returns, pure, Except.pure]

@[simp] theorem returns_bind {x : Except ε α} {f : α → Except ε β} {Q : β → Prop} :
    Returns (x >>= f) Q ↔ Returns x fun a => Returns (f a) Q := by
  cases x <;> simp [Returns, Bind.bind, Except.bind]

@[simp] theorem returns_ite {c : Prop} [Decidable c] {x y : Except ε α} {Q : α → Prop} :
    Returns (if c then x else y) Q ↔ (c → Returns x Q) ∧ (¬ c → Returns y Q) := by
  by_cases hc : c <;> simp [hc]

@[simp] theorem returns_require {c : Prop} [Decidable c] {e : ε} {Q : Unit → Prop} :
    Returns (require c e) Q ↔ c ∧ Q () := by
  by_cases hc : c <;> simp [Returns, require, hc, Unique.exists_iff]

@[simp] theorem returns_fromOption {o : Option α} {e : ε} {Q : α → Prop} :
    Returns (fromOption o e) Q ↔ ∃ a, o = some a ∧ Q a := by
  cases o <;> simp [Returns, fromOption]

@[simp] theorem returns_addU64 {e : ε} {a b : ℕ} {Q : ℕ → Prop} :
    Returns (addU64 e a b) Q ↔ a + b < u64Bound ∧ Q (a + b) := by
  by_cases h : a + b < u64Bound <;> simp [Returns, addU64, h]

@[simp] theorem returns_subU64 {e : ε} {a b : ℕ} {Q : ℕ → Prop} :
    Returns (subU64 e a b) Q ↔ b ≤ a ∧ Q (a - b) := by
  by_cases h : b ≤ a <;> simp [Returns, subU64, h]

@[simp] theorem returns_mulU64 {e : ε} {a b : ℕ} {Q : ℕ → Prop} :
    Returns (mulU64 e a b) Q ↔ a * b < u64Bound ∧ Q (a * b) := by
  by_cases h : a * b < u64Bound <;> simp [Returns, mulU64, h]

/-! ## Two computations -/

/-- What `x` returns satisfies what every value of it satisfies. -/
theorem Returns.and_ensures {x : Except ε α} {P Q : α → Prop} (h : Returns x P)
    (hQ : Ensures x Q) : Returns x fun a => P a ∧ Q a := by
  obtain ⟨a, ha, hP⟩ := h
  exact ⟨a, ha, hP, hQ a ha⟩

/-- Two blocks that begin with the same line. -/
theorem Ensures.returns_bind {x : Except ε α} {f : α → Except ε β} {g : α → Except ε γ}
    {R : β → γ → Prop} (h : ∀ a, x = .ok a → Ensures (f a) fun b => Returns (g a) (R b)) :
    Ensures (x >>= f) fun b => Returns (x >>= g) (R b) := by
  cases x with
  | error e => simp [Ensures, Bind.bind, Except.bind]
  | ok a => simpa [Bind.bind, Except.bind] using h a rfl

end Lib
