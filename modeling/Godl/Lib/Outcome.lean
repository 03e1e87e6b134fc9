import Mathlib

/-!
# Fallible computations and checked 64-bit arithmetic

A handler that can abort is a function into `Except ε α`.  What it guarantees is
stated with `Ensures x Q`: *if* `x` returns, its value satisfies `Q`.  The rules
below push `Ensures` through one line of a `do` block at a time, so that no later
proof unfolds a bind.

The unsigned 64-bit operations return the exact natural number when it fits and
the error they are handed when it does not.

## Main definitions

* `Ensures x Q` — every value `x` returns satisfies `Q`.
* `Avoids E x` — `x` never aborts with an error in `E`.
* `require c e` — continue when `c` holds, abort with `e` otherwise.
* `fromOption o e` — the value of `o`, or abort with `e`.
* `addU64`, `subU64`, `mulU64` — the checked operations.
* `sumU64` — a loop that adds up a list with the checked addition.
-/

namespace Lib

variable {ε α β : Type}

/-- Every unsigned 64-bit value is below this bound. -/
abbrev u64Bound : ℕ := 2 ^ 64

/-- The largest unsigned 64-bit value. -/
abbrev u64Max : ℕ := 2 ^ 64 - 1

/-- Every value `x` returns satisfies `Q`; an abort promises nothing. -/
def Ensures (x : Except ε α) (Q : α → Prop) : Prop := ∀ a, x = .ok a → Q a

/-- `x` never aborts with an error in `E`. -/
def Avoids (E : ε → Prop) (x : Except ε α) : Prop := ∀ e, x = .error e → ¬ E e

/-- Continue when `c` holds; abort with `e` otherwise. -/
def require (c : Prop) [Decidable c] (e : ε) : Except ε Unit :=
  if c then .ok () else .error e

/-- The value an option holds; abort with `e` when it holds none. -/
def fromOption (o : Option α) (e : ε) : Except ε α :=
  match o with
  | some a => .ok a
  | none => .error e

/-- Checked addition. -/
def addU64 (e : ε) (a b : ℕ) : Except ε ℕ :=
  if a + b < u64Bound then .ok (a + b) else .error e

/-- Checked subtraction. -/
def subU64 (e : ε) (a b : ℕ) : Except ε ℕ :=
  if b ≤ a then .ok (a - b) else .error e

/-- Checked multiplication. -/
def mulU64 (e : ε) (a b : ℕ) : Except ε ℕ :=
  if a * b < u64Bound then .ok (a * b) else .error e

/-- Addition that stops at the largest value. -/
def saturatingAddU64 (a b : ℕ) : ℕ := min (a + b) u64Max

/-- Add up a list from the left, aborting with `e` at the first overflow. -/
def sumU64 (e : ε) (l : List ℕ) : Except ε ℕ := l.foldlM (addU64 e) 0

/-! ## Computations that return -/

theorem ok_bind (a : α) (f : α → Except ε β) : (Except.ok a >>= f) = f a := rfl

/-- A block returns what its rest returns on what its first line returned. -/
theorem bind_eq_ok {x : Except ε α} {f : α → Except ε β} {b : β} :
    x >>= f = .ok b ↔ ∃ a, x = .ok a ∧ f a = .ok b := by
  cases x <;> simp [Bind.bind, Except.bind]

theorem pure_eq_ok {a b : α} : (pure a : Except ε α) = .ok b ↔ a = b := by
  simp [pure, Except.pure]

theorem require_eq_ok {c : Prop} [Decidable c] {e : ε} {u : Unit} : require c e = .ok u ↔ c := by
  by_cases hc : c <;> simp [require, hc]

theorem fromOption_eq_ok {o : Option α} {e : ε} {a : α} : fromOption o e = .ok a ↔ o = some a := by
  cases o <;> simp [fromOption]

theorem addU64_eq_ok {e : ε} {a b n : ℕ} :
    addU64 e a b = .ok n ↔ a + b < u64Bound ∧ a + b = n := by
  by_cases h : a + b < u64Bound <;> simp [addU64, h]

/-! ## The rules of `Ensures` -/

theorem Ensures.elim {x : Except ε α} {Q : α → Prop} {a : α} (h : Ensures x Q)
    (hx : x = .ok a) : Q a := h a hx

theorem Ensures.mono {x : Except ε α} {P Q : α → Prop} (h : Ensures x P)
    (hPQ : ∀ a, P a → Q a) : Ensures x Q := fun a hx => hPQ a (h a hx)

theorem Ensures.and {x : Except ε α} {P Q : α → Prop} (hP : Ensures x P)
    (hQ : Ensures x Q) : Ensures x fun a => P a ∧ Q a := fun a hx => ⟨hP a hx, hQ a hx⟩

/-- What holds of every value holds of the one that is returned. -/
theorem ensures_of_forall {x : Except ε α} {Q : α → Prop} (h : ∀ a, Q a) : Ensures x Q :=
  fun a _ => h a

/-- A block ensures `Q` when its first line ensures that the rest ensures `Q`. -/
theorem Ensures.bind {x : Except ε α} {f : α → Except ε β} {P : α → Prop} {Q : β → Prop}
    (hx : Ensures x P) (hf : ∀ a, P a → Ensures (f a) Q) : Ensures (x >>= f) Q := by
  intro b hb
  cases x with
  | error e => simp [Bind.bind, Except.bind] at hb
  | ok a => exact hf a (hx a rfl) b hb

@[simp] theorem ensures_ok {a : α} {Q : α → Prop} :
    Ensures (.ok a : Except ε α) Q ↔ Q a := by
  simp [Ensures]

@[simp] theorem ensures_pure {a : α} {Q : α → Prop} :
    Ensures (pure a : Except ε α) Q ↔ Q a := by
  simp [Ensures, pure, Except.pure]

@[simp] theorem ensures_error {e : ε} {Q : α → Prop} :
    Ensures (.error e : Except ε α) Q ↔ True := by
  simp [Ensures]

@[simp] theorem ensures_throw {e : ε} {Q : α → Prop} :
    Ensures (throw e : Except ε α) Q ↔ True := by
  simp [Ensures, throw, throwThe, MonadExceptOf.throw]

@[simp] theorem ensures_bind {x : Except ε α} {f : α → Except ε β} {Q : β → Prop} :
    Ensures (x >>= f) Q ↔ Ensures x fun a => Ensures (f a) Q := by
  cases x <;> simp [Ensures, Bind.bind, Except.bind]

@[simp] theorem ensures_map {x : Except ε α} {f : α → β} {Q : β → Prop} :
    Ensures (f <$> x) Q ↔ Ensures x fun a => Q (f a) := by
  cases x <;> simp [Ensures, Functor.map, Except.map]

@[simp] theorem ensures_ite {c : Prop} [Decidable c] {x y : Except ε α} {Q : α → Prop} :
    Ensures (if c then x else y) Q ↔ (c → Ensures x Q) ∧ (¬ c → Ensures y Q) := by
  by_cases hc : c <;> simp [hc]

@[simp] theorem ensures_require {c : Prop} [Decidable c] {e : ε} {Q : Unit → Prop} :
    Ensures (require c e) Q ↔ (c → Q ()) := by
  by_cases hc : c <;> simp [require, hc]

@[simp] theorem ensures_fromOption {o : Option α} {e : ε} {Q : α → Prop} :
    Ensures (fromOption o e) Q ↔ ∀ a, o = some a → Q a := by
  cases o <;> simp [fromOption]

@[simp] theorem ensures_addU64 {e : ε} {a b : ℕ} {Q : ℕ → Prop} :
    Ensures (addU64 e a b) Q ↔ (a + b < u64Bound → Q (a + b)) := by
  by_cases h : a + b < u64Bound <;> simp [addU64, h]

@[simp] theorem ensures_subU64 {e : ε} {a b : ℕ} {Q : ℕ → Prop} :
    Ensures (subU64 e a b) Q ↔ (b ≤ a → Q (a - b)) := by
  by_cases h : b ≤ a <;> simp [subU64, h]

@[simp] theorem ensures_mulU64 {e : ε} {a b : ℕ} {Q : ℕ → Prop} :
    Ensures (mulU64 e a b) Q ↔ (a * b < u64Bound → Q (a * b)) := by
  by_cases h : a * b < u64Bound <;> simp [mulU64, h]

/-! ## The rules of `Avoids` -/

section Avoids

variable {E : ε → Prop}

theorem Avoids.ne {x : Except ε α} {e : ε} (h : Avoids E x) (he : E e) : x ≠ .error e :=
  fun hx => h e hx he

@[simp] theorem ensures_true (x : Except ε α) : Ensures x fun _ => True := fun _ _ => trivial

@[simp] theorem avoids_ok {a : α} : Avoids E (.ok a : Except ε α) := by
  intro e h
  cases h

@[simp] theorem avoids_pure {a : α} : Avoids E (pure a : Except ε α) :=
  avoids_ok

@[simp] theorem avoids_error {e : ε} : Avoids E (.error e : Except ε α) ↔ ¬ E e := by
  simp [Avoids]

@[simp] theorem avoids_throw {e : ε} : Avoids E (throw e : Except ε α) ↔ ¬ E e := by
  simp [Avoids, throw, throwThe, MonadExceptOf.throw]

@[simp] theorem avoids_bind {x : Except ε α} {f : α → Except ε β} :
    Avoids E (x >>= f) ↔ Avoids E x ∧ Ensures x fun a => Avoids E (f a) := by
  cases x <;> simp [Avoids, Ensures, Bind.bind, Except.bind]

@[simp] theorem avoids_map {x : Except ε α} {f : α → β} :
    Avoids E (f <$> x) ↔ Avoids E x := by
  cases x <;> simp [Avoids, Functor.map, Except.map]

@[simp] theorem avoids_ite {c : Prop} [Decidable c] {x y : Except ε α} :
    Avoids E (if c then x else y) ↔ (c → Avoids E x) ∧ (¬ c → Avoids E y) := by
  by_cases hc : c <;> simp [hc]

@[simp] theorem avoids_require {c : Prop} [Decidable c] {e : ε} :
    Avoids E (require c e) ↔ (¬ c → ¬ E e) := by
  by_cases hc : c <;> simp [require, hc]

@[simp] theorem avoids_fromOption {o : Option α} {e : ε} :
    Avoids E (fromOption o e) ↔ (o = none → ¬ E e) := by
  cases o <;> simp [fromOption]

@[simp] theorem avoids_addU64 {e : ε} {a b : ℕ} (he : ¬ E e) : Avoids E (addU64 e a b) := by
  unfold addU64
  split <;> simp [he]

@[simp] theorem avoids_subU64 {e : ε} {a b : ℕ} (he : ¬ E e) : Avoids E (subU64 e a b) := by
  unfold subU64
  split <;> simp [he]

@[simp] theorem avoids_mulU64 {e : ε} {a b : ℕ} (he : ¬ E e) : Avoids E (mulU64 e a b) := by
  unfold mulU64
  split <;> simp [he]

@[simp] theorem avoids_sumU64 {e : ε} (l : List ℕ) (he : ¬ E e) : Avoids E (sumU64 e l) := by
  have hloop : ∀ a, Avoids E (l.foldlM (addU64 e) a) := by
    induction l with
    | nil => simp
    | cons b l ih => simp [List.foldlM_cons, he, ih, ensures_of_forall]
  exact hloop 0

end Avoids

/-! ## Sums that must fit -/

theorem ensures_foldlM_addU64 (e : ε) (l : List ℕ) (a : ℕ) :
    Ensures (l.foldlM (addU64 e) a) fun n => n = a + l.sum := by
  induction l generalizing a with
  | nil => simp
  | cons b l ih =>
      rw [List.foldlM_cons, ensures_bind, ensures_addU64]
      intro _
      refine (ih (a + b)).mono fun n hn => ?_
      rw [List.sum_cons]
      omega

/-- The loop returns the sum of the list. -/
theorem ensures_sumU64 (e : ε) (l : List ℕ) : Ensures (sumU64 e l) fun n => n = l.sum := by
  have h := ensures_foldlM_addU64 e l 0
  simpa [sumU64] using h

/-! ## Arithmetic that fits -/

section Fits

variable {e : ε} {a b : ℕ}

theorem addU64_of_lt (h : a + b < u64Bound) : addU64 e a b = .ok (a + b) := if_pos h

theorem subU64_of_le (h : b ≤ a) : subU64 e a b = .ok (a - b) := if_pos h

theorem mulU64_of_lt (h : a * b < u64Bound) : mulU64 e a b = .ok (a * b) := if_pos h

theorem foldlM_addU64_of_lt {l : List ℕ} (h : a + l.sum < u64Bound) :
    l.foldlM (addU64 e) a = .ok (a + l.sum) := by
  induction l generalizing a with
  | nil => rfl
  | cons b l ih =>
    rw [List.sum_cons, ← Nat.add_assoc] at h
    rw [List.foldlM_cons, addU64_of_lt (by omega), ok_bind, ih h, List.sum_cons, Nat.add_assoc]

/-- The loop does not abort on a sum that fits. -/
theorem sumU64_of_lt {l : List ℕ} (h : l.sum < u64Bound) : sumU64 e l = .ok l.sum := by
  have hloop := foldlM_addU64_of_lt (e := e) (a := 0) (l := l) (by rwa [Nat.zero_add])
  rwa [Nat.zero_add] at hloop

end Fits

/-- Two blocks with the same first line are the same if they go on the same way after it. -/
theorem Ensures.bind_congr {x : Except ε α} {Q : α → Prop} {f g : α → Except ε β}
    (h : Ensures x Q) (hfg : ∀ a, Q a → f a = g a) : x >>= f = x >>= g := by
  cases x with
  | error => rfl
  | ok a => exact hfg a (h a rfl)

/-- Addition that saturates is exact when the sum fits. -/
theorem saturatingAddU64_of_lt {a b : ℕ} (h : a + b < u64Bound) :
    saturatingAddU64 a b = a + b := by
  simp only [saturatingAddU64, u64Max, u64Bound] at *
  omega

end Lib
