import Godl.Lib.Outcome

/-!
# Binary fixed-point numbers that truncate

A nonnegative number with `f` fractional bits, stored as its bit pattern in a
signed 128-bit word.  Quotients and products drop the bits that do not fit below
the point, so every result is at most the exact one; a result that does not fit
above the point aborts.

## Main definitions

* `Fixed f` — the bit pattern.
* `Fixed.ofNat`, `Fixed.ofFraction`, `Fixed.floor` — conversions.
* `Fixed.add`, `Fixed.sub`, `Fixed.mul` — the operations.
-/

namespace Lib

/-- A nonnegative fixed-point number with `f` fractional bits. -/
structure Fixed (f : ℕ) where
  bits : ℕ
deriving DecidableEq, Repr

namespace Fixed

variable {ε : Type} {f : ℕ}

/-- The bit patterns of nonnegative values of a signed 128-bit word. -/
abbrev bound : ℕ := 2 ^ 127

instance : LT (Fixed f) := ⟨fun x y => x.bits < y.bits⟩

instance (x y : Fixed f) : Decidable (x < y) := inferInstanceAs (Decidable (x.bits < y.bits))

/-- The number zero. -/
def zero : Fixed f := ⟨0⟩

/-- An integer, exactly. -/
def ofNat (n : ℕ) : Fixed f := ⟨n * 2 ^ f⟩

/-- `n / d`, truncated; dividing by zero aborts. -/
def ofFraction (e : ε) (n d : ℕ) : Except ε (Fixed f) :=
  if d = 0 then .error e else .ok ⟨n * 2 ^ f / d⟩

/-- The sum, or an abort when it does not fit. -/
def add (e : ε) (x y : Fixed f) : Except ε (Fixed f) :=
  if x.bits + y.bits < bound then .ok ⟨x.bits + y.bits⟩ else .error e

/-- The difference.  The callers subtract the smaller number from the larger. -/
def sub (x y : Fixed f) : Fixed f := ⟨x.bits - y.bits⟩

/-- The product, truncated, or an abort when it does not fit. -/
def mul (e : ε) (x y : Fixed f) : Except ε (Fixed f) :=
  if x.bits * y.bits / 2 ^ f < bound then .ok ⟨x.bits * y.bits / 2 ^ f⟩ else .error e

/-- The integer part, or an abort when it is no unsigned 64-bit value. -/
def floor (e : ε) (x : Fixed f) : Except ε ℕ :=
  if x.bits / 2 ^ f < u64Bound then .ok (x.bits / 2 ^ f) else .error e

/-! ## What the operations ensure -/

@[simp] theorem bits_ofNat (n : ℕ) : (ofNat n : Fixed f).bits = n * 2 ^ f := rfl

@[simp] theorem bits_sub (x y : Fixed f) : (sub x y).bits = x.bits - y.bits := rfl

@[simp] theorem ensures_ofFraction {e : ε} {n d : ℕ} {Q : Fixed f → Prop} :
    Ensures (ofFraction e n d) Q ↔ (d ≠ 0 → Q ⟨n * 2 ^ f / d⟩) := by
  by_cases h : d = 0 <;> simp [ofFraction, h]

@[simp] theorem ensures_add {e : ε} {x y : Fixed f} {Q : Fixed f → Prop} :
    Ensures (add e x y) Q ↔ (x.bits + y.bits < bound → Q ⟨x.bits + y.bits⟩) := by
  by_cases h : x.bits + y.bits < bound <;> simp [add, h]

@[simp] theorem ensures_mul {e : ε} {x y : Fixed f} {Q : Fixed f → Prop} :
    Ensures (mul e x y) Q ↔
      (x.bits * y.bits / 2 ^ f < bound → Q ⟨x.bits * y.bits / 2 ^ f⟩) := by
  by_cases h : x.bits * y.bits / 2 ^ f < bound <;> simp [mul, h]

@[simp] theorem ensures_floor {e : ε} {x : Fixed f} {Q : ℕ → Prop} :
    Ensures (floor e x) Q ↔ (x.bits / 2 ^ f < u64Bound → Q (x.bits / 2 ^ f)) := by
  by_cases h : x.bits / 2 ^ f < u64Bound <;> simp [floor, h]

section Avoids

variable {E : ε → Prop} {e : ε}

@[simp] theorem avoids_ofFraction (n d : ℕ) (he : ¬ E e) :
    Avoids E (ofFraction e n d : Except ε (Fixed f)) := by
  unfold ofFraction
  split <;> simp [he]

@[simp] theorem avoids_add (x y : Fixed f) (he : ¬ E e) : Avoids E (add e x y) := by
  unfold add
  split <;> simp [he]

@[simp] theorem avoids_mul (x y : Fixed f) (he : ¬ E e) : Avoids E (mul e x y) := by
  unfold mul
  split <;> simp [he]

@[simp] theorem avoids_floor (x : Fixed f) (he : ¬ E e) : Avoids E (floor e x) := by
  unfold floor
  split <;> simp [he]

end Avoids

/-- Multiplying by an integer loses nothing. -/
theorem bits_mul_ofNat (x : ℕ) (n : ℕ) : x * (n * 2 ^ f) / 2 ^ f = x * n := by
  rw [← mul_assoc, Nat.mul_div_cancel _ (Nat.two_pow_pos f)]

end Fixed

end Lib
