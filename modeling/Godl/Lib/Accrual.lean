import Godl.Lib.Store

/-!
# Rewards that accrue lazily

A pot is shared in proportion to the units that each position holds.  Instead of
writing to every position, a distribution raises one cumulative factor; a position
remembers the factor it saw last, its mark, and catches up when it is settled.

All amounts here are scaled by `S`, so that what a position is owed is a natural
number: its settled reward times `S`, plus the factor's growth since the mark times
the units.  Settling rounds down and so never adds to it, and a distribution of
`amount` raises the factor by `amount * S / total`, rounded down, which adds at most
`amount * S` to all positions together as long as their units sum to at most `total`.

## Main definitions

* `Position` — units, mark and settled reward.
* `Position.owed S F p` — what `p` is owed when the factor stands at `F`, times `S`.
* `Position.pending S F p` — what settling would add to the reward.
* `Position.settle S F p` — the settled position.
* `Position.Accrued` — a step credits a position with what accrued, or leaves it alone.
* `Store.sum_owed_distribute_le` — a distribution is never overspent.
-/

namespace Lib

/-- A share in a pot. -/
@[ext] structure Position where
  /-- How much the position weighs. -/
  units : ℕ
  /-- The factor it saw last. -/
  mark : ℕ
  /-- The reward settled so far. -/
  reward : ℕ
deriving DecidableEq

namespace Position

variable {S F F' : ℕ} {p : Position}

/-- What the position is owed, in parts of `S`. -/
def owed (S F : ℕ) (p : Position) : ℕ := p.reward * S + (F - p.mark) * p.units

/-- What settling adds to the reward. -/
def pending (S F : ℕ) (p : Position) : ℕ := (F - p.mark) * p.units / S

/-- The position caught up with the factor. -/
def settle (S F : ℕ) (p : Position) : Position :=
  { p with reward := p.reward + p.pending S F, mark := F }

/-- Nothing accrues on a position that is up to date, whatever it weighs. -/
@[simp] theorem owed_of_mark (u r : ℕ) : owed S F ⟨u, F, r⟩ = r * S := by
  simp [owed]

theorem pending_of_le (h : F ≤ p.mark) : p.pending S F = 0 := by
  simp [pending, Nat.sub_eq_zero_of_le h]

/-- What is pending grows with the factor. -/
theorem pending_mono (S : ℕ) (h : F ≤ F') (p : Position) : p.pending S F ≤ p.pending S F' :=
  Nat.div_le_div_right (Nat.mul_le_mul_right p.units (Nat.sub_le_sub_right h p.mark))

@[simp] theorem settle_units : (p.settle S F).units = p.units := rfl

@[simp] theorem settle_mark : (p.settle S F).mark = F := rfl

theorem settle_of_le (h : F ≤ p.mark) : p.settle S F = ⟨p.units, F, p.reward⟩ := by
  rw [settle, pending_of_le h, Nat.add_zero]

/-- **Settling never adds to what is owed**: it rounds down. -/
theorem owed_settle_le (S F : ℕ) (p : Position) : (p.settle S F).owed S F ≤ p.owed S F := by
  have hfloor : p.pending S F * S ≤ (F - p.mark) * p.units := Nat.div_mul_le_self _ _
  have heq : (p.settle S F).owed S F = p.reward * S + p.pending S F * S := by
    simp [settle, owed, Nat.add_mul]
  rw [heq, owed]
  omega

/-- The reward after settling is covered by what is owed. -/
theorem reward_add_pending_le (S F : ℕ) (p : Position) :
    (p.reward + p.pending S F) * S ≤ p.owed S F := by
  have h := owed_settle_le S F p
  simpa [settle] using h

/-- Raising the factor adds at most the raise for every unit. -/
theorem owed_raise_le (S : ℕ) (h : F ≤ F') (p : Position) :
    p.owed S F' ≤ p.owed S F + (F' - F) * p.units := by
  have hsplit : F' - p.mark ≤ (F - p.mark) + (F' - F) := by omega
  have hmul := Nat.mul_le_mul_right p.units hsplit
  rw [Nat.add_mul] at hmul
  simp only [owed]
  omega

/-! ## What a step credits -/

/-- A step credits a position with what accrued up to the factor, or leaves its weight and its
mark alone.  The position was ever credited with `l` before and `l'` after it. -/
inductive Accrued (S F : ℕ) (p : Position) (l : ℕ) (p' : Position) (l' : ℕ) : Prop
  | untouched (units : p'.units = p.units) (mark : p'.mark = p.mark) (credited : l' = l)
  | settled (mark : p'.mark = F) (credited : l' = l + p.pending S F)

section Accrued

variable {p' p'' : Position} {l l' l'' : ℕ}

theorem Accrued.refl (S F : ℕ) (p : Position) (l : ℕ) : Accrued S F p l p l :=
  .untouched rfl rfl rfl

theorem Accrued.trans (h : Accrued S F p l p' l') (h' : Accrued S F p' l' p'' l'') :
    Accrued S F p l p'' l'' := by
  rcases h with ⟨hunits, hmark, hcredited⟩ | ⟨hmark, hcredited⟩
  · -- What accrues is the same as before.
    have hpending : p'.pending S F = p.pending S F := by
      rw [pending, pending, hunits, hmark]
    rcases h' with ⟨hunits', hmark', hcredited'⟩ | ⟨hmark', hcredited'⟩
    · exact .untouched (hunits'.trans hunits) (hmark'.trans hmark) (hcredited'.trans hcredited)
    · exact .settled hmark' (by rw [hcredited', hcredited, hpending])
  · -- Nothing accrues on a position that is settled.
    have hpending : p'.pending S F = 0 := pending_of_le hmark.ge
    rcases h' with ⟨-, hmark', hcredited'⟩ | ⟨hmark', hcredited'⟩
    · exact .settled (hmark'.trans hmark) (hcredited'.trans hcredited)
    · exact .settled hmark' (by rw [hcredited', hpending, Nat.add_zero, hcredited])

/-- Nothing is taken back. -/
theorem Accrued.credited_le (h : Accrued S F p l p' l') : l ≤ l' := by
  rcases h with ⟨-, -, hcredited⟩ | ⟨-, hcredited⟩
  · exact hcredited.ge
  · rw [hcredited]
    exact Nat.le_add_right _ _

/-- What a position was credited with and what is pending stay the same together. -/
theorem Accrued.credited_add_pending (h : Accrued S F p l p' l') :
    l' + p'.pending S F = l + p.pending S F := by
  rcases h with ⟨hunits, hmark, hcredited⟩ | ⟨hmark, hcredited⟩
  · rw [hcredited, pending, pending, hunits, hmark]
  · rw [hcredited, pending_of_le hmark.ge, Nat.add_zero]

/-- A position that has seen the factor was credited with what accrued. -/
theorem Accrued.credited_of_mark (h : Accrued S F p l p' l') (hmark : p'.mark = F) :
    l' = l + p.pending S F := by
  rcases h with ⟨-, hsame, hcredited⟩ | ⟨-, hcredited⟩
  · rw [hcredited, pending_of_le (hmark.symm.trans hsame).le, Nat.add_zero]
  · exact hcredited

end Accrued

end Position

/-! ## Many positions -/

namespace Store

variable {κ α : Type} {key : α → κ} {t : Store κ α key} {pos : α → Position}
  {S F F' total amount : ℕ}

/-- The rewards after settling are covered by what all positions are owed. -/
theorem sum_reward_add_pending_le (S F : ℕ) (pos : α → Position) (t : Store κ α key) :
    t.sum (fun a => (pos a).reward + (pos a).pending S F) * S ≤
      t.sum (fun a => (pos a).owed S F) := by
  rw [Nat.mul_comm, ← sum_mul_left]
  exact sum_le_sum fun _ a _ =>
    (Nat.mul_comm _ _).trans_le (Position.reward_add_pending_le S F (pos a))

/-- Raising the factor adds at most the raise for every unit of the total. -/
theorem sum_owed_raise_le (t : Store κ α key) (pos : α → Position) (h : F ≤ F')
    (hunits : t.sum (fun a => (pos a).units) ≤ total) :
    t.sum (fun a => (pos a).owed S F') ≤ t.sum (fun a => (pos a).owed S F) + (F' - F) * total := by
  calc t.sum (fun a => (pos a).owed S F')
      ≤ t.sum (fun a => (pos a).owed S F + (F' - F) * (pos a).units) :=
        sum_le_sum fun _ a _ => (pos a).owed_raise_le S h
    _ = t.sum (fun a => (pos a).owed S F) + (F' - F) * t.sum (fun a => (pos a).units) := by
        rw [sum_add, sum_mul_left]
    _ ≤ t.sum (fun a => (pos a).owed S F) + (F' - F) * total :=
        Nat.add_le_add_left (Nat.mul_le_mul_left _ hunits) _

/-- **A distribution is never overspent**, whatever the total that it is divided by, as
long as the units sum to at most that. -/
theorem sum_owed_distribute_le (t : Store κ α key) (pos : α → Position) (S F amount : ℕ)
    (hunits : t.sum (fun a => (pos a).units) ≤ total) :
    t.sum (fun a => (pos a).owed S (F + amount * S / total)) ≤
      t.sum (fun a => (pos a).owed S F) + amount * S := by
  have hraise := sum_owed_raise_le t pos (S := S) (Nat.le_add_right F (amount * S / total)) hunits
  have hfloor : amount * S / total * total ≤ amount * S := Nat.div_mul_le_self _ _
  rw [Nat.add_sub_cancel_left] at hraise
  omega

end Store

end Lib
