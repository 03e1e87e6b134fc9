import Mathlib

/-!
# Runs of a labelled transition system

A run is a finite sequence of steps.  Its history keeps every step with the states
before and after it, newest first, so that a quantity accumulated along the run is a
sum over the history and needs no ghost field in the state.

## Main definitions

* `Transition` — one step with its label.
* `Run Step s h t` — the steps `h` lead from `s` to `t`.
* `total f h` — the sum of `f` over a history.
* `Run.invariant`, `Run.induct` — the induction rules.
-/

namespace Lib

variable {σ lab : Type}

/-- One step of a run. -/
structure Transition (σ lab : Type) where
  before : σ
  label : lab
  after : σ

/-- The steps `h`, newest first, lead from `s` to `t`. -/
inductive Run (Step : σ → lab → σ → Prop) (s : σ) : List (Transition σ lab) → σ → Prop
  | start : Run Step s [] s
  | step {h t l u} (run : Run Step s h t) (hstep : Step t l u) :
      Run Step s (⟨t, l, u⟩ :: h) u

/-- The sum of a quantity over a history. -/
def total (f : Transition σ lab → ℕ) (h : List (Transition σ lab)) : ℕ := (h.map f).sum

@[simp] theorem total_nil (f : Transition σ lab → ℕ) : total f [] = 0 := rfl

@[simp] theorem total_cons (f : Transition σ lab → ℕ) (x : Transition σ lab)
    (h : List (Transition σ lab)) : total f (x :: h) = f x + total f h := by
  simp [total]

/-- A sum of nothing. -/
theorem total_eq_zero {f : Transition σ lab → ℕ} {h : List (Transition σ lab)}
    (hf : ∀ x ∈ h, f x = 0) : total f h = 0 := by
  induction h with
  | nil => rfl
  | cons x h ih =>
    obtain ⟨hx, hrest⟩ := List.forall_mem_cons.1 hf
    rw [total_cons, hx, ih hrest]

/-- A sum of sums. -/
theorem total_eq_add {d f g : Transition σ lab → ℕ} {h : List (Transition σ lab)}
    (hd : ∀ x ∈ h, d x = f x + g x) : total d h = total f h + total g h := by
  induction h with
  | nil => rfl
  | cons x h ih =>
    rw [total_cons, total_cons, total_cons, ih fun y hy => hd y (List.mem_cons_of_mem _ hy),
      hd x List.mem_cons_self]
    omega

/-- A sum of multiples of one number. -/
theorem total_mul_of_eq {f g : Transition σ lab → ℕ} {r : ℕ} {h : List (Transition σ lab)}
    (hr : ∀ x ∈ h, g x = r) : total (fun x => f x * g x) h = total f h * r := by
  induction h with
  | nil => simp
  | cons x h ih =>
    rw [total_cons, total_cons, ih fun y hy => hr y (List.mem_cons_of_mem _ hy),
      hr x List.mem_cons_self, Nat.add_mul]

/-- A sum of quotients. -/
theorem total_div (f : Transition σ lab → ℕ) (d : ℚ) (h : List (Transition σ lab)) :
    (h.map fun x => (f x : ℚ) / d).sum = (total f h : ℚ) / d := by
  induction h with
  | nil => simp
  | cons x h ih => rw [List.map_cons, List.sum_cons, ih, total_cons, Nat.cast_add, add_div]

namespace Run

variable {Step : σ → lab → σ → Prop} {s t : σ} {h : List (Transition σ lab)}

/-- **What holds at the start and survives every step holds along every run**, also
when it speaks of the history. -/
theorem induct {P : List (Transition σ lab) → σ → Prop} (hrun : Run Step s h t)
    (hstart : P [] s)
    (hstep : ∀ h t l u, P h t → Step t l u → P (⟨t, l, u⟩ :: h) u) : P h t := by
  induction hrun with
  | start => exact hstart
  | step _ hs ih => exact hstep _ _ _ _ ih hs

/-- An invariant of the state alone. -/
theorem invariant {P : σ → Prop} (hrun : Run Step s h t) (hstart : P s)
    (hstep : ∀ t l u, P t → Step t l u → P u) : P t :=
  hrun.induct (P := fun _ u => P u) hstart fun _ t l u ht hs => hstep t l u ht hs

/-- A run through a step: what comes before it, the step, and what comes after. -/
theorem split {h₁ h₂ : List (Transition σ lab)} {x : Transition σ lab}
    (hrun : Run Step s (h₂ ++ x :: h₁) t) :
    Run Step s h₁ x.before ∧ Step x.before x.label x.after ∧ Run Step x.after h₂ t := by
  induction h₂ generalizing t with
  | nil =>
    cases hrun with
    | step hbefore hstep => exact ⟨hbefore, hstep, .start⟩
  | cons y h₂ ih =>
    cases hrun with
    | step hrun hstep =>
      obtain ⟨hbefore, hmiddle, hafter⟩ := ih hrun
      exact ⟨hbefore, hmiddle, hafter.step hstep⟩

/-- A step of a run, with the run that leads to it. -/
theorem of_mem {x : Transition σ lab} (hrun : Run Step s h t) (hx : x ∈ h) :
    ∃ h₁, Run Step s h₁ x.before ∧ Step x.before x.label x.after := by
  obtain ⟨h₂, h₁, rfl⟩ := List.append_of_mem hx
  exact ⟨h₁, hrun.split.1, hrun.split.2.1⟩

/-- What holds at the start and survives every step of the history holds before every step
and at the end. -/
theorem chain {P : σ → Prop} (hrun : Run Step s h t) (hstart : P s)
    (hsteps : ∀ x ∈ h, P x.before → P x.after) : (∀ x ∈ h, P x.before) ∧ P t := by
  induction hrun with
  | start => exact ⟨fun _ hx => absurd hx List.not_mem_nil, hstart⟩
  | step _ _ ih =>
    obtain ⟨hbefore, hlast⟩ := ih fun x hx => hsteps x (List.mem_cons_of_mem _ hx)
    refine ⟨fun x hx => ?_, hsteps _ List.mem_cons_self hlast⟩
    rcases List.mem_cons.1 hx with rfl | hx
    · exact hlast
    · exact hbefore x hx

/-- What holds at the start and survives every step of the history, of which it may be used that
it is a step, holds at the end. -/
theorem keeps {P : σ → Prop} (hrun : Run Step s h t) (hstart : P s)
    (hsteps : ∀ x ∈ h, Step x.before x.label x.after → P x.before → P x.after) : P t := by
  refine (hrun.chain hstart fun x hx hbefore => ?_).2
  obtain ⟨_, -, hstep⟩ := hrun.of_mem hx
  exact hsteps x hx hstep hbefore

/-- What every step adds to a quantity adds up. -/
theorem sum_steps {f : σ → ℕ} {d : Transition σ lab → ℕ} (hrun : Run Step s h t)
    (hsteps : ∀ x ∈ h, f x.after = f x.before + d x) : f t = f s + total d h := by
  induction hrun with
  | start => rfl
  | step hrun _ ih =>
    have hbefore := ih fun x hx => hsteps x (List.mem_cons_of_mem _ hx)
    have hlast := hsteps _ List.mem_cons_self
    dsimp only at hlast
    rw [hlast, hbefore, total_cons]
    omega

/-- A run of a smaller relation is a run of the larger one. -/
theorem mono {Step' : σ → lab → σ → Prop} (hrun : Run Step s h t)
    (hsub : ∀ t l u, Step t l u → Step' t l u) : Run Step' s h t := by
  induction hrun with
  | start => exact .start
  | step _ hs ih => exact .step ih (hsub _ _ _ hs)

end Run

end Lib
