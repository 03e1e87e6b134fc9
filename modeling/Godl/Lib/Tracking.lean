import Godl.Lib.Accrual
import Godl.Lib.Run

/-!
# Lazy rewards beside exact shares

A position that is settled lazily, with a truncated factor, is compared with the exact share
that it has in every distribution.  Settling loses less than one, and a distribution loses
what its raise of the factor falls short of.

## Main definitions

* `Position.Tracks` — a position keeps up with its exact shares, up to some dust.
* `Position.raise_le`, `Position.le_raise_add` — a truncated factor beside the exact one.
* `Run.tracks` — a position keeps up along a run whose steps each credit what accrued.
-/

namespace Lib

namespace Position

variable {S F : ℕ} {p : Position}

/-- What the position was credited with and what accrued since is at most the sum `eager` of
its exact shares, and falls short of it by `dust` at most. -/
structure Tracks (S F : ℕ) (p : Position) (credited dust eager : ℚ) : Prop where
  mark_le : p.mark ≤ F
  le : credited + ((F - p.mark) * p.units : ℕ) / S ≤ eager
  dust_le : eager ≤ credited + ((F - p.mark) * p.units : ℕ) / S + dust

section Tracks

variable {credited dust eager : ℚ} {q : Position}

/-- What settling adds is what accrued, rounded down. -/
theorem pending_le (S F : ℕ) (p : Position) :
    (p.pending S F : ℚ) ≤ ((F - p.mark) * p.units : ℕ) / S := Nat.cast_div_le

theorem lt_pending_add_one (hS : 0 < S) (F : ℕ) (p : Position) :
    (((F - p.mark) * p.units : ℕ) : ℚ) / S < p.pending S F + 1 := by
  have hS' : (0 : ℚ) < S := by exact_mod_cast hS
  rw [div_lt_iff₀ hS']
  have h : (F - p.mark) * p.units < (p.pending S F + 1) * S := by
    rw [pending, Nat.mul_comm _ S]
    exact Nat.lt_mul_div_succ _ hS
  exact_mod_cast h

/-- A position that is up to date tracks what it was credited with. -/
theorem Tracks.start (hmark : p.mark = F) : Tracks S F p 0 0 0 := by
  refine ⟨hmark.le, ?_, ?_⟩ <;> simp [hmark]

/-- The reward is not looked at. -/
theorem Tracks.untouched (h : Tracks S F p credited dust eager) (hunits : q.units = p.units)
    (hmark : q.mark = p.mark) : Tracks S F q credited dust eager := by
  obtain ⟨hle, h₁, h₂⟩ := h
  rw [← hunits, ← hmark] at h₁ h₂
  exact ⟨hmark.le.trans hle, h₁, h₂⟩

/-- Settling again changes nothing, whatever the position weighs then. -/
theorem Tracks.resettled (h : Tracks S F p credited dust eager) (hp : p.mark = F)
    (hq : q.mark = F) : Tracks S F q credited dust eager := by
  obtain ⟨hle, h₁, h₂⟩ := h
  rw [hp, Nat.sub_self, Nat.zero_mul] at h₁ h₂
  refine ⟨hq.le, ?_, ?_⟩
  · rwa [hq, Nat.sub_self, Nat.zero_mul]
  · rwa [hq, Nat.sub_self, Nat.zero_mul]

/-- **Settling loses less than one**, and the position may weigh anything from then on. -/
theorem Tracks.settled (hS : 0 < S) (h : Tracks S F p credited dust eager) (hq : q.mark = F) :
    Tracks S F q (credited + p.pending S F) (dust + 1) eager := by
  have hpending := pending_le S F p
  have hlost := lt_pending_add_one hS F p
  have hle := h.le
  have hdust := h.dust_le
  refine ⟨hq.le, ?_, ?_⟩
  · rw [hq, Nat.sub_self, Nat.zero_mul, Nat.cast_zero, zero_div]
    linarith
  · rw [hq, Nat.sub_self, Nat.zero_mul, Nat.cast_zero, zero_div]
    linarith

/-- **A distribution loses what its raise of the factor falls short of its share.** -/
theorem Tracks.raised {raise : ℕ} {share loss : ℚ} (h : Tracks S F p credited dust eager)
    (hle : ((raise * p.units : ℕ) : ℚ) / S ≤ share)
    (hloss : share ≤ ((raise * p.units : ℕ) : ℚ) / S + loss) :
    Tracks S (F + raise) p credited (dust + loss) (eager + share) := by
  have hsplit : (((F + raise - p.mark) * p.units : ℕ) : ℚ) / S =
      ((F - p.mark) * p.units : ℕ) / S + ((raise * p.units : ℕ) : ℚ) / S := by
    rw [Nat.sub_add_comm h.mark_le, Nat.add_mul, Nat.cast_add, add_div]
  have h₁ := h.le
  have h₂ := h.dust_le
  refine ⟨h.mark_le.trans (Nat.le_add_right _ _), ?_, ?_⟩
  · rw [hsplit]
    linarith
  · rw [hsplit]
    linarith

/-- **Whatever a step credits keeps up with the shares**; only a position that moves its mark
loses something. -/
theorem Tracks.accrued {l l' : ℕ} (hS : 0 < S) (h : Tracks S F p credited dust eager)
    (haccrued : Accrued S F p l q l') :
    Tracks S F q (credited + (l' - l)) (dust + if q.mark = p.mark then 0 else 1) eager := by
  rcases haccrued with ⟨hunits, hmark, hcredited⟩ | ⟨hmark, hcredited⟩
  · rw [hcredited, if_pos hmark, sub_self, add_zero, add_zero]
    exact h.untouched hunits hmark
  · by_cases hsame : q.mark = p.mark
    · -- The position was up to date already.
      have hp : p.mark = F := hsame.symm.trans hmark
      rw [hcredited, pending_of_le hp.ge, if_pos hsame, Nat.add_zero, sub_self, add_zero, add_zero]
      exact h.resettled hp hmark
    · rw [hcredited, if_neg hsame, Nat.cast_add, add_sub_cancel_left]
      exact h.settled hS hmark

/-- **The shortfall of a position that is settled now.** -/
theorem Tracks.shortfall (hS : 0 < S) (h : Tracks S F p credited dust eager) :
    0 ≤ eager - (credited + p.pending S F) ∧
      eager - (credited + p.pending S F) < dust + 1 := by
  have hpending := pending_le S F p
  have hlost := lt_pending_add_one hS F p
  have h₁ := h.le
  have h₂ := h.dust_le
  exact ⟨by linarith, by linarith⟩

/-- A truncated quotient, times a weight, is below the exact one by less than the weight. -/
theorem raise_le (S amount total units : ℕ) :
    ((amount * S / total * units : ℕ) : ℚ) / S ≤ amount * units / total := by
  rcases Nat.eq_zero_or_pos S with rfl | hS
  · simp only [Nat.mul_zero, Nat.zero_div, Nat.zero_mul, Nat.cast_zero, div_zero]
    positivity
  have hS' : (0 : ℚ) < S := by exact_mod_cast hS
  have hfloor : ((amount * S / total : ℕ) : ℚ) ≤ amount * S / total := by
    exact_mod_cast Nat.cast_div_le (α := ℚ) (m := amount * S) (n := total)
  rw [div_le_iff₀ hS', Nat.cast_mul]
  calc ((amount * S / total : ℕ) : ℚ) * units
      ≤ amount * S / total * units := by gcongr
    _ = amount * units / total * S := by ring

theorem le_raise_add (hS : 0 < S) {total : ℕ} (htotal : 0 < total) (amount units : ℕ) :
    (amount * units / total : ℚ) ≤
      ((amount * S / total * units : ℕ) : ℚ) / S + units / S := by
  have hS' : (0 : ℚ) < S := by exact_mod_cast hS
  have htotal' : (0 : ℚ) < total := by exact_mod_cast htotal
  have hfloor : (amount * S / total : ℚ) ≤ (amount * S / total : ℕ) + 1 := by
    rw [div_le_iff₀ htotal']
    have h : amount * S ≤ (amount * S / total + 1) * total := by
      rw [Nat.mul_comm _ total]
      exact (Nat.lt_mul_div_succ _ htotal).le
    exact_mod_cast h
  have hscaled : (amount * S / total * units : ℚ) ≤
      ((amount * S / total : ℕ) + 1) * units := by gcongr
  rw [← add_div, le_div_iff₀ hS', Nat.cast_mul]
  calc (amount * units / total : ℚ) * S = amount * S / total * units := by ring
    _ ≤ ((amount * S / total : ℕ) + 1) * units := hscaled
    _ = ((amount * S / total : ℕ) : ℚ) * units + units := by ring

/-- Two truncated quotients: the raise of a factor that is scaled up by `c`, and a weight that
is scaled down by it, both with the scale `W`. -/
theorem scaled_raise_le {W c : ℕ} (hW : 0 < W) (hc : 0 < c) (amount total r : ℕ) :
    ((amount * c * W / total * (r * W / c) : ℕ) : ℚ) / (W * W : ℕ) ≤ amount * r / total := by
  have hW' : (0 : ℚ) < W := by exact_mod_cast hW
  have hc' : (0 : ℚ) < c := by exact_mod_cast hc
  have hraise : ((amount * c * W / total : ℕ) : ℚ) ≤ amount * c * W / total := by
    exact_mod_cast Nat.cast_div_le (α := ℚ) (m := amount * c * W) (n := total)
  have hweight : ((r * W / c : ℕ) : ℚ) ≤ r * W / c := by
    exact_mod_cast Nat.cast_div_le (α := ℚ) (m := r * W) (n := c)
  rw [Nat.cast_mul, Nat.cast_mul, div_le_iff₀ (by positivity)]
  calc ((amount * c * W / total : ℕ) : ℚ) * (r * W / c : ℕ)
      ≤ amount * c * W / total * (r * W / c) := by gcongr
    _ = amount * r / total * (W * W) := by
      field_simp

theorem le_scaled_raise_add {W c : ℕ} (hW : 0 < W) (hc : 0 < c) {total : ℕ} (htotal : 0 < total)
    (amount r : ℕ) :
    (amount * r / total : ℚ) ≤
      ((amount * c * W / total * (r * W / c) : ℕ) : ℚ) / (W * W : ℕ) +
        ((amount * c * W / total : ℕ) / (W * W : ℕ) + r / (c * W)) := by
  have hW' : (0 : ℚ) < W := by exact_mod_cast hW
  have hc' : (0 : ℚ) < c := by exact_mod_cast hc
  have htotal' : (0 : ℚ) < total := by exact_mod_cast htotal
  have hraise : (amount * c * W / total : ℚ) ≤ (amount * c * W / total : ℕ) + 1 := by
    rw [div_le_iff₀ htotal']
    have h : amount * c * W ≤ (amount * c * W / total + 1) * total := by
      rw [Nat.mul_comm _ total]
      exact (Nat.lt_mul_div_succ _ htotal).le
    exact_mod_cast h
  have hweight : (r * W / c : ℚ) ≤ (r * W / c : ℕ) + 1 := by
    rw [div_le_iff₀ hc']
    have h : r * W ≤ (r * W / c + 1) * c := by
      rw [Nat.mul_comm _ c]
      exact (Nat.lt_mul_div_succ _ hc).le
    exact_mod_cast h
  -- The raise loses less than one, and then the weight does.
  have hfirst : (amount * r / total : ℚ) ≤
      ((amount * c * W / total : ℕ) + 1) * (r / (c * W)) := by
    calc (amount * r / total : ℚ) = amount * c * W / total * (r / (c * W)) := by field_simp
      _ ≤ _ := by gcongr
  have hsecond : ((amount * c * W / total : ℕ) : ℚ) * (r / (c * W)) ≤
      (amount * c * W / total : ℕ) * ((r * W / c : ℕ) + 1) / (W * W) := by
    calc ((amount * c * W / total : ℕ) : ℚ) * (r / (c * W))
        = (amount * c * W / total : ℕ) * (r * W / c) / (W * W) := by field_simp
      _ ≤ _ := by gcongr
  rw [Nat.cast_mul, Nat.cast_mul]
  calc (amount * r / total : ℚ) ≤ ((amount * c * W / total : ℕ) + 1) * (r / (c * W)) := hfirst
    _ = ((amount * c * W / total : ℕ) : ℚ) * (r / (c * W)) + r / (c * W) := by ring
    _ ≤ (amount * c * W / total : ℕ) * ((r * W / c : ℕ) + 1) / (W * W) + r / (c * W) := by
      gcongr
    _ = _ := by ring

end Tracks

end Position

/-! ## Along a run -/

namespace Run

variable {σ lab : Type} {Step : σ → lab → σ → Prop} {s t : σ} {h : List (Transition σ lab)}

/-- What a step does to a position, to what it was ever credited with and to the factor: it is
credited with what accrued, and then the factor is raised for the exact share `share`, which
loses `loss` at most. -/
def Tracked (S : ℕ) (pos : σ → Position) (credited factor : σ → ℕ)
    (share loss : Transition σ lab → ℚ) (x : Transition σ lab) : Prop :=
  Position.Accrued S (factor x.before) (pos x.before) (credited x.before) (pos x.after)
    (credited x.after) ∧
  ∃ raise : ℕ, factor x.after = factor x.before + raise ∧
    ((raise * (pos x.after).units : ℕ) : ℚ) / S ≤ share x ∧
    share x ≤ ((raise * (pos x.after).units : ℕ) : ℚ) / S + loss x

/-- One when a step moved the mark of a position. -/
def settled (pos : σ → Position) (x : Transition σ lab) : ℕ :=
  if (pos x.after).mark = (pos x.before).mark then 0 else 1

/-- **A position keeps up with its exact shares along a run.** -/
theorem tracks {S : ℕ} (hS : 0 < S) {pos : σ → Position} {credited factor : σ → ℕ}
    {share loss : Transition σ lab → ℚ} (hrun : Run Step s h t)
    (hmark : (pos s).mark = factor s)
    (hsteps : ∀ x ∈ h, Tracked S pos credited factor share loss x) :
    credited s ≤ credited t ∧
      (pos t).Tracks S (factor t) (credited t - credited s)
        (total (settled pos) h + (h.map loss).sum) (h.map share).sum := by
  induction hrun with
  | start =>
    refine ⟨le_refl _, ?_⟩
    rw [sub_self, total_nil, List.map_nil, List.map_nil, List.sum_nil, Nat.cast_zero, add_zero]
    exact .start hmark
  | @step h t l u hrun hstep ih =>
    obtain ⟨hle, htracks⟩ := ih fun x hx => hsteps x (List.mem_cons_of_mem _ hx)
    obtain ⟨haccrued, raise, hraise, hshare, hloss⟩ := hsteps _ List.mem_cons_self
    have hnext := (htracks.accrued hS haccrued).raised hshare hloss
    rw [← hraise] at hnext
    have hsettled : (settled pos ⟨t, l, u⟩ : ℚ) =
        if (pos u).mark = (pos t).mark then 0 else 1 := by
      by_cases hsame : (pos u).mark = (pos t).mark <;> simp [settled, hsame]
    refine ⟨hle.trans haccrued.credited_le, ?_⟩
    rw [total_cons, List.map_cons, List.map_cons, List.sum_cons, List.sum_cons, Nat.cast_add,
      hsettled]
    convert hnext using 1 <;> ring

end Run

end Lib
