import Godl.Lib.Tracking
import Godl.Theorems.Gold

/-!
# Lazy gold and exact shares

A miner's gold is settled only when its unrefined GODL changes or it claims, by the product of
two truncated fixed-point numbers.  After the handlers of the old layout are shut off, a miner
never gets more than its exact share of every distribution, and little less.

## Main definitions

* `eagerGold authority` — the exact share of a miner in what a step distributed.
* `goldSettlements authority`, `unrefinedShared authority` — what the dust is made of.
* `gold_tracks_eager` — the gold and the exact shares differ by less than the dust.
-/

namespace Godl

open Lib

/-- The position of the extended account of `authority`, one that weighs nothing without it. -/
def State.goldAt (s : State) (authority : Pubkey) : Position :=
  s.minersExtended.view ⟨0, 0, 0⟩ (fun e => e.position (s.unrefined authority))
    (.minerExtendedPda authority)

/-- What an extended account was ever credited with. -/
def State.goldLifetime (s : State) (authority : Pubkey) : ℕ :=
  s.minersExtended.view 0 (fun e => e.lifetimeXaut) (.minerExtendedPda authority)

/-- What a step distributed, with what was pending before. -/
def xautDistributed (x : Transition State Label) : ℕ :=
  x.after.goldVault.totalXautDistributed - x.before.goldVault.totalXautDistributed

/-- Whether a step distributed something. -/
def distributions (x : Transition State Label) : ℕ := if xautDistributed x = 0 then 0 else 1

/-- The exact share of the miner of `authority` in what a step distributed. -/
def eagerGold (authority : Pubkey) (x : Transition State Label) : ℚ :=
  xautDistributed x * x.before.unrefined authority / x.before.treasury.totalUnclaimed

/-- The unrefined GODL of the miner of `authority` in a step that distributed something. -/
def unrefinedShared (authority : Pubkey) (x : Transition State Label) : ℕ :=
  distributions x * x.before.unrefined authority

/-- By how much a step raised the vault's factor. -/
def factorRaise (x : Transition State Label) : ℕ :=
  x.after.goldVault.xautRewardsFactor.bits - x.before.goldVault.xautRewardsFactor.bits

/-- The steps that settled the extended account at a factor that it had not seen. -/
def goldSettlements (authority : Pubkey) (h : History) : ℕ :=
  total (Run.settled fun s => s.goldAt authority) h

/-- What a step may lose: a part of the raise, since the weight is truncated, and of the weight,
since the raise is. -/
def goldLoss (authority : Pubkey) (x : Transition State Label) : ℚ :=
  factorRaise x / 2 ^ 96 + unrefinedShared authority x / (10 ^ 6 * 2 ^ 48)

section Steps

variable {env : Env} {allowed : GodlInstruction → Prop} {s s' : State} {l : Label}
  {authority : Pubkey} {e : MinerExtended}

theorem goldLoss_nonneg (authority : Pubkey) (x : Transition State Label) :
    0 ≤ goldLoss authority x := by
  unfold goldLoss
  positivity

/-- **A step credits an extended account with what accrued, or it is a distribution**, which
loses a part of the raise and of the weight. -/
theorem GoldChange.tracked {x : Transition State Label} (h : GoldChange x)
    (hlate : ∀ time, x.label.time = some time → legacyInstructionExpiryTs ≤ time)
    (hget : x.before.minersExtended.get (.minerExtendedPda authority) = some e) :
    (x.after.minersExtended.get (.minerExtendedPda authority)).isSome = true ∧
    x.after.goldVault.xautRewardsFactor.bits =
      x.before.goldVault.xautRewardsFactor.bits + factorRaise x ∧
    Run.Tracked goldScale (fun s => s.goldAt authority) (fun s => s.goldLifetime authority)
      (fun s => s.goldVault.xautRewardsFactor.bits) (eagerGold authority) (goldLoss authority)
      x := by
  have hpos : x.before.goldAt authority = e.position (x.before.unrefined authority) :=
    Store.view_of_get hget
  have hlifetime : x.before.goldLifetime authority = e.lifetimeXaut := Store.view_of_get hget
  cases h with
  | settled h _ _ =>
    obtain ⟨e', he', haccrued⟩ := h.accrues authority e hget
    have hpos' : x.after.goldAt authority = e'.position (x.after.unrefined authority) :=
      Store.view_of_get he'
    have hlifetime' : x.after.goldLifetime authority = e'.lifetimeXaut := Store.view_of_get he'
    have hzero : xautDistributed x = 0 := by rw [xautDistributed, h.distributed, Nat.sub_self]
    have hraise : factorRaise x = 0 := by rw [factorRaise, h.factor, Nat.sub_self]
    refine ⟨by rw [he', Option.isSome_some], by rw [hraise, h.factor, Nat.add_zero], ?_⟩
    simp only [Run.Tracked, hpos, hpos', hlifetime, hlifetime']
    refine ⟨haccrued, 0, by rw [h.factor, Nat.add_zero], ?_, ?_⟩ <;>
      simp [eagerGold, goldLoss, unrefinedShared, distributions, hzero, hraise]
  | legacy htime hearly _ _ _ => exact absurd (hlate _ htime) (not_le.2 hearly)
  | @distributed xaut _ _ _ h _ =>
    have hget' : x.after.minersExtended.get (.minerExtendedPda authority) = some e := by
      rw [h.minersExtended, hget]
    have hunrefined : x.after.unrefined authority = x.before.unrefined authority := by
      rw [unrefined_congr h.ledger.ledgers]
    have hpos' : x.after.goldAt authority = e.position (x.after.unrefined authority) :=
      Store.view_of_get hget'
    have hlifetime' : x.after.goldLifetime authority = e.lifetimeXaut := Store.view_of_get hget'
    have hfactor := h.vault.factor
    have hraise : factorRaise x = xautDistributed x * goldFactorScale * 2 ^ 48 /
        x.before.treasury.totalUnclaimed := by
      rw [factorRaise, hfactor, Nat.add_sub_cancel_left, xautDistributed]
    refine ⟨by rw [hget', Option.isSome_some], by rw [hraise, hfactor, xautDistributed], ?_⟩
    simp only [Run.Tracked, hpos, hpos', hlifetime, hlifetime', hunrefined]
    have hscale : (goldScale : ℕ) = 2 ^ 48 * 2 ^ 48 := by rw [goldScale_eq]; norm_num
    refine ⟨.refl _ _ _ _, factorRaise x, by rw [hraise, hfactor, xautDistributed], ?_, ?_⟩
    · rw [hraise, hscale]
      exact Position.scaled_raise_le (by norm_num) (by decide) _ _ _
    · have hcredited : (0 : ℚ) ≤ ((factorRaise x *
          (e.position (x.before.unrefined authority)).units : ℕ) : ℚ) / goldScale :=
        div_nonneg (Nat.cast_nonneg _) (Nat.cast_nonneg _)
      by_cases hzero : xautDistributed x = 0
      · rw [eagerGold, hzero, Nat.cast_zero, zero_mul, zero_div]
        exact add_nonneg hcredited (goldLoss_nonneg authority x)
      rcases Nat.eq_zero_or_pos x.before.treasury.totalUnclaimed with hnone | hsome
      · rw [eagerGold, hnone, Nat.cast_zero, div_zero]
        exact add_nonneg hcredited (goldLoss_nonneg authority x)
      have hle := Position.le_scaled_raise_add (W := 2 ^ 48) (c := goldFactorScale) (by norm_num)
        (by decide) hsome (xautDistributed x) (x.before.unrefined authority)
      rw [← hraise] at hle
      rw [eagerGold, goldLoss, unrefinedShared, distributions, if_neg hzero, Nat.one_mul, hscale]
      refine hle.trans_eq ?_
      simp only [MinerExtended.position, goldWeight, goldFactorScale]
      norm_num

end Steps

section Runs

variable {env : Env} {s t : State} {h : History} {authority : Pubkey} {e : MinerExtended}

/-- **The gold of a miner keeps up with its exact shares.**  Over any run that starts when its
extended account is settled, after the handlers of the old layout are shut off, what it was
credited with and what settling it would add now is at most the sum of its exact shares.  It
falls short by less than one for each settlement, one more, `2⁻⁴⁸` of the raise of the factor
and `10⁻⁶ * 2⁻⁴⁸` of its unrefined GODL in each distribution. -/
theorem gold_tracks_eager (hsetup : s.opened .treasury = true)
    (hvault : s.opened .goldVault = true)
    (hget : s.minersExtended.get (.minerExtendedPda authority) = some e)
    (hsettled : e.xautRewardsFactor = s.goldVault.xautRewardsFactor)
    (hrun : Run (Step env fun _ => True) s h t)
    (hlate : ∀ x ∈ h, ∀ time, x.label.time = some time → legacyInstructionExpiryTs ≤ time) :
    ∃ (e' : MinerExtended) (credited pending : ℕ) (raise : ℚ),
      t.minersExtended.get (.minerExtendedPda authority) = some e' ∧
      e'.lifetimeXaut = e.lifetimeXaut + credited ∧
      (∀ x', e'.updateRewards t.goldVault (t.unrefined authority) = .ok x' →
        x'.lifetimeXaut = e'.lifetimeXaut + pending) ∧
      raise = ((t.goldVault.xautRewardsFactor.bits : ℚ) - s.goldVault.xautRewardsFactor.bits) /
        2 ^ 48 ∧
      ((credited + pending : ℕ) : ℚ) ≤ (h.map (eagerGold authority)).sum ∧
      (h.map (eagerGold authority)).sum - (credited + pending : ℕ) <
        goldSettlements authority h + 1 + raise / 2 ^ 48 +
          (total (unrefinedShared authority) h : ℚ) / (10 ^ 6 * 2 ^ 48) ∧
      (goldSettlements authority h = 0 → ∀ r, (∀ x ∈ h, x.before.unrefined authority = r) →
        (h.map (eagerGold authority)).sum - (credited + pending : ℕ) <
          1 + (raise + 1) / 2 ^ 48 + total distributions h * r / (10 ^ 6 * 2 ^ 48)) := by
  have hscale : 0 < goldScale := by rw [goldScale_eq]; norm_num
  -- Every step keeps the account and credits what accrued.
  have hchange : ∀ x ∈ h, GoldChange x := by
    intro x hx
    obtain ⟨h₁, hrun₁, hstep⟩ := hrun.of_mem hx
    have hbefore := hrun₁.invariant (P := fun u => u.opened .treasury = true ∧
      u.opened .goldVault = true) ⟨hsetup, hvault⟩ fun u l v hu hstep =>
        ⟨hstep.effect.opened hu.1 hu.1, hstep.effect.opened hu.1 hu.2⟩
    exact hstep.effect.goldChange hbefore.1 hbefore.2
  have hthere : (s.minersExtended.get (.minerExtendedPda authority)).isSome = true := by
    rw [hget, Option.isSome_some]
  obtain ⟨hbefore, hafter⟩ := hrun.chain
    (P := fun u => (u.minersExtended.get (.minerExtendedPda authority)).isSome = true) hthere
    (by
      intro x hx hsome
      obtain ⟨b, hb⟩ := Option.isSome_iff_exists.1 hsome
      exact ((hchange x hx).tracked (hlate x hx) hb).1)
  have hsteps : ∀ x ∈ h, x.after.goldVault.xautRewardsFactor.bits =
      x.before.goldVault.xautRewardsFactor.bits + factorRaise x ∧
      Run.Tracked goldScale (fun s => s.goldAt authority) (fun s => s.goldLifetime authority)
        (fun s => s.goldVault.xautRewardsFactor.bits) (eagerGold authority) (goldLoss authority)
        x := by
    intro x hx
    obtain ⟨b, hb⟩ := Option.isSome_iff_exists.1 (hbefore x hx)
    exact ((hchange x hx).tracked (hlate x hx) hb).2
  obtain ⟨e', he'⟩ := Option.isSome_iff_exists.1 hafter
  have hpos : s.goldAt authority = e.position (s.unrefined authority) := Store.view_of_get hget
  have hpos' : t.goldAt authority = e'.position (t.unrefined authority) := Store.view_of_get he'
  have hlifetime : s.goldLifetime authority = e.lifetimeXaut := Store.view_of_get hget
  have hlifetime' : t.goldLifetime authority = e'.lifetimeXaut := Store.view_of_get he'
  obtain ⟨hle, htracks⟩ := hrun.tracks hscale (by rw [hpos, ← hsettled]; rfl)
    fun x hx => (hsteps x hx).2
  obtain ⟨hnever, hdust⟩ := htracks.shortfall hscale
  rw [hlifetime, hlifetime'] at hle hnever hdust
  rw [hpos'] at hnever hdust
  rw [← Nat.cast_sub hle, ← Nat.cast_add] at hnever hdust
  -- The raises of the factor add up.
  have hraise : t.goldVault.xautRewardsFactor.bits =
      s.goldVault.xautRewardsFactor.bits + total factorRaise h :=
    hrun.sum_steps (f := fun u => u.goldVault.xautRewardsFactor.bits) fun x hx => (hsteps x hx).1
  have hloss : (h.map (goldLoss authority)).sum = (total factorRaise h : ℚ) / 2 ^ 96 +
      (total (unrefinedShared authority) h : ℚ) / (10 ^ 6 * 2 ^ 48) := by
    rw [← total_div, ← total_div, ← List.sum_map_add]
    rfl
  rw [hloss] at hdust
  refine ⟨e', e'.lifetimeXaut - e.lifetimeXaut, _, (total factorRaise h : ℚ) / 2 ^ 48, he',
    (Nat.add_sub_cancel' hle).symm, fun x' hx' => (e'.updateRewards_spec _ _ x' hx').2.2, ?_,
    sub_nonneg.1 hnever, ?_, fun hnone r hr => ?_⟩
  · rw [hraise, Nat.cast_add, add_sub_cancel_left]
  · refine hdust.trans_eq ?_
    rw [goldSettlements]
    ring
  · have hshared : total (unrefinedShared authority) h = total distributions h * r :=
      total_mul_of_eq hr
    rw [hshared, Nat.cast_mul, ← goldSettlements, hnone] at hdust
    have hsplit : ((total factorRaise h : ℚ) / 2 ^ 48 + 1) / 2 ^ 48 =
        (total factorRaise h : ℚ) / 2 ^ 96 + 1 / 2 ^ 48 := by ring
    have hpos : (0 : ℚ) < 1 / 2 ^ 48 := by norm_num
    rw [hsplit]
    rw [Nat.cast_zero] at hdust
    linarith

end Runs

/-- The owner of 100 unrefined GODL has an extended account that is settled. -/
def goldMinerState : State := { goldState with
  miners := Store.empty.put { Miner.zeroed with authority := .key 7, rewardsGodl := 100 }
  minersExtended := Store.empty.put (.init (.key 7) goldState.goldVault)
  treasury := { goldState.treasury with totalUnclaimed := 100 } }

/-- Of 50 that are deposited the owner is credited with 49. -/
theorem gold_tracks_eager_deposit : ∃ (h : History) (t : State) (e' : MinerExtended)
    (credited pending : ℕ), Run (Step .plain fun _ => True) goldMinerState h t ∧ h.length = 2 ∧
    t.goldVault.totalXautClaimed = 49 ∧
    t.minersExtended.get (.minerExtendedPda (.key 7)) = some e' ∧
    e'.lifetimeXaut = credited ∧
    ((credited + pending : ℕ) : ℚ) ≤ (h.map (eagerGold (.key 7))).sum := by
  obtain ⟨h, t, hrun, hlabels, hclaimed⟩ := exists_run_of_perform .plain (fun _ => True)
    goldMinerState (goldScript.drop 2) (fun s => s.goldVault.totalXautClaimed = 49)
    (fun _ _ => trivial) (by decide +kernel)
  have hlate : ∀ x ∈ h, ∀ time, x.label.time = some time → legacyInstructionExpiryTs ≤ time := by
    intro x hx time htime
    have hmem := List.mem_map_of_mem (f := (·.label)) hx
    rw [hlabels] at hmem
    simp only [goldScript, injectScript, Call.label, Call.plain, List.cons_append,
      List.nil_append, List.drop_succ_cons, List.drop_zero, List.map_cons, List.map_nil,
      List.reverse_cons, List.reverse_nil, List.mem_cons, List.not_mem_nil, or_false] at hmem
    rcases hmem with hl | hl
    all_goals
      rw [hl] at htime
      cases htime
      exact le_refl _
  have hget : goldMinerState.minersExtended.get (.minerExtendedPda (.key 7)) =
      some (.init (.key 7) goldState.goldVault) := Store.get_put_self _ _
  obtain ⟨e', credited, pending, raise, he', hcredited, -, -, hnever, -, -⟩ :=
    gold_tracks_eager rfl rfl hget rfl hrun hlate
  refine ⟨h, t, e', credited, pending, hrun, ?_, of_decide_eq_true hclaimed, he', ?_, hnever⟩
  · simpa [goldScript, injectScript] using congrArg List.length hlabels
  · rw [hcredited]
    exact Nat.zero_add credited

end Godl
