import Godl.Lib.Tracking
import Godl.Proof.StakeSteps
import Godl.Theorems.Stakes

/-!
# Lazy rewards and exact shares

A v2 stake is settled only when an instruction touches it, with truncated fixed-point
numbers.  Over any run it gets its exact share of every distribution, up to a known dust.

## Main definitions

* `eagerShare k` — the exact share of the stake at `k` in what a step shared.
* `settlements k`, `unitsShared k` — what the dust is made of.
* `Step.tracked` — what a step does to a stake.
* `yield_tracks_eager` — the rewards and the exact shares differ by less than the dust.
-/

namespace Godl

open Lib

/-- The position of a v2 stake, one that weighs nothing without it. -/
def State.stakeAt (s : State) : Pubkey → Position :=
  s.stakesV2.view ⟨0, 0, 0⟩ fun a => a.stake.position

/-- What a v2 stake was ever credited with. -/
def State.stakeLifetime (s : State) : Pubkey → ℕ :=
  s.stakesV2.view 0 fun a => a.stake.lifetimeRewards

/-- The exact share of the stake at `k` in what a step shared with the stakers. -/
def eagerShare (k : Pubkey) (x : Transition State Label) : ℚ :=
  yieldShared x * (x.before.stakeAt k).units / x.before.treasury.totalStaked

/-- The units of the stake at `k` in a step that shared something. -/
def unitsShared (k : Pubkey) (x : Transition State Label) : ℕ :=
  if yieldShared x = 0 then 0 else (x.before.stakeAt k).units

/-- The steps that settled the stake at `k` at a factor that it had not seen. -/
def settlements (k : Pubkey) (h : History) : ℕ := total (Run.settled fun s => s.stakeAt k) h

/-- Whether a call merges the stake at `k`, as the target or as the source. -/
def Label.MergesStake (k : Pubkey) : Label → Prop
  | .call _ ix accounts _ => ∃ j, ix.Merges accounts k j ∨ ix.Merges accounts j k
  | .world => False

section Steps

variable {env : Env} {allowed : GodlInstruction → Prop} {s s' : State} {l : Label} {k : Pubkey}
  {a a' : StakeV2Account} {credited dust eager : ℚ}

/-- **A step shares nothing and keeps the factor, or is a bury.** -/
theorem StepEffect.yield (h : StepEffect allowed s s' l) (hsetup : s.opened .treasury = true) :
    (yieldShared ⟨s, l, s'⟩ = 0 ∧
      s'.treasury.stakeRewardsFactor = s.treasury.stakeRewardsFactor) ∨
    Buried s s' (yieldShared ⟨s, l, s'⟩) := by
  cases h with
  | world hidle => exact .inl ⟨rfl, hidle.stakes.factor⟩
  | @call clock ix accounts cpi hallowed heffect =>
    by_cases hbury : ix.kind = .bury
    · rw [hbury] at heffect
      obtain ⟨shared, hburied, -⟩ := heffect
      refine .inr ?_
      rwa [hburied.yieldShared (.inl hbury)]
    by_cases htokens : ix.kind = .buryTokens
    · rw [htokens] at heffect
      obtain ⟨shared, hburied⟩ := heffect
      refine .inr ?_
      rwa [hburied.yieldShared (.inr htokens)]
    have hzero : yieldShared ⟨s, .call clock ix accounts cpi, s'⟩ = 0 := by
      cases ix <;> first
        | rfl
        | exact absurd rfl hbury
        | exact absurd rfl htokens
    by_cases hrebase : ix.kind = .rebaseTotalStaked
    · rw [hrebase] at heffect
      obtain ⟨_, rfl⟩ := heffect
      exact .inl ⟨hzero, rfl⟩
    have hcall : StepEffect (fun i => i = ix) s s' (.call clock ix accounts cpi) :=
      .call rfl heffect
    have hchange : StakeChange ⟨s, .call clock ix accounts cpi, s'⟩ := by
      refine hcall.stakeChange ?_ fun _ _ _ => hsetup
      rintro _ rfl
      exact hrebase
    cases hchange with
    | restaked hrestaked _ => exact .inl ⟨hzero, hrestaked.factor⟩
    | buried hburied _ hshared => exact .inr (by rwa [hshared])

/-- A step that does not merge a stake credits it with what accrued, or does not settle
it. -/
theorem Step.accrued (h : Step env allowed s l s') (hsetup : s.opened .treasury = true)
    (hget : s.stakesV2.get k = some a) (hget' : s'.stakesV2.get k = some a')
    (hmerge : ¬ l.MergesStake k) :
    a.stake.Accrued s.treasury.stakeRewardsFactor a'.stake := by
  cases h with
  | call _ hok =>
    refine (processInstruction_stakesV2 hsetup hok).accrued hget hget' ?_
    rintro j j' hmerges rfl
    exact hmerge ⟨j', .inl hmerges⟩
  | world hworld =>
    rw [hworld.accounts, hget] at hget'
    cases hget'
    exact .refl _ _ _ _

/-- **A step credits a stake with what accrued, and a bury loses a part of a unit for each of
its units.** -/
theorem Step.tracked (h : Step env allowed s l s') (hsetup : s.opened .treasury = true)
    (hget : s.stakesV2.get k = some a) (hget' : s'.stakesV2.get k = some a')
    (hmerge : ¬ l.MergesStake k) :
    Run.Tracked factorScale (fun s => s.stakeAt k) (fun s => s.stakeLifetime k)
      (fun s => s.treasury.stakeRewardsFactor.bits) (eagerShare k)
      (fun x => unitsShared k x / factorScale) ⟨s, l, s'⟩ := by
  have hscale : 0 < factorScale := by rw [factorScale_eq]; decide
  have hpos : s.stakeAt k = a.stake.position := Store.view_of_get hget
  have hpos' : s'.stakeAt k = a'.stake.position := Store.view_of_get hget'
  have hlifetime : s.stakeLifetime k = a.stake.lifetimeRewards := Store.view_of_get hget
  have hlifetime' : s'.stakeLifetime k = a'.stake.lifetimeRewards := Store.view_of_get hget'
  have haccrued := h.accrued hsetup hget hget' hmerge
  simp only [Run.Tracked, eagerShare, unitsShared, hpos, hpos', hlifetime, hlifetime']
  refine ⟨haccrued, ?_⟩
  rcases h.effect.yield hsetup with ⟨hzero, hfactor⟩ | hburied
  · refine ⟨0, by rw [hfactor, Nat.add_zero], ?_, ?_⟩ <;> simp [hzero]
  · -- A bury leaves the stakes alone and raises the factor.
    have hsame : a' = a := by
      rw [hburied.stakesV2, hget, Option.some.injEq] at hget'
      exact hget'.symm
    subst hsame
    refine ⟨_, hburied.factor, Position.raise_le _ _ _ _, ?_⟩
    split
    · next hzero =>
      rw [hzero]
      simp
    · rcases Nat.eq_zero_or_pos s.treasury.totalStaked with hnone | hpos
      · rw [hnone, Nat.cast_zero, div_zero]
        positivity
      · exact Position.le_raise_add hscale hpos _ _

end Steps

section Runs

variable {env : Env} {s t : State} {h : History} {k : Pubkey} {a : StakeV2Account}

/-- **The rewards of a v2 stake keep up with its exact shares.**  Over any run that starts
when it is settled and does not merge it, what it was credited with and what settling it
would add now is at most the sum of its exact shares, and falls short of it by less than one
for each settlement, one more, and `2⁻⁴⁸` for each of its units in each distribution. -/
theorem yield_tracks_eager (hsetup : s.opened .treasury = true)
    (hget : s.stakesV2.get k = some a)
    (hsettled : a.stake.rewardsFactor = s.treasury.stakeRewardsFactor)
    (hrun : Run (Step env fun _ => True) s h t)
    (hkept : ∀ x ∈ h, (x.after.stakesV2.get k).isSome = true ∧ ¬ x.label.MergesStake k) :
    ∃ (a' : StakeV2Account) (credited pending : ℕ), t.stakesV2.get k = some a' ∧
      a'.stake.lifetimeRewards = a.stake.lifetimeRewards + credited ∧
      (∀ x', a'.stake.updateRewards t.treasury = .ok x' →
        x'.lifetimeRewards = a'.stake.lifetimeRewards + pending) ∧
      0 ≤ (h.map (eagerShare k)).sum - (credited + pending : ℕ) ∧
      (h.map (eagerShare k)).sum - (credited + pending : ℕ) <
        settlements k h + 1 + (total (unitsShared k) h : ℚ) / 2 ^ 48 := by
  have hscale : 0 < factorScale := by rw [factorScale_eq]; decide
  have hthere : (s.stakesV2.get k).isSome = true := by rw [hget, Option.isSome_some]
  obtain ⟨hbefore, hafter⟩ := hrun.chain (P := fun u => (u.stakesV2.get k).isSome = true) hthere
    fun x hx _ => (hkept x hx).1
  obtain ⟨a', ha'⟩ := Option.isSome_iff_exists.1 hafter
  -- Every step credits what accrued.
  have hsteps : ∀ x ∈ h, Run.Tracked factorScale (fun s => s.stakeAt k)
      (fun s => s.stakeLifetime k) (fun s => s.treasury.stakeRewardsFactor.bits) (eagerShare k)
      (fun x => unitsShared k x / factorScale) x := by
    intro x hx
    obtain ⟨h₁, hrun₁, hstep⟩ := hrun.of_mem hx
    have hopened := hrun₁.invariant (P := fun u => u.opened .treasury = true) hsetup
      fun u l v hu hstep => hstep.effect.opened hu hu
    obtain ⟨b, hb⟩ := Option.isSome_iff_exists.1 (hbefore x hx)
    obtain ⟨b', hb'⟩ := Option.isSome_iff_exists.1 (hkept x hx).1
    exact hstep.tracked hopened hb hb' (hkept x hx).2
  have hpos : s.stakeAt k = a.stake.position := Store.view_of_get hget
  have hpos' : t.stakeAt k = a'.stake.position := Store.view_of_get ha'
  have hlifetime : s.stakeLifetime k = a.stake.lifetimeRewards := Store.view_of_get hget
  have hlifetime' : t.stakeLifetime k = a'.stake.lifetimeRewards := Store.view_of_get ha'
  obtain ⟨hle, htracks⟩ := hrun.tracks hscale (by rw [hpos, ← hsettled]; rfl) hsteps
  obtain ⟨hnever, hdust⟩ := htracks.shortfall hscale
  rw [hlifetime, hlifetime'] at hle hnever hdust
  rw [hpos'] at hnever hdust
  refine ⟨a', a'.stake.lifetimeRewards - a.stake.lifetimeRewards,
    a'.stake.pendingAt t.treasury.stakeRewardsFactor, ha', (Nat.add_sub_cancel' hle).symm, ?_, ?_,
    ?_⟩
  · intro x' hx'
    obtain ⟨hkept, hmark, -⟩ := StakeV2.updateRewards_kept a'.stake t.treasury x' hx'
    exact hkept.accrued.credited_of_mark (congrArg Fixed.bits hmark)
  · rw [Nat.cast_add, Nat.cast_sub hle]
    exact hnever
  · have hloss : (h.map fun x => (unitsShared k x : ℚ) / factorScale).sum =
        (total (unitsShared k) h : ℚ) / 2 ^ 48 := by
      have hpow : (factorScale : ℚ) = 2 ^ 48 := by rw [factorScale_eq]; norm_num
      rw [hpow, total_div]
    rw [Nat.cast_add, Nat.cast_sub hle]
    rw [hloss] at hdust
    refine hdust.trans_eq ?_
    rw [settlements]
    ring

end Runs

/-- A set-up program with one v2 stake of 1000, which belongs to the key pair 7, and the
treasury's and the owner's tokens. -/
def stakedV2State : State := { stakedState with
  stakes := Store.empty
  stakesV2 := Store.empty.put (.derived (.key 7) 1 { StakeV2.create 1 (.key 7) (.key 7) 0 ⟨0, 0⟩
    stakedState.treasury with balance := 1000 }) }

/-- 300 GODL are buried. -/
def buryCall : Call := .buryTokens 300

/-- The owner of the stake claims what it can. -/
def claimV2Call : Call := .claimYieldV2 1 1000

/-- Whether there is a stake at `k`. -/
def State.hasStakeV2 (s : State) (k : Pubkey) : Bool := (s.stakesV2.get k).isSome

/-- The owner is credited with 8 of the 9 GODL that are shared. -/
theorem yield_tracks_eager_bury :
    ∃ (h : History) (t : State) (a' : StakeV2Account), Run (Step .plain fun _ => True)
      stakedV2State h t ∧ h.length = 2 ∧
      t.stakesV2.get (.stakeV2Pda (.key 7) 1) = some a' ∧
      ∃ credited pending : ℕ, a'.stake.lifetimeRewards = credited ∧
        t.tokensAt (.associatedTokenAddress (.key 7) mintAddress) = 8 ∧
        0 ≤ (h.map (eagerShare (.stakeV2Pda (.key 7) 1))).sum - (credited + pending : ℕ) := by
  obtain ⟨s, hs, hclaim⟩ := exists_of_returns
    (x := processInstruction .plain buryCall.clock buryCall.ix buryCall.accounts buryCall.cpi
      stakedV2State)
    (P := fun s => s.hasStakeV2 (.stakeV2Pda (.key 7) 1) &&
      returns (processInstruction .plain claimV2Call.clock claimV2Call.ix claimV2Call.accounts
        claimV2Call.cpi s) fun t => t.hasStakeV2 (.stakeV2Pda (.key 7) 1) &&
          decide (t.tokensAt (.associatedTokenAddress (.key 7) mintAddress) = 8))
    (by decide +kernel)
  obtain ⟨hstake, hclaim⟩ := Bool.and_eq_true_iff.1 hclaim
  obtain ⟨t, ht, hafter⟩ := exists_of_returns hclaim
  obtain ⟨hstake', hpaid⟩ := Bool.and_eq_true_iff.1 hafter
  have hrun : Run (Step .plain fun _ => True) stakedV2State
      [⟨s, claimV2Call.label, t⟩, ⟨stakedV2State, buryCall.label, s⟩] t :=
    .step (.step .start (.call trivial hs)) (.call trivial ht)
  obtain ⟨a', credited, pending, ha', hcredited, -, hnever, -⟩ :=
    yield_tracks_eager (k := .stakeV2Pda (.key 7) 1) (by decide +kernel)
      (Store.get_put_self _ _) rfl hrun (by
        simp only [List.forall_mem_cons, List.not_mem_nil, false_implies, implies_true, and_true]
        refine ⟨⟨hstake', ?_⟩, ⟨hstake, ?_⟩⟩
        · rintro ⟨j, h | h⟩ <;> exact h
        · rintro ⟨j, h | h⟩ <;> exact h)
  refine ⟨_, t, a', hrun, rfl, ha', credited, pending, ?_, of_decide_eq_true hpaid, hnever⟩
  rw [hcredited]
  exact Nat.zero_add credited

end Godl
