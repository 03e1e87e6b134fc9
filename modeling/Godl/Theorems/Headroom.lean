import Godl.Proof.Headroom
import Godl.Theorems.Yield

/-!
# Stakers can always get out

What is staked is bounded by the supply of GODL, and what stakers ever earned by what was
shared with them.  Within these bounds nothing that a staker does with existing capital
overflows: neither the weights, nor the total that follows them, nor the rewards.

## Main definitions

* `State.Capital` — the bounds on what is staked.
* `State.CreditCovered` — what stakes were ever credited with was shared with them.
* `StakeV2.GetsOut` — the operations that need existing capital only.
* `stakers_get_out` — they go through in every run.
-/

namespace Godl

open Lib

/-- What is staked is backed by the supply: the balances, the multipliers and the total. -/
structure State.Capital (s : State) : Prop where
  balances : s.stakes.sum (fun x => x.balance) + s.stakesV2.sum (fun a => a.stake.balance) ≤
    maxSupply
  multipliers : s.stakesV2.All fun a => MultiplierBounds a.stake.multiplier
  total : s.treasury.totalStaked =
    s.stakes.sum (fun x => x.balance) + s.stakesV2.sum fun a => a.stake.units

section Capital

variable {s : State} {k : Pubkey} {a : StakeV2Account}

theorem State.Capital.balance_le (h : s.Capital) (hget : s.stakesV2.get k = some a) :
    a.stake.balance ≤ maxSupply := by
  have hle := Store.le_sum (fun a : StakeV2Account => a.stake.balance) hget
  have hsum := h.balances
  omega

/-- Every weight is computed. -/
theorem State.Capital.weightedUnits_eq (h : s.Capital) (hget : s.stakesV2.get k = some a) :
    a.stake.weightedUnits = .ok a.stake.weight := by
  have hm := h.multipliers k a hget
  refine (StakeV2.weightedUnits_eq_ok hm.lt).2 ⟨rfl, ?_⟩
  have hle := (StakeV2.weight_le hm).trans (Nat.mul_le_mul_left 22 (h.balance_le hget))
  exact (Nat.le_add_right _ _).trans_lt (room_for_weights hle (Nat.zero_le _))

theorem State.Capital.booked (h : s.Capital) : s.StakesBooked :=
  ⟨fun _ _ hget => ⟨_, h.weightedUnits_eq hget⟩, h.total⟩

/-- **The total is at most twenty-two times the supply.** -/
theorem State.Capital.totalStaked_le (h : s.Capital) :
    s.treasury.totalStaked ≤ 22 * maxSupply := by
  have hunits : s.stakesV2.sum (fun a => a.stake.units) ≤
      s.stakesV2.sum fun a => 22 * a.stake.balance := by
    refine Store.sum_le_sum fun k a hget => ?_
    dsimp only
    rw [StakeV2.units_of_eq (h.weightedUnits_eq hget)]
    exact StakeV2.weight_le (h.multipliers k a hget)
  rw [Store.sum_mul_left] at hunits
  have hsum := h.balances
  rw [h.total]
  omega

end Capital

/-! ## What stakes were credited with -/

section Credited

variable {env : Env} {s s' t : State} {l : Label} {h : History} {clock : Clock}

/-- **A step credits the stakes with what accrued, and a bury with what it shares.** -/
theorem Step.stakeCredited_le {allowed : GodlInstruction → Prop} (hstep : Step env allowed s l s')
    (hsetup : s.opened .treasury = true) (hbooked : s.StakesBooked) :
    s'.stakeCredited s'.treasury.stakeRewardsFactor.bits ≤
      s.stakeCredited s.treasury.stakeRewardsFactor.bits +
        yieldShared ⟨s, l, s'⟩ * factorScale := by
  rcases hstep.effect.yield hsetup with ⟨hzero, hfactor⟩ | hburied
  · rw [hzero, hfactor, Nat.zero_mul, Nat.add_zero]
    cases hstep with
    | call _ hok => exact (processInstruction_stakesV2 hsetup hok).credited_le
    | world hworld =>
      rw [State.stakeCredited, hworld.accounts]
      exact le_rfl
  · -- A bury raises the factor and leaves the stakes alone.
    have hunits : s.stakesV2.sum (fun a => a.stake.creditedPosition.units) ≤
        s.treasury.totalStaked := by
      rw [hbooked.total, State.stakeWeight]
      exact Nat.le_add_left _ _
    rw [State.stakeCredited, hburied.factor, hburied.stakesV2]
    exact Store.sum_owed_distribute_le s.stakesV2 (fun a => a.stake.creditedPosition) _ _ _ hunits

/-- The program is set up, the total is the weight of all stakes, and what they were credited
with was shared, but for what they began with. -/
structure State.CreditCovered (s : State) (start shared : ℕ) : Prop where
  setup : s.opened .treasury = true
  booked : s.StakesBooked
  covered : s.stakeCredited s.treasury.stakeRewardsFactor.bits ≤
    start * factorScale + shared * factorScale

/-- **What stakes were ever credited with was shared with them**, along every run. -/
theorem State.CreditCovered.run {n : ℕ} (hstart : s.CreditCovered n 0)
    (hrun : Run (Step env GodlInstruction.KeepsTotalStaked) s h t) :
    t.CreditCovered n (total yieldShared h) := by
  refine hrun.induct (P := fun h u => u.CreditCovered n (total yieldShared h)) hstart
    fun h u l v hu hstep => ?_
  have hchange := hstep.effect.stakeChange (fun ix hix => hix.kind_ne) fun _ _ _ => hu.setup
  have hcredited := hstep.stakeCredited_le hu.setup hu.booked
  have hbefore := hu.covered
  refine ⟨hstep.effect.opened hu.setup hu.setup, hchange.booked hu.booked, ?_⟩
  rw [total_cons, Nat.add_mul]
  omega

end Credited

/-! ## Getting out -/

/-- What needs existing capital only goes through, for any amount that is asked for. -/
structure StakeV2.GetsOut (x : StakeV2) (t : Treasury) : Prop where
  weightedUnits : ∃ n, x.weightedUnits = .ok n
  updateRewards : ∃ y, x.updateRewards t = .ok y
  claim : ∀ amount clock, ∃ r, x.claim amount clock t = .ok r
  withdraw : ∀ amount clock, ∃ r, x.withdraw amount clock t = .ok r
  migrateWeight : ∃ r, x.migrateWeight t = .ok r
  stakeNft : x.isNftStaked = 0 → ∃ r, x.stakeNft t = .ok r
  unstakeNft : x.isNftStaked ≠ 0 → ∃ r, x.unstakeNft t = .ok r

/-- The bounds are enough. -/
theorem StakeV2.Roomy.getsOut {x : StakeV2} {t : Treasury} (h : x.Roomy t.stakeRewardsFactor)
    (hprev : x.weight ≤ t.totalStaked) (ht : t.totalStaked ≤ 22 * maxSupply) : x.GetsOut t where
  weightedUnits := ⟨_, h.weightedUnits⟩
  updateRewards := ⟨_, StakeV2.updateRewards_eq h⟩
  claim amount _ := StakeV2.claim_returns h amount
  withdraw amount _ := StakeV2.withdraw_returns h hprev ht amount
  migrateWeight := by
    obtain ⟨r, hr, -⟩ := StakeV2.migrateWeight_returns h hprev ht
    exact ⟨r, hr⟩
  stakeNft := StakeV2.stakeNft_returns h hprev ht
  unstakeNft := StakeV2.unstakeNft_returns h hprev ht

section GetOut

variable {env : Env} {s t : State} {h : History} {k j : Pubkey} {a b : StakeV2Account}
  {paid shared start n : ℕ}

/-- What a sum of scaled rewards bounds. -/
theorem lt_of_scaled {m : ℕ} (h : m * factorScale ≤ n * factorScale) (hn : n < u64Bound) :
    m < u64Bound := by
  refine lt_of_le_of_lt (Nat.le_of_mul_le_mul_right h ?_) hn
  rw [factorScale_eq]
  exact Nat.two_pow_pos 48

/-- What a v2 stake may claim is a part of what all stakes may. -/
theorem State.YieldCovered.owed_le (h : t.YieldCovered paid shared) :
    t.stakesV2.sum (fun a => a.stake.position.owed factorScale
      t.treasury.stakeRewardsFactor.bits) ≤ shared * factorScale := by
  have hcovered := h.covered
  rw [State.stakeOwed] at hcovered
  omega

/-- **Every stake is within the bounds.** -/
theorem State.Capital.roomy (h : t.Capital) (hyield : t.YieldCovered paid shared)
    (hcredit : t.CreditCovered start shared) (hstart : start ≤ 2 ^ 63) (hshared : shared < 2 ^ 63)
    (hget : t.stakesV2.get k = some a) : a.stake.Roomy t.treasury.stakeRewardsFactor := by
  have howed := (Store.le_sum (fun a : StakeV2Account => a.stake.position.owed factorScale
    t.treasury.stakeRewardsFactor.bits) hget).trans hyield.owed_le
  have hcredited := (Store.le_sum (fun a : StakeV2Account => a.stake.creditedPosition.owed
    factorScale t.treasury.stakeRewardsFactor.bits) hget).trans hcredit.covered
  rw [← Nat.add_mul] at hcredited
  refine ⟨h.multipliers k a hget, h.balance_le hget, ?_, ?_, ?_⟩
  · refine lt_of_scaled ((Position.reward_add_pending_le _ _ a.stake.position).trans howed) ?_
    rw [u64Bound]
    omega
  · refine lt_of_scaled ((Position.reward_add_pending_le _ _ a.stake.creditedPosition).trans
      hcredited) ?_
    rw [u64Bound]
    omega
  · rw [Position.owed, factorScale_eq] at howed
    dsimp only [StakeV2.position] at howed
    rw [Fixed.bound]
    omega

/-- Two stakes are within the bounds together. -/
theorem State.Capital.combine_returns (h : t.Capital) (hyield : t.YieldCovered paid shared)
    (hcredit : t.CreditCovered start shared) (hstart : start ≤ 2 ^ 63) (hshared : shared < 2 ^ 63)
    (hne : k ≠ j) (ha : t.stakesV2.get k = some a) (hb : t.stakesV2.get j = some b)
    (clock : Clock) : ∃ r, a.stake.combine b.stake clock t.treasury = .ok r := by
  have hbalance := Store.add_le_sum (fun a : StakeV2Account => a.stake.balance) hne ha hb
  have hunits := Store.add_le_sum (fun a : StakeV2Account => a.stake.units) hne ha hb
  have howed := (Store.add_le_sum (fun a : StakeV2Account => a.stake.position.owed factorScale
    t.treasury.stakeRewardsFactor.bits) hne ha hb).trans hyield.owed_le
  have hcredited := (Store.add_le_sum (fun a : StakeV2Account => a.stake.creditedPosition.owed
    factorScale t.treasury.stakeRewardsFactor.bits) hne ha hb).trans hcredit.covered
  rw [← Nat.add_mul] at hcredited
  have hbalances := h.balances
  have htotal := h.total
  have hra := h.roomy hyield hcredit hstart hshared ha
  have hrb := h.roomy hyield hcredit hstart hshared hb
  rw [hra.units_eq, hrb.units_eq] at hunits
  refine StakeV2.combine_returns hra hrb (by omega) ?_ ?_ (by omega) h.totalStaked_le
  · refine lt_of_scaled (n := shared) ?_ ?_
    · rw [Nat.add_mul]
      exact (Nat.add_le_add (Position.reward_add_pending_le _ _ a.stake.position)
        (Position.reward_add_pending_le _ _ b.stake.position)).trans howed
    · rw [u64Bound]
      omega
  · refine lt_of_scaled (n := start + shared) ?_ ?_
    · rw [Nat.add_mul]
      exact (Nat.add_le_add (Position.reward_add_pending_le _ _ a.stake.creditedPosition)
        (Position.reward_add_pending_le _ _ b.stake.creditedPosition)).trans hcredited
    · rw [u64Bound]
      omega

/-- **Stakers can always get out.**  A run starts with stakes that have no rewards, what is
staked stays within the supply, and less than `2 ^ 63` is ever shared: before the run, as the
stakes record in their lifetime rewards, and in its steps.  Then nothing that needs existing
capital only overflows, for any stake and any amount, nor does the merge of any two stakes. -/
theorem stakers_get_out (hsetup : s.opened .treasury = true)
    (hstakes : s.stakes.All fun x =>
      x.rewards = 0 ∧ x.rewardsFactor = s.treasury.stakeRewardsFactor)
    (hstakesV2 : s.stakesV2.All fun a =>
      a.stake.rewards = 0 ∧ a.stake.rewardsFactor = s.treasury.stakeRewardsFactor)
    (hlifetime : s.stakesV2.sum (fun a => a.stake.lifetimeRewards) ≤ 2 ^ 63)
    (hcapital : s.Capital) (hrun : Run (Step env GodlInstruction.KeepsTotalStaked) s h t)
    (hcapital' : t.Capital) (hshared : total yieldShared h < 2 ^ 63) :
    (t.stakesV2.All fun a => a.stake.GetsOut t.treasury) ∧
    (∀ k j a b, k ≠ j → t.stakesV2.get k = some a → t.stakesV2.get j = some b →
      ∀ clock, ∃ r, a.stake.combine b.stake clock t.treasury = .ok r) ∧
    ∀ (clock : Clock) (targetId sourceId : ℕ) (signerInfo mintInfo targetStakeInfo
      targetTokensInfo sourceStakeInfo sourceTokensInfo treasuryInfo systemProgram tokenProgram
      associatedTokenProgram : AccountInfo),
      Avoids ProgramError.IsStakeOverflow (processMergeStakeV2 clock targetId sourceId signerInfo
        mintInfo targetStakeInfo targetTokensInfo sourceStakeInfo sourceTokensInfo treasuryInfo
        systemProgram tokenProgram associatedTokenProgram t) := by
  have hyield := (State.yieldCovered_start hsetup hstakes hstakesV2 hcapital.booked).run hrun
  have hstart : s.CreditCovered (s.stakesV2.sum fun a => a.stake.lifetimeRewards) 0 := by
    refine ⟨hsetup, hcapital.booked, ?_⟩
    rw [Nat.zero_mul, Nat.add_zero, Nat.mul_comm, ← Store.sum_mul_left]
    refine Store.sum_le_sum fun k a hget => ?_
    have hsettled : a.stake.creditedPosition =
        ⟨a.stake.units, s.treasury.stakeRewardsFactor.bits, a.stake.lifetimeRewards⟩ :=
      Position.ext rfl (congrArg Fixed.bits (hstakesV2 k a hget).2) rfl
    dsimp only
    rw [hsettled, Position.owed_of_mark, Nat.mul_comm]
  have hcredit := hstart.run hrun
  have hcombine : ∀ k j a b, k ≠ j → t.stakesV2.get k = some a → t.stakesV2.get j = some b →
      ∀ clock, ∃ r, a.stake.combine b.stake clock t.treasury = .ok r :=
    fun k j a b hne ha hb => hcapital'.combine_returns hyield hcredit hlifetime hshared hne ha hb
  refine ⟨fun k a hget => ?_, hcombine, ?_⟩
  · have hroomy := hcapital'.roomy hyield hcredit hlifetime hshared hget
    refine hroomy.getsOut ?_ hcapital'.totalStaked_le
    rw [hcapital'.total, ← hroomy.units_eq]
    exact (Store.le_sum (fun a : StakeV2Account => a.stake.units) hget).trans
      (Nat.le_add_left _ _)
  · intro clock targetId sourceId signerInfo mintInfo targetStakeInfo targetTokensInfo
      sourceStakeInfo sourceTokensInfo treasuryInfo systemProgram tokenProgram
      associatedTokenProgram
    exact processMergeStakeV2_avoids _ _ _ _ _ _ _ _ _ _ _ _ _ _
      fun a b ha hb hne => hcombine _ _ a b hne ha hb clock

end GetOut

/-- What is staked is backed as long as stakes and total stay as they are. -/
theorem State.Capital.of_same {s t : State} (h : s.Capital) (hstakes : t.stakes = s.stakes)
    (hstakesV2 : t.stakesV2 = s.stakesV2)
    (htotal : t.treasury.totalStaked = s.treasury.totalStaked) : t.Capital := by
  refine ⟨?_, ?_, ?_⟩
  · rw [hstakes, hstakesV2]
    exact h.balances
  · rw [hstakesV2]
    exact h.multipliers
  · rw [htotal, hstakes, hstakesV2]
    exact h.total

/-- What is staked in a state with one v2 stake. -/
theorem capital_stakedV2State : stakedV2State.Capital :=
  ⟨by decide +kernel, Store.All.put (Store.all_empty _) (multiplierBounds_of_lock 0),
    by decide +kernel⟩

/-- After a bury the owner can get out. -/
theorem stakers_get_out_bury : ∃ (h : History) (t : State) (a : StakeV2Account),
    Run (Step .plain GodlInstruction.KeepsTotalStaked) stakedV2State h t ∧ h.length = 1 ∧
      t.stakesV2.get (.stakeV2Pda (.key 7) 1) = some a ∧ a.stake.GetsOut t.treasury := by
  obtain ⟨t, ht, hshared⟩ := exists_of_returns
    (x := processInstruction .plain buryCall.clock buryCall.ix buryCall.accounts buryCall.cpi
      stakedV2State)
    (P := fun t => decide (yieldShared ⟨stakedV2State, buryCall.label, t⟩ = 9))
    (by decide +kernel)
  obtain ⟨shared, hburied⟩ := processInstruction_effect _ _ _ _ _ _ t ht
  have hrun : Run (Step .plain GodlInstruction.KeepsTotalStaked) stakedV2State
      [⟨stakedV2State, buryCall.label, t⟩] t := .step .start (.call trivial ht)
  have hcapital := capital_stakedV2State.of_same hburied.stakes hburied.stakesV2
    hburied.totalStaked
  obtain ⟨hall, -⟩ := stakers_get_out (by decide +kernel) (Store.all_empty _)
    (Store.All.put (Store.all_empty _) ⟨rfl, rfl⟩) (by decide +kernel) capital_stakedV2State hrun
    hcapital (by
      rw [total_cons, of_decide_eq_true hshared]
      decide)
  have hget : t.stakesV2.get (.stakeV2Pda (.key 7) 1) = some (.derived (.key 7) 1
      { StakeV2.create 1 (.key 7) (.key 7) 0 ⟨0, 0⟩ stakedState.treasury with
        balance := 1000 }) := by
    rw [hburied.stakesV2]
    exact Store.get_put_self _ _
  exact ⟨_, t, _, hrun, rfl, hget, hall _ _ hget⟩

end Godl
