import Godl.Proof.Merge
import Godl.Theorems.StakeTerms

/-!
# Merging is a fresh deposit

A merge leaves the stake that a deposit of both balances with the longer lock would create:
nothing is gained by merging that could not be had by depositing anew.  What both stakes
earned until then is settled at their old weights, and no token is lost.

## Main definitions

* `StakeV2.AsDeposited` — the multiplier and the weight of a fresh deposit.
* `mergeStakeV2_deposits` — what a merge leaves.
-/

namespace Godl

open Lib

/-- The stake has the multiplier and the weight of a fresh deposit of its balance with its
lock. -/
structure StakeV2.AsDeposited (z : StakeV2) : Prop where
  multiplier : z.multiplier = stakeMultiplier z.lockDuration
  weightedUnits : ∀ (id : ℕ) (authority executor : Pubkey) (clock : Clock) (t : Treasury),
    z.weightedUnits =
      ({ StakeV2.create id authority executor z.lockDuration clock t with
        balance := z.balance } : StakeV2).weightedUnits
  deposited : ∀ (clock : Clock) (id : ℕ) (signerInfo mintInfo senderInfo stakeInfo
    stakeTokensInfo treasuryInfo executorInfo systemProgram tokenProgram
    associatedTokenProgram : AccountInfo) (s s' : State),
    processDepositV2 clock id z.balance z.lockDuration signerInfo mintInfo senderInfo stakeInfo
        stakeTokensInfo treasuryInfo executorInfo systemProgram tokenProgram
        associatedTokenProgram s = .ok s' →
      ∃ d, s'.stakesV2.get stakeInfo.key = some d ∧ d.stake.balance = z.balance ∧
        d.stake.lockDuration = z.lockDuration ∧ d.stake.multiplier = z.multiplier ∧
        d.stake.weightedUnits = z.weightedUnits

/-- The terms of a stake without an NFT on the square-root curve are those of a deposit. -/
theorem StakeV2.asDeposited {z : StakeV2} (hmultiplier : z.multiplier =
    stakeMultiplier z.lockDuration) (hnft : z.isNftStaked = 0) (hversion : z.weightVersion ≠ 0) :
    z.AsDeposited := by
  refine ⟨hmultiplier, ?_, ?_⟩
  · intro id authority executor clock t
    exact weightedUnits_congr_of_ne rfl hmultiplier hnft hversion one_ne_zero
  · intro clock id signerInfo mintInfo senderInfo stakeInfo stakeTokensInfo treasuryInfo
      executorInfo systemProgram tokenProgram associatedTokenProgram s s' h
    obtain ⟨d, hget, hbalance, hlock, hm, hd, hdversion⟩ := (processDepositV2_stake _ _ _ _ _ _ _
      _ _ _ _ _ _ _ _).elim h
    rw [← hmultiplier] at hm
    refine ⟨d, hget, hbalance, hlock, hm, ?_⟩
    exact weightedUnits_congr_of_ne hbalance hm (hd.trans hnft.symm) hdversion hversion

/-- **Merging is a fresh deposit of both balances.**  The target becomes the stake that a
deposit of both balances with the longer lock gives, and it is owed what both were owed,
settled at their old weights.  The total follows from the old weights to the new one.  The
vault of the target receives all that the one of the source held, and the source is gone. -/
theorem mergeStakeV2_deposits (clock : Clock) (targetId sourceId : ℕ) (signerInfo mintInfo
    targetStakeInfo targetTokensInfo sourceStakeInfo sourceTokensInfo treasuryInfo systemProgram
    tokenProgram associatedTokenProgram : AccountInfo) (s s' : State)
    (h : processMergeStakeV2 clock targetId sourceId signerInfo mintInfo targetStakeInfo
      targetTokensInfo sourceStakeInfo sourceTokensInfo treasuryInfo systemProgram tokenProgram
      associatedTokenProgram s = .ok s') :
    ∃ (a b : StakeV2Account) (v w z : StakeV2) (p q n targetAmount sourceAmount : ℕ),
      s.stakesV2.get targetStakeInfo.key = some a ∧
      s.stakesV2.get sourceStakeInfo.key = some b ∧
      s'.stakesV2.get targetStakeInfo.key = some { a with stake := z } ∧
      -- The terms.
      z.balance = a.stake.balance + b.stake.balance ∧
      z.lockDuration = max a.stake.lockDuration b.stake.lockDuration ∧
      z.createdAt = clock.unixTimestamp ∧ z.weightVersion ≠ 0 ∧ z.AsDeposited ∧
      -- The rewards.
      a.stake.updateRewards s.treasury = .ok v ∧ b.stake.updateRewards s.treasury = .ok w ∧
      z.rewards = v.rewards + w.rewards ∧
      z.rewardsFactor = s.treasury.stakeRewardsFactor ∧
      -- The total.
      a.stake.weightedUnits = .ok p ∧ b.stake.weightedUnits = .ok q ∧
      z.weightedUnits = .ok n ∧
      s'.treasury = { s.treasury with totalStaked := s'.treasury.totalStaked } ∧
      s'.treasury.totalStaked + p + q = s.treasury.totalStaked + n ∧
      -- The tokens.
      s.tokens targetTokensInfo.key = some targetAmount ∧
      s.tokens sourceTokensInfo.key = some sourceAmount ∧
      s'.tokens targetTokensInfo.key = some (targetAmount + sourceAmount) ∧
      (∀ k, k ≠ targetTokensInfo.key → k ≠ sourceTokensInfo.key → s'.tokens k = s.tokens k) ∧
      s'.mintSupply = s.mintSupply ∧
      -- The source.
      s'.stakesV2.get sourceStakeInfo.key = none ∧ s'.tokens sourceTokensInfo.key = none := by
  obtain ⟨hkeys, hne, a, b, m, n, z, u, ha, hb, hnft, hm, hn, hcombine, rfl⟩ :=
    (processMergeStakeV2_spec _ _ _ _ _ _ _ _ _ _ _ _ _ _).elim h
  obtain ⟨v, w, p, q, r, version, hv, hw, hp, hq, hr, hversion, hz, hu, htotal⟩ :=
    StakeV2.combine_spec hcombine
  have hva := (StakeV2.updateRewards_frame a.stake s.treasury).elim hv
  have hwb := (StakeV2.updateRewards_frame b.stake s.treasury).elim hw
  have hkey := s.stakesV2.key_of_get _ _ ha
  have hlock : z.lockDuration = max a.stake.lockDuration b.stake.lockDuration := by
    rw [hz, hva, hwb]
  refine ⟨a, b, v, w, z, p, q, r, m, n, ha, hb, ?_, ?_, hlock, ?_, ?_, ?_, hv, hw, ?_, ?_, hp, hq,
    hr, hu, htotal, hm, hn, ?_, ?_, rfl, Store.get_erase_self _ _, Function.update_self ..⟩
  · rw [Store.get_erase, if_neg hkeys, ← hkey]
    exact Store.get_put_self s.stakesV2 { a with stake := z }
  · rw [hz, hva, hwb]
  · rw [hz]
  · rw [hz]
    exact hversion
  · refine StakeV2.asDeposited ?_ ?_ ?_
    · rw [hz]
    · rw [hz, hva]
      exact hnft
    · rw [hz]
      exact hversion
  · rw [hz]
  · rw [hz, hva]
  · dsimp only
    rw [Function.update_of_ne hne, Function.update_self]
  · intro k htarget hsource
    dsimp only
    rw [Function.update_of_ne hsource, Function.update_of_ne htarget]

/-- A stake on the linear curve and one on the root, which both have something to claim, are
merged. -/
theorem mergeStakeV2_deposits_second : ∃ (s s' : State) (a b : StakeV2Account) (v w z : StakeV2),
    perform .plain [.buryTokens 100000] (mixedState 0) = .ok s ∧
      s.stakesV2.get (.stakeV2Pda (.key 7) 1) = some a ∧ a.stake.weightVersion = 0 ∧
      s.stakesV2.get (.stakeV2Pda (.key 7) 2) = some b ∧ b.stake.weightVersion = 1 ∧
      a.stake.updateRewards s.treasury = .ok v ∧ v.rewards = 2104 ∧
      b.stake.updateRewards s.treasury = .ok w ∧ w.rewards = 695 ∧
      s'.stakesV2.get (.stakeV2Pda (.key 7) 1) = some { a with stake := z } ∧
      z.rewards = v.rewards + w.rewards ∧ z.balance = 1778 ∧ z.AsDeposited ∧ z.createdAt = 5 ∧
      s'.stakesV2.get (.stakeV2Pda (.key 7) 2) = none := by
  have hok : returns (perform .plain [.buryTokens 100000] (mixedState 0)) (fun s =>
      ((s.stakesV2.get (.stakeV2Pda (.key 7) 1)).any fun a => a.stake.weightVersion = 0 ∧
        a.stake.balance = 1001 ∧
        ((a.stake.updateRewards s.treasury).toOption.any fun v => v.rewards = 2104) = true) &&
      ((s.stakesV2.get (.stakeV2Pda (.key 7) 2)).any fun b => b.stake.weightVersion = 1 ∧
        b.stake.balance = 777 ∧
        ((b.stake.updateRewards s.treasury).toOption.any fun w => w.rewards = 695) = true) &&
      returns (processMergeStakeV2 ⟨1, 5⟩ 1 2 (.signer 7)
        (.writable mintAddress) (.writable (.stakeV2Pda (.key 7) 1))
        (.writable (.associatedTokenAddress (.stakeV2Pda (.key 7) 1) mintAddress))
        (.writable (.stakeV2Pda (.key 7) 2))
        (.writable (.associatedTokenAddress (.stakeV2Pda (.key 7) 2) mintAddress))
        (.writable .treasuryPda) (.program systemProgramId) (.program splTokenId)
        (.program associatedTokenProgramId) s) fun _ => true) = true := by
    decide +kernel
  obtain ⟨s, hs, hstakes⟩ := exists_of_returns hok
  simp only [Bool.and_eq_true] at hstakes
  obtain ⟨⟨hfirst, hsecond⟩, hmerge⟩ := hstakes
  obtain ⟨s', hs', -⟩ := exists_of_returns hmerge
  obtain ⟨a', ha', hlinear⟩ := (Option.any_eq_true _ _).1 hfirst
  obtain ⟨b', hb', hcurved⟩ := (Option.any_eq_true _ _).1 hsecond
  obtain ⟨hversion, hbalance, hearned⟩ := of_decide_eq_true hlinear
  obtain ⟨hversion', hbalance', hearned'⟩ := of_decide_eq_true hcurved
  obtain ⟨a, b, v, w, z, p, q, n, k, m, ha, hb, hz, hsum, -, hcreated, -, hdeposited, hv, hw,
    hrewards, -, -, -, -, -, -, -, -, -, -, -, hgone, -⟩ :=
    mergeStakeV2_deposits _ _ _ _ _ _ _ _ _ _ _ _ _ _ _ hs'
  obtain rfl := Option.some.inj (ha'.symm.trans ha)
  obtain rfl := Option.some.inj (hb'.symm.trans hb)
  rw [hv] at hearned
  rw [hw] at hearned'
  exact ⟨s, s', a', b', v, w, z, hs, ha, hversion, hb, hversion', hv, of_decide_eq_true hearned,
    hw, of_decide_eq_true hearned', hz, hrewards, by rw [hsum, hbalance, hbalance'], hdeposited,
    hcreated, hgone⟩

end Godl
