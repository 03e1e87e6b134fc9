import Godl.Proof.Migration

/-!
# Merging two stakes

A merge computes the new stake and the new total from the two stakes and the treasury, and
then empties and deletes the source.  Each half is described on its own.

## Main definitions

* `StakeV2.combine` — what a merge computes.
* `StakeV2.combine_spec` — the sum of both stakes, settled at the old weights.
* `mergeVaults_spec` — the vault of the source goes into the one of the target.
* `processMergeStakeV2_spec` — the state after a merge.
-/

namespace Godl

open Lib

namespace StakeV2

variable {x x' x'' y z : StakeV2} {t t' u : Treasury} {clock : Clock} {n p q : ℕ}

/-! ## Two stakes into one -/

/-- Both stakes are moved to the square-root curve, settled and folded into one. -/
def combine (target source : StakeV2) (clock : Clock) (treasury : Treasury) :
    Result (StakeV2 × Treasury) := do
  let (target, treasury) ← target.migrateWeight treasury
  let (source, treasury) ← source.migrateWeight treasury
  let target ← target.updateRewards treasury
  let source ← source.updateRewards treasury
  let targetUnits ← target.weightedUnits
  let sourceUnits ← source.weightedUnits
  let prevUnits ← addU64 (.custom .stakeOverflow) targetUnits sourceUnits
  let target ← target.merge source clock
  let newUnits ← target.weightedUnits
  let treasury ← moveTotalStaked treasury prevUnits newUnits
  return (target, treasury)

/-- The sum of two stakes. -/
theorem merge_eq_ok : x.merge y clock = .ok z ↔ x.balance + y.balance < u64Bound ∧
    x.rewards + y.rewards < u64Bound ∧ x.lifetimeRewards + y.lifetimeRewards < u64Bound ∧
    z = { x with
      balance := x.balance + y.balance
      rewards := x.rewards + y.rewards
      lifetimeRewards := x.lifetimeRewards + y.lifetimeRewards
      lockDuration := max x.lockDuration y.lockDuration
      createdAt := clock.unixTimestamp
      multiplier := stakeMultiplier (max x.lockDuration y.lockDuration)
      lastDepositAt := clock.unixTimestamp } := by
  simp only [merge, bind_eq_ok, addU64_eq_ok, pure_eq_ok]
  constructor
  · rintro ⟨_, ⟨hbalance, rfl⟩, _, ⟨hrewards, rfl⟩, _, ⟨hlifetime, rfl⟩, rfl⟩
    exact ⟨hbalance, hrewards, hlifetime, rfl⟩
  · rintro ⟨hbalance, hrewards, hlifetime, rfl⟩
    exact ⟨_, ⟨hbalance, rfl⟩, _, ⟨hrewards, rfl⟩, _, ⟨hlifetime, rfl⟩, rfl⟩

/-- What a merge computes, line by line. -/
theorem combine_eq_ok : x.combine y clock t = .ok (z, u) ↔
    ∃ x₁ t₁ y₁ t₂ x₂ y₂ p q n, x.migrateWeight t = .ok (x₁, t₁) ∧
      y.migrateWeight t₁ = .ok (y₁, t₂) ∧ x₁.updateRewards t₂ = .ok x₂ ∧
      y₁.updateRewards t₂ = .ok y₂ ∧ x₂.weightedUnits = .ok p ∧ y₂.weightedUnits = .ok q ∧
      p + q < u64Bound ∧ x₂.merge y₂ clock = .ok z ∧ z.weightedUnits = .ok n ∧
      moveTotalStaked t₂ (p + q) n = .ok u := by
  simp only [combine, bind_eq_ok, pure_eq_ok, Prod.mk.injEq, Prod.exists, addU64_eq_ok]
  constructor
  · rintro ⟨x₁, t₁, hx₁, y₁, t₂, hy₁, x₂, hx₂, y₂, hy₂, p, hp, q, hq, _, ⟨hfits, rfl⟩, _, hz, n,
      hn, _, hu, rfl, rfl⟩
    exact ⟨x₁, t₁, y₁, t₂, x₂, y₂, p, q, n, hx₁, hy₁, hx₂, hy₂, hp, hq, hfits, hz, hn, hu⟩
  · rintro ⟨x₁, t₁, y₁, t₂, x₂, y₂, p, q, n, hx₁, hy₁, hx₂, hy₂, hp, hq, hfits, hz, hn, hu⟩
    exact ⟨x₁, t₁, hx₁, y₁, t₂, hy₁, x₂, hx₂, y₂, hy₂, p, hp, q, hq, _, ⟨hfits, rfl⟩, z, hz, n,
      hn, u, hu, rfl, rfl⟩

/-- **A stake that is migrated and then settled** is the stake that is settled at its old
weight, on the other curve; the total follows from the old weight to the new one. -/
theorem migrateWeight_settle (h : x.migrateWeight t = .ok (x', t'))
    (hfactor : u.stakeRewardsFactor = t.stakeRewardsFactor)
    (hsettle : x'.updateRewards u = .ok x'') (hunits : x''.weightedUnits = .ok q) :
    ∃ w p, x.updateRewards t = .ok w ∧ x'' = { w with weightVersion := x''.weightVersion } ∧
      x''.weightVersion ≠ 0 ∧ x.weightedUnits = .ok p ∧
      t' = { t with totalStaked := t'.totalStaked } ∧
      t'.totalStaked + p = t.totalStaked + q := by
  by_cases hold : x.weightVersion = 0
  · obtain ⟨w, p, q', hw, hp, hq', ht, rfl⟩ := (migrateWeight_eq_ok hold).1 h
    have hframe := (updateRewards_frame x t).elim hw
    rw [updateRewards_of_settled] at hsettle
    · cases hsettle
      rw [hunits] at hq'
      cases hq'
      obtain ⟨total, rfl, htotal⟩ := (moveTotalStaked_spec t p q).elim ht
      refine ⟨w, p, hw, rfl, one_ne_zero, ?_, rfl, htotal⟩
      rw [← hp, hframe]
      exact weightedUnits_congr rfl rfl rfl rfl
    · rw [hframe, hfactor]
  · rw [migrateWeight_of_ne hold] at h
    cases h
    rw [updateRewards_congr x hfactor] at hsettle
    have hframe := (updateRewards_frame x t).elim hsettle
    refine ⟨x'', q, hsettle, rfl, ?_, ?_, rfl, rfl⟩
    · rw [hframe]
      exact hold
    · rw [← hunits, hframe]
      exact weightedUnits_congr rfl rfl rfl rfl

/-- **What a merge computes**: the sum of both stakes, each settled as it was before, with the
multiplier of the longer lock, and a total that follows from the old weights to the new one. -/
theorem combine_spec (h : x.combine y clock t = .ok (z, u)) :
    ∃ v w p q n version, x.updateRewards t = .ok v ∧ y.updateRewards t = .ok w ∧
      x.weightedUnits = .ok p ∧ y.weightedUnits = .ok q ∧ z.weightedUnits = .ok n ∧
      version ≠ 0 ∧
      z = { v with
        balance := v.balance + w.balance
        rewards := v.rewards + w.rewards
        lifetimeRewards := v.lifetimeRewards + w.lifetimeRewards
        lockDuration := max v.lockDuration w.lockDuration
        createdAt := clock.unixTimestamp
        multiplier := stakeMultiplier (max v.lockDuration w.lockDuration)
        lastDepositAt := clock.unixTimestamp
        weightVersion := version } ∧
      u = { t with totalStaked := u.totalStaked } ∧
      u.totalStaked + p + q = t.totalStaked + n := by
  obtain ⟨x₁, t₁, y₁, t₂, x₂, y₂, p, q, n, hx₁, hy₁, hx₂, hy₂, hp, hq, -, hz, hn, hu⟩ :=
    combine_eq_ok.1 h
  have hfactor : ∀ {x x' : StakeV2} {t t' : Treasury}, x.migrateWeight t = .ok (x', t') →
      t'.stakeRewardsFactor = t.stakeRewardsFactor := by
    intro x x' t t' h
    by_cases hold : x.weightVersion = 0
    · exact (migrateWeight_frame hold h).2
    · rw [migrateWeight_of_ne hold] at h
      cases h
      rfl
  have hsecond := hfactor hy₁
  obtain ⟨v, p', hv, hxv, hversion, hp', ht₁, htotal₁⟩ :=
    migrateWeight_settle hx₁ (hsecond.trans (hfactor hx₁)) hx₂ hp
  obtain ⟨w, q', hw, hyw, -, hq', ht₂, htotal₂⟩ := migrateWeight_settle hy₁ hsecond hy₂ hq
  rw [updateRewards_congr y (hfactor hx₁)] at hw
  obtain ⟨total, rfl, htotal⟩ := (moveTotalStaked_spec t₂ (p + q) n).elim hu
  obtain ⟨-, -, -, rfl⟩ := merge_eq_ok.1 hz
  refine ⟨v, w, p', q', n, x₂.weightVersion, hv, hw, hp', hq', hn, hversion, ?_, ?_, ?_⟩
  · rw [hxv, hyw]
  · rw [ht₂, ht₁]
  · dsimp only at htotal ⊢
    omega

/-- Every version but the first is on the square-root curve. -/
theorem weightedUnits_congr_of_ne (hbalance : x.balance = y.balance)
    (hmultiplier : x.multiplier = y.multiplier) (hnft : x.isNftStaked = y.isNftStaked)
    (hx : x.weightVersion ≠ 0) (hy : y.weightVersion ≠ 0) :
    x.weightedUnits = y.weightedUnits := by
  simp only [weightedUnits, applyMultiplier, getEffectiveMultiplier, hbalance, hmultiplier, hnft,
    if_neg hx, if_neg hy]

end StakeV2

/-! ## Two vaults into one -/

variable {s s' : State} {source target dest : Pubkey} {m n : ℕ}

/-- **The vault of the source goes into the one of the target**, all of it, and is closed. -/
theorem mergeVaults_spec (dest : Pubkey) (hne : target ≠ source)
    (hsource : s.tokens source = some n) (htarget : s.tokens target = some m) :
    Ensures ((if 0 < n then s.transferTokens source target n else pure s) >>= fun s =>
      s.closeTokenAccount source dest) fun s' => s' =
        { s.releaseLamports source dest with
          tokens := Function.update (Function.update s.tokens target (some (m + n)))
            source none } := by
  have hclose : ∀ tok : Pubkey → Option ℕ,
      Function.update tok source none = Function.update (Function.update s.tokens target
        (some (m + n))) source none → Ensures (State.closeTokenAccount { s with tokens := tok }
          source dest) fun s' => s' = { s.releaseLamports source dest with
            tokens := Function.update (Function.update s.tokens target (some (m + n)))
              source none } := by
    intro tok htok
    simp only [State.closeTokenAccount, State.releaseLamports, State.moveLamports, ensures_bind,
      ensures_require, ensures_pure, htok]
    exact fun _ => trivial
  by_cases hn : 0 < n
  · rw [if_pos hn, ensures_bind]
    simp only [State.transferTokens, hsource, ensures_bind, ensures_require, ensures_fromOption,
      ensures_pure, Function.update_of_ne hne, htarget, Option.some.injEq]
    rintro _ rfl _ _ rfl
    refine hclose _ ?_
    rw [Function.update_comm hne, Function.update_idem, Function.update_comm hne.symm]
  · rw [if_neg hn]
    refine hclose s.tokens ?_
    have hzero : n = 0 := by omega
    rw [hzero, Nat.add_zero, ← htarget, Function.update_eq_self]

/-! ## The handler -/

/-- **What a merge leaves**: the combined stake and treasury, the tokens of both vaults in the
one of the target, and nothing of the source. -/
theorem processMergeStakeV2_spec (clock : Clock) (targetId sourceId : ℕ) (signerInfo mintInfo
    targetStakeInfo targetTokensInfo sourceStakeInfo sourceTokensInfo treasuryInfo systemProgram
    tokenProgram associatedTokenProgram : AccountInfo) (s : State) :
    Ensures (processMergeStakeV2 clock targetId sourceId signerInfo mintInfo targetStakeInfo
      targetTokensInfo sourceStakeInfo sourceTokensInfo treasuryInfo systemProgram tokenProgram
      associatedTokenProgram s) fun s' =>
        targetStakeInfo.key ≠ sourceStakeInfo.key ∧ targetTokensInfo.key ≠ sourceTokensInfo.key ∧
        ∃ a b m n z u, s.stakesV2.get targetStakeInfo.key = some a ∧
          s.stakesV2.get sourceStakeInfo.key = some b ∧
          a.stake.isNftStaked = 0 ∧ s.tokens targetTokensInfo.key = some m ∧
          s.tokens sourceTokensInfo.key = some n ∧
          a.stake.combine b.stake clock s.treasury = .ok (z, u) ∧
          s' = { s with
            stakesV2 := (s.stakesV2.put { a with stake := z }).erase sourceStakeInfo.key
            treasury := u
            tokens := Function.update (Function.update s.tokens targetTokensInfo.key
              (some (m + n))) sourceTokensInfo.key none
            lamports := ((s.releaseLamports sourceTokensInfo.key
              signerInfo.key).releaseLamports sourceStakeInfo.key signerInfo.key).lamports } := by
  simp only [processMergeStakeV2, mergeStakeV2, ensures_bind, ensures_require, ensures_fromOption,
    ensures_pure, ensures_addU64]
  intro hids _ _ _ htkey _ hskey _ a ha _ _ _ b hb _ _ _ hstokens n hn httokens m hm _ _ _ hnft _ _
  have hkeys : targetStakeInfo.key ≠ sourceStakeInfo.key := by
    rw [htkey, hskey]
    simpa using hids
  have hne : targetTokensInfo.key ≠ sourceTokensInfo.key := by
    rw [httokens, hstokens]
    simpa using fun h => absurd h hkeys
  intro x hx y hy x' hx' y' hy' p hp q hq hfits z hz w hw u hu
  have hcombine : a.stake.combine b.stake clock s.treasury = .ok (z, u) :=
    StakeV2.combine_eq_ok.2 ⟨x.1, x.2, y.1, y.2, x', y', p, q, w, hx, hy, hx', hy', hp, hq, hfits,
      hz, hw, hu⟩
  -- What is left moves tokens and lamports and deletes the source.
  have hvaults := mergeVaults_spec (s := { s.putStakeV2 a z with treasury := u }) signerInfo.key
    hne hn hm
  simp only [ensures_bind, ensures_ite, ensures_pure, ensures_require,
    ensures_fromOption] at hvaults ⊢
  refine ⟨fun hpos => ?_, fun hzero => ?_⟩
  · refine Ensures.mono (hvaults.1 hpos) fun s₁ hs₁ => Ensures.mono hs₁ ?_
    rintro _ rfl _ _ _ _
    exact ⟨hkeys, hne, a, b, m, n, z, u, ha, hb, hnft.1, hm, hn, hcombine, rfl⟩
  · refine Ensures.mono (hvaults.2 hzero) ?_
    rintro _ rfl _ _ _ _
    exact ⟨hkeys, hne, a, b, m, n, z, u, ha, hb, hnft.1, hm, hn, hcombine, rfl⟩

theorem processMergeStakeV2_signed (clock : Clock) (targetId sourceId : ℕ) (signerInfo mintInfo
    targetStakeInfo targetTokensInfo sourceStakeInfo sourceTokensInfo treasuryInfo systemProgram
    tokenProgram associatedTokenProgram : AccountInfo) (s : State) :
    Ensures (processMergeStakeV2 clock targetId sourceId signerInfo mintInfo targetStakeInfo
      targetTokensInfo sourceStakeInfo sourceTokensInfo treasuryInfo systemProgram tokenProgram
      associatedTokenProgram s) fun _ => signerInfo.isSigner = true := by
  rw [processMergeStakeV2, mergeStakeV2, ensures_bind, ensures_require]
  intro _
  rw [ensures_bind, checkSigner, ensures_require]
  intro hsigner
  exact ensures_of_forall fun _ => hsigner

/-- What a deposit leaves: a stake of the amount, on the terms of its lock. -/
theorem processDepositV2_stake (clock : Clock) (id amount : ℕ) (lockDuration : ℤ) (signerInfo
    mintInfo senderInfo stakeInfo stakeTokensInfo treasuryInfo executorInfo systemProgram
    tokenProgram associatedTokenProgram : AccountInfo) (s : State) :
    Ensures (processDepositV2 clock id amount lockDuration signerInfo mintInfo senderInfo
      stakeInfo stakeTokensInfo treasuryInfo executorInfo systemProgram tokenProgram
      associatedTokenProgram s) fun s' => ∃ d, s'.stakesV2.get stakeInfo.key = some d ∧
        d.stake.balance = amount ∧ d.stake.lockDuration = lockDuration ∧
        d.stake.multiplier = stakeMultiplier lockDuration ∧ d.stake.isNftStaked = 0 ∧
        d.stake.weightVersion ≠ 0 := by
  simp only [processDepositV2, State.transferTokensFrom, ensures_bind, ensures_require,
    ensures_fromOption, ensures_pure]
  intro _ _ _ _ _ _ _ _ _ _ _ _ _ _ hkey
  refine ensures_of_forall fun s₁ => ?_
  refine Ensures.mono (StakeV2.updateRewards_frame _ _) fun x hx => ensures_of_forall fun s₂ => ?_
  rintro ⟨paid, z, t⟩ hdeposit hpaid _
  obtain ⟨y, p, r, hy, -, -, -, hz, -, -⟩ := StakeV2.deposit_eq_ok.1 hdeposit
  have hyx := (StakeV2.updateRewards_frame x _).elim hy
  rw [hyx, hx] at hz
  dsimp only at hpaid
  rw [hpaid] at hz
  refine Ensures.mono (transferTokens_stakesV2 _ _ _ _) fun s₃ hs₃ _ _ _ _ => ?_
  refine ⟨StakeV2Account.derived signerInfo.key id z, ?_, ?_⟩
  · rw [hs₃, hkey]
    exact Store.get_put_self _ (StakeV2Account.derived signerInfo.key id z)
  · rw [StakeV2Account.derived, hz]
    exact ⟨Nat.zero_add amount, rfl, rfl, rfl, one_ne_zero⟩

end Godl
