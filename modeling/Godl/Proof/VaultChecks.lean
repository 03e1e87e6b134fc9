import Godl.Proof.VaultHandlers

/-!
# The closing checks of the stake handlers

Those that fill or empty a vault check at their end that it holds the balance of the stake.  Some
of them assert it, others report an error that they share with other checks; a merge also checks
both vaults before it starts.  While the vaults are backed none of these checks fails.

## Main definitions

* `ProgramError.IsAssertion` — an assertion failed.
* `NoAssertion x` — `x` does not fail on an assertion.
-/

namespace Godl

open Lib

/-- An assertion failed. -/
def ProgramError.IsAssertion (e : ProgramError) : Prop := e = .panic .assertion

/-- A computation that does not fail on an assertion. -/
abbrev NoAssertion {α : Type} (x : Result α) : Prop := Avoids ProgramError.IsAssertion x

variable {s : State} {δ : Pubkey → ℤ}

section Operations

variable (s : State)

@[simp] theorem loadError_noAssertion (k : Pubkey) : ¬ (s.loadError k).IsAssertion := by
  simp [ProgramError.IsAssertion]

@[simp] theorem send_noAssertion (source dest : Pubkey) (n : ℕ) :
    NoAssertion (s.send source dest n) := by
  simp [State.send, ProgramError.IsAssertion]

@[simp] theorem collect_noAssertion (dest : Pubkey) (n : ℕ) (payer : AccountInfo) :
    NoAssertion (s.collect dest n payer) := by
  simp [State.collect, ProgramError.IsAssertion]

@[simp] theorem createAccount_noAssertion (target : AccountInfo) (len : ℕ)
    (payer : AccountInfo) : NoAssertion (s.createAccount target len payer) := by
  simp [State.createAccount, ProgramError.IsAssertion]

@[simp] theorem transferTokens_noAssertion (source dest : Pubkey) (n : ℕ) :
    NoAssertion (s.transferTokens source dest n) := by
  simp [State.transferTokens, ProgramError.IsAssertion]

@[simp] theorem transferTokensFrom_noAssertion (authority : AccountInfo) (source dest : Pubkey)
    (n : ℕ) : NoAssertion (s.transferTokensFrom authority source dest n) := by
  simp [State.transferTokensFrom, ProgramError.IsAssertion]

@[simp] theorem openTokenAccount_noAssertion (info : AccountInfo) (owner mint : Pubkey)
    (payer : AccountInfo) : NoAssertion (s.openTokenAccount info owner mint payer) := by
  simp [State.openTokenAccount, State.createTokenAccount, ProgramError.IsAssertion]

@[simp] theorem burnTokens_noAssertion (source : Pubkey) (n : ℕ) :
    NoAssertion (s.burnTokens source n) := by
  simp [State.burnTokens, ProgramError.IsAssertion]

@[simp] theorem closeTokenAccount_noAssertion (source dest : Pubkey) :
    NoAssertion (s.closeTokenAccount source dest) := by
  simp [State.closeTokenAccount, ProgramError.IsAssertion]

end Operations

/-! ## Stakes -/

@[simp] theorem Stake.withdraw_noAssertion (x : Stake) (amount : ℕ) (clock : Clock)
    (t : Treasury) : NoAssertion (x.withdraw amount clock t) := by
  simp [Stake.withdraw, Stake.updateRewards, ProgramError.IsAssertion]

namespace StakeV2

@[simp] theorem isqrtLoop_noAssertion (n x : ℕ) : NoAssertion (isqrtLoop n x) := by
  fun_induction isqrtLoop n x with
  | case4 x _ _ _ ih => exact ih
  | _ => simp [ProgramError.IsAssertion]

@[simp] theorem weightedUnits_noAssertion (x : StakeV2) : NoAssertion x.weightedUnits := by
  simp [weightedUnits, applyMultiplier, getEffectiveMultiplier, effectiveMultiplier, isqrtU128,
    ProgramError.IsAssertion]

@[simp] theorem updateRewards_noAssertion (x : StakeV2) (t : Treasury) :
    NoAssertion (x.updateRewards t) := by
  simp [updateRewards, ProgramError.IsAssertion]

@[simp] theorem moveTotalStaked_noAssertion (t : Treasury) (p q : ℕ) :
    NoAssertion (moveTotalStaked t p q) := by
  simp [moveTotalStaked, ProgramError.IsAssertion]

@[simp] theorem deposit_noAssertion (x : StakeV2) (amount : ℕ) (clock : Clock) (t : Treasury)
    (sender : ℕ) : NoAssertion (x.deposit amount clock t sender) := by
  simp [deposit, ProgramError.IsAssertion]

@[simp] theorem withdraw_noAssertion (x : StakeV2) (amount : ℕ) (clock : Clock)
    (t : Treasury) : NoAssertion (x.withdraw amount clock t) := by
  simp [withdraw]

@[simp] theorem claim_noAssertion (x : StakeV2) (amount : ℕ) (clock : Clock)
    (t : Treasury) : NoAssertion (x.claim amount clock t) := by
  simp [claim]

@[simp] theorem merge_noAssertion (x y : StakeV2) (clock : Clock) :
    NoAssertion (x.merge y clock) := by
  simp [merge, ProgramError.IsAssertion]

@[simp] theorem migrateWeight_noAssertion (x : StakeV2) (t : Treasury) :
    NoAssertion (x.migrateWeight t) := by
  unfold migrateWeight
  split <;> simp [reweigh]

end StakeV2

/-! ## The handlers -/

theorem processWithdraw_noAssertion (hs : s.VaultsBacked) (clock : Clock) (amount : ℕ) (signerInfo
    mintInfo recipientInfo stakeInfo stakeTokensInfo treasuryInfo systemProgram tokenProgram
    associatedTokenProgram : AccountInfo) :
    NoAssertion (processWithdraw clock amount signerInfo mintInfo recipientInfo stakeInfo
      stakeTokensInfo treasuryInfo systemProgram tokenProgram associatedTokenProgram s) := by
  simp only [processWithdraw, ProgramError.IsAssertion, avoids_bind, avoids_require,
    avoids_fromOption, avoids_pure, ensures_bind, ensures_require, ensures_fromOption,
    ensures_pure, ensures_true, State.loadError_ne_panic, reduceCtorEq, not_false_eq_true,
    implies_true, and_true, true_and,
    openTokenAccount_noAssertion, Stake.withdraw_noAssertion, transferTokens_noAssertion]
  intro _ hmint _ hkey x hx _ htokens _ _ _ _ _ _
  rw [hmint] at htokens ⊢
  refine Ensures.mono (withdrawStake_covers hs clock amount hkey hx htokens) fun s₁ hs₁ => ?_
  refine Ensures.mono hs₁ fun r hr => Ensures.mono hr fun s₂ hs₂ _ n hn hlow => ?_
  exact absurd (hs₂.1.check hs₂.2 htokens hn) hlow

theorem processDepositV2_noAssertion (hs : s.VaultsBacked) (clock : Clock) (id amount : ℕ)
    (lockDuration : ℤ) (signerInfo mintInfo senderInfo stakeInfo stakeTokensInfo treasuryInfo
    executorInfo systemProgram tokenProgram associatedTokenProgram : AccountInfo) :
    NoAssertion (processDepositV2 clock id amount lockDuration signerInfo mintInfo senderInfo
      stakeInfo stakeTokensInfo treasuryInfo executorInfo systemProgram tokenProgram
      associatedTokenProgram s) := by
  simp only [processDepositV2, ProgramError.IsAssertion, avoids_bind, avoids_require,
    avoids_fromOption, avoids_pure, ensures_bind, ensures_require, ensures_fromOption,
    ensures_true, State.loadError_ne_panic, reduceCtorEq, not_false_eq_true, implies_true,
    and_true, true_and,
    createAccount_noAssertion, StakeV2.updateRewards_noAssertion, openTokenAccount_noAssertion,
    StakeV2.deposit_noAssertion, transferTokensFrom_noAssertion]
  intro hsigner hmint _ hsender n _ _ _ _ _ _ _ _ _ hkey
  rw [hmint]
  refine Ensures.mono (fillStakeV2_covers hs clock id amount n stakeTokensInfo (fun t =>
    StakeV2.create id signerInfo.key executorInfo.key lockDuration clock t) (fun _ => rfl) hsigner
    hkey hsender) ?_
  intro s₁ hs₁
  refine Ensures.mono hs₁ fun x hx => Ensures.mono hx fun s₂ hs₂ => Ensures.mono hs₂
    fun r hr _ => ?_
  refine Ensures.mono hr fun s₃ hs₃ htokens n hn hlow => ?_
  exact absurd (hs₃.1.check hs₃.2.1 htokens hn) hlow

theorem processWithdrawV2_noAssertion (hs : s.VaultsBacked) (clock : Clock) (id amount : ℕ)
    (signerInfo mintInfo recipientInfo stakeInfo stakeTokensInfo treasuryInfo systemProgram
    tokenProgram associatedTokenProgram : AccountInfo) :
    NoAssertion (processWithdrawV2 clock id amount signerInfo mintInfo recipientInfo stakeInfo
      stakeTokensInfo treasuryInfo systemProgram tokenProgram associatedTokenProgram s) := by
  simp only [processWithdrawV2, ProgramError.IsAssertion, avoids_bind, avoids_require,
    avoids_fromOption, avoids_pure, ensures_bind, ensures_require, ensures_fromOption,
    ensures_pure, ensures_true, State.loadError_ne_panic, reduceCtorEq, not_false_eq_true,
    implies_true, and_true, true_and,
    StakeV2.migrateWeight_noAssertion, openTokenAccount_noAssertion, StakeV2.withdraw_noAssertion,
    transferTokens_noAssertion]
  intro _ hmint _ hkey a ha _ _ htokens _ _ _ _ _ _
  rw [hmint] at htokens ⊢
  refine Ensures.mono (withdrawStakeV2_covers hs clock id amount recipientInfo hkey ha htokens) ?_
  intro p hp _ _
  refine Ensures.mono hp fun s₁ hs₁ => Ensures.mono hs₁ fun r hr => ?_
  refine Ensures.mono hr fun s₂ hs₂ _ n hn hlow => ?_
  exact absurd (hs₂.1.check hs₂.2 htokens hn) hlow

/-! ## Checks that report an error -/

theorem topUpStakeV2_noAssertion (hs : s.VaultsBacked) (clock : Clock) (id amount : ℕ)
    (signerInfo mintInfo senderInfo stakeInfo stakeTokensInfo treasuryInfo systemProgram
    tokenProgram associatedTokenProgram : AccountInfo) :
    NoAssertion (topUpStakeV2 (.panic .assertion) clock id amount signerInfo mintInfo senderInfo
      stakeInfo stakeTokensInfo treasuryInfo systemProgram tokenProgram associatedTokenProgram
      s) := by
  simp only [topUpStakeV2, ProgramError.IsAssertion, avoids_bind, avoids_require,
    avoids_fromOption, avoids_pure, ensures_bind, ensures_require, ensures_fromOption,
    ensures_pure, ensures_true, State.loadError_ne_panic, reduceCtorEq, not_false_eq_true,
    implies_true, and_true, true_and, not_true_eq_false, imp_false, not_not,
    StakeV2.migrateWeight_noAssertion, StakeV2.deposit_noAssertion,
    transferTokensFrom_noAssertion]
  intro hsigner hmint _ hsender n _ _ hkey _ _ a ha _ _ _ _ _ _ _
  refine Ensures.mono (StakeV2.migrateWeight_grown _ _) fun p hp htokens _ _ => ?_
  rw [hmint] at htokens ⊢
  refine Ensures.mono (topUpStakeV2_covers hs clock amount n hsigner hkey ha hsender htokens hp.2
    p.2) fun r hr _ => ?_
  exact Ensures.mono hr fun s₁ hs₁ _ m hm => hs₁.1.check hs₁.2 htokens hm

theorem compoundYieldV2_noAssertion (hs : s.VaultsBacked) (clock : Clock) (id : ℕ) (signerInfo
    mintInfo stakeInfo stakeTokensInfo treasuryInfo treasuryTokensInfo systemProgram tokenProgram
    associatedTokenProgram : AccountInfo) :
    NoAssertion (compoundYieldV2 (.panic .assertion) clock id signerInfo mintInfo stakeInfo
      stakeTokensInfo treasuryInfo treasuryTokensInfo systemProgram tokenProgram
      associatedTokenProgram s) := by
  simp only [compoundYieldV2, ProgramError.IsAssertion, avoids_bind, avoids_require,
    avoids_fromOption, avoids_pure, ensures_bind, ensures_require, ensures_fromOption,
    ensures_true, ensures_pure, State.loadError_ne_panic, reduceCtorEq, not_false_eq_true,
    implies_true, and_true, true_and, not_true_eq_false, imp_false, not_not, avoids_ite,
    StakeV2.migrateWeight_noAssertion, StakeV2.claim_noAssertion, StakeV2.deposit_noAssertion,
    transferTokens_noAssertion, burnTokens_noAssertion]
  intro _ _ _ _ hmint _ _ htreasury _ _ _ a ha _ _ hkey hstokens _ _ httokens _ _
  rw [hmint] at hstokens httokens
  rw [htreasury.1] at httokens
  refine Ensures.mono (StakeV2.migrateWeight_grown _ _) fun p hp => ?_
  refine Ensures.mono (StakeV2.claim_grown _ _ _ _) fun q hq _ => ?_
  have hbalance : q.2.balance = a.stake.balance := hq.2.2.2.trans hp.2
  refine ⟨fun _ => ?_, fun _ => ?_⟩
  · refine Ensures.mono (burnTokens_vaults hs.covers _ httokens) ?_
    rintro s₁ ⟨tok, supply, rfl, hburned⟩
    refine Ensures.mono (compoundYieldV2_covers hburned rfl clock _ p.2 hkey ha hstokens httokens
      hbalance) fun s₂ hs₂ _ n hn => ?_
    exact Ensures.mono (hs₂ n hn) fun r hr => hr.2
  · refine Ensures.mono (compoundYieldV2_covers hs.covers rfl clock _ p.2 hkey ha hstokens httokens
      hbalance) fun s₂ hs₂ _ n hn => ?_
    exact Ensures.mono (hs₂ n hn) fun r hr => hr.2

/-- The checks of a merge before it starts are those that backed vaults pass. -/
theorem mergeStakeV2_noAssertion (hs : s.VaultsBacked) (clock : Clock) (targetId sourceId : ℕ)
    (signerInfo mintInfo targetStakeInfo targetTokensInfo sourceStakeInfo sourceTokensInfo
    treasuryInfo systemProgram tokenProgram associatedTokenProgram : AccountInfo) :
    NoAssertion (mergeStakeV2 (.panic .assertion) clock targetId sourceId signerInfo mintInfo
      targetStakeInfo targetTokensInfo sourceStakeInfo sourceTokensInfo treasuryInfo systemProgram
      tokenProgram associatedTokenProgram s) := by
  have hadd : ¬ ProgramError.IsAssertion (.custom .stakeOverflow) := by
    simp [ProgramError.IsAssertion]
  simp only [mergeStakeV2, ProgramError.IsAssertion, avoids_bind, avoids_require,
    avoids_fromOption, avoids_pure, ensures_bind, ensures_require, ensures_fromOption,
    ensures_pure, ensures_true, State.loadError_ne_panic, reduceCtorEq, not_false_eq_true,
    implies_true, and_true, true_and, not_true_eq_false, imp_false, not_not,
    StakeV2.migrateWeight_noAssertion, StakeV2.updateRewards_noAssertion,
    StakeV2.weightedUnits_noAssertion, StakeV2.moveTotalStaked_noAssertion,
    StakeV2.merge_noAssertion, avoids_addU64 hadd, ensures_addU64]
  intro hids _ hmint _ htkey _ hskey _ a ha _ _ _ b hb _ _ _ hstokens n hn httokens m hm _ _ _ _
  rw [hmint] at hstokens httokens
  have hkeys : targetStakeInfo.key ≠ sourceStakeInfo.key := by
    rw [htkey, hskey]
    simpa using hids
  have hne : targetTokensInfo.key ≠ sourceTokensInfo.key := by
    rw [httokens, hstokens]
    simpa using fun h => absurd h hkeys
  have hfull : a.stake.balance ≤ m :=
    hs.check (by rw [htkey] at ha ⊢; exact State.vaulted_of_stakesV2 ha) httokens hm
  have hfull' : b.stake.balance ≤ n :=
    hs.check (by rw [hskey] at hb ⊢; exact State.vaulted_of_stakesV2 hb) hstokens hn
  refine ⟨hfull, fun _ => ⟨hfull', fun _ => ?_⟩⟩
  intro x hx y hy x' hx' y' hy' p hp q hq hfits z hz w hw u hu
  have hcombine : a.stake.combine b.stake clock s.treasury = .ok (z, u) :=
    StakeV2.combine_eq_ok.2 ⟨x.1, x.2, y.1, y.2, x', y', p, q, w, hx, hy, hx', hy', hp, hq, hfits,
      hz, hw, hu⟩
  have hbalance := StakeV2.combine_balance hcombine
  have hvaults := mergeVaults_spec (s := { s.putStakeV2 a z with treasury := u }) signerInfo.key
    hne hn hm
  -- What is left moves tokens and lamports and deletes the source.
  have hlast : ∀ s₁ : State, s₁.tokens = Function.update (Function.update s.tokens
      targetTokensInfo.key (some (m + n))) sourceTokensInfo.key none → ∀ k,
        (closeStakeV2Account sourceStakeInfo signerInfo.key s₁).tokens targetTokensInfo.key =
          some k → z.balance ≤ k := by
    intro s₁ hs₁ k hk
    have htokens : s₁.tokens targetTokensInfo.key = some k := hk
    rw [hs₁, Function.update_of_ne hne, Function.update_self, Option.some.injEq] at htokens
    omega
  simp only [ensures_bind, ensures_ite, ensures_pure, avoids_ite, avoids_bind,
    transferTokens_noAssertion, closeTokenAccount_noAssertion, avoids_pure, ensures_require,
    ensures_fromOption, avoids_require, avoids_fromOption, ProgramError.IsAssertion, reduceCtorEq,
    not_false_eq_true, not_true_eq_false, imp_false, not_not, implies_true, and_true,
    true_and] at hvaults ⊢
  refine ⟨fun hpos => ?_, fun hzero => ?_⟩
  · refine Ensures.mono (hvaults.1 hpos) fun s₁ hs₁ => Ensures.mono hs₁ fun s₂ hs₂ _ => ?_
    exact hlast s₂ (by rw [hs₂]; rfl)
  · refine Ensures.mono (hvaults.2 hzero) fun s₂ hs₂ _ => ?_
    exact hlast s₂ (by rw [hs₂]; rfl)

/-! ## The trade -/

theorem checkOtcTrade_noAssertion (clock : Clock) (args : OtcTradeArgs) (a : OtcTradeAccounts)
    (s : State) : NoAssertion (checkOtcTrade clock args a s) := by
  simp [checkOtcTrade, checkGoldVault, ProgramError.IsAssertion]

theorem bookOtcTrade_noAssertion (args : OtcTradeArgs) (a : OtcTradeAccounts) (n : ℕ)
    (s : State) : NoAssertion (bookOtcTrade args a n s) := by
  simp [bookOtcTrade, ProgramError.IsAssertion]

theorem openMiner_noAssertion (minerInfo : AccountInfo) (authority : Pubkey) (payer : AccountInfo)
    (s : State) : NoAssertion (openMiner .invalidAccountData minerInfo authority payer s) := by
  unfold openMiner
  split <;> simp [ProgramError.IsAssertion]

theorem openOtcUser_noAssertion (a : OtcTradeAccounts) (s : State) :
    NoAssertion (openOtcUser a s) := by
  unfold openOtcUser
  split <;> simp [ProgramError.IsAssertion]

theorem openOtcStake_noAssertion (clock : Clock) (args : OtcTradeArgs) (a : OtcTradeAccounts)
    (n : ℕ) (s : State) : NoAssertion (openOtcStake clock args a n s) := by
  simp [openOtcStake, ProgramError.IsAssertion]

theorem payOtcBonus_noAssertion (args : OtcTradeArgs) (a : OtcTradeAccounts) (m : Miner)
    (s : State) : NoAssertion (payOtcBonus args a m s) := by
  have hsync : ∀ extended (m : Miner) (s : State),
      NoAssertion (syncGoldRewards extended m s) := by
    intro extended m s
    cases extended <;> simp [syncGoldRewards, MinerExtended.updateRewards, ProgramError.IsAssertion]
  unfold payOtcBonus
  split <;> simp [creditUnrefined, loadOrCreateMinerExtended, Miner.updateRewards, hsync,
    ProgramError.IsAssertion]

theorem processExecuteOtcTrade_noAssertion (hs : s.VaultsBacked) (clock : Clock)
    (args : OtcTradeArgs) (a : OtcTradeAccounts) :
    NoAssertion (processExecuteOtcTrade clock args a s) := by
  have hadd : ¬ ProgramError.arithmeticOverflow.IsAssertion := by simp [ProgramError.IsAssertion]
  have hdata : ¬ ProgramError.invalidAccountData.IsAssertion := by simp [ProgramError.IsAssertion]
  have howner : ¬ ProgramError.invalidAccountOwner.IsAssertion := by simp [ProgramError.IsAssertion]
  simp only [processExecuteOtcTrade, avoids_bind, checkOtcTrade_noAssertion,
    bookOtcTrade_noAssertion, openMiner_noAssertion, openOtcUser_noAssertion,
    openOtcStake_noAssertion, payOtcBonus_noAssertion, avoids_addU64 hadd, avoids_require,
    avoids_fromOption, avoids_pure, true_and, and_true, implies_true, ensures_addU64, ensures_bind,
    ensures_require, ensures_fromOption, ensures_true, hdata, howner, not_false_eq_true]
  refine Ensures.mono ((checkOtcTrade_accounts clock args a s).and
    (checkOtcTrade_stake clock args a s)) fun n hn => ?_
  obtain ⟨⟨-, hmint, hotc, htreasury⟩, hkey⟩ := hn
  refine Ensures.mono (otcTrade_covers hs clock args hmint hotc htreasury hkey n) fun s₁ hs₁ => ?_
  refine Ensures.mono hs₁ fun p hp => Ensures.mono hp fun q hq => Ensures.mono hq fun r hr => ?_
  refine Ensures.mono hr fun w hw _ _ _ htokens k hk hlow => ?_
  rw [hmint] at htokens
  exact absurd (hw.1.check hw.2 htokens hk) hlow

end Godl
