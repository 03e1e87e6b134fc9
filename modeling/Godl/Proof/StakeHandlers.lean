import Godl.Proof.StakeTerms

/-!
# Instructions on stakes

Every instruction that touches a stake settles it at its old weight, moves the
treasury's total by what the weight changed, and pays no more than the stake was owed.
What it pays is what leaves the treasury's token account.
-/

namespace Godl

open Lib

variable {s : State}

/-! ## Addresses -/

/-- The vault of an account that is neither the treasury nor the gold vault is no vault of
a book. -/
theorem tokens_not_isVault {owner mint : Pubkey} (htreasury : owner ≠ .treasuryPda)
    (hgold : owner ≠ .goldVaultPda) : ¬ IsVault (.associatedTokenAddress owner mint) := by
  rintro (h | h)
  · injection h with howner
    exact htreasury howner
  · injection h with howner
    exact hgold howner

/-- The treasury's GODL is not the gold vault's XAUt0. -/
theorem treasuryTokens_ne_goldTokens {k owner mint : Pubkey}
    (hkey : k = .associatedTokenAddress owner mint) (howner : owner = Singleton.treasury.pda) :
    k ≠ goldVaultXautAddress := by
  rw [hkey, howner]
  simp [Singleton.pda]

/-- A v2 stake lives at no address of a round, and its tokens are in no vault. -/
theorem stakeV2_isStakeAddress {k : Pubkey} {a : StakeV2Account}
    (h : s.stakesV2.get k = some a) : k.isStakeAddress = true := by
  rw [← s.stakesV2.key_of_get k a h]
  exact a.isStakeAddress_address

theorem stakeV2_not_isRound {k : Pubkey} {a : StakeV2Account}
    (h : s.stakesV2.get k = some a) : ¬ IsRound k := by
  have hk := stakeV2_isStakeAddress h
  rintro ⟨id, rfl⟩
  cases hk

theorem stakeV2Tokens_not_isVault {k mint : Pubkey} {a : StakeV2Account}
    (h : s.stakesV2.get k = some a) : ¬ IsVault (.associatedTokenAddress k mint) := by
  have hk := stakeV2_isStakeAddress h
  refine tokens_not_isVault ?_ ?_ <;>
  · rintro rfl
    cases hk

/-- The effect of an instruction on stakes that pays what it takes out of the treasury. -/
def StakeEffect (s s' : State) : Prop := ∃ paid, StakeStep s s' paid paid

section

variable {clock : Clock} {compounds : Prop} {merges : Pubkey → Pubkey → Prop} {s' : State}

/-- The account of a stake lives at its own address. -/
theorem stakeV2_get_address {k : Pubkey} {a : StakeV2Account} (h : s.stakesV2.get k = some a) :
    s.stakesV2.get a.address = some a := by
  rw [s.stakesV2.key_of_get k a h, h]

/-- A stake that an instruction changed, with its state after the rest of the instruction. -/
theorem stakesV2Step_called {k : Pubkey} {a : StakeV2Account} {x' : StakeV2}
    (hget : s.stakesV2.get k = some a) (hstakes : s'.stakesV2 = (s.putStakeV2 a x').stakesV2)
    (hcalled : a.stake.Called clock compounds s.treasury.stakeRewardsFactor x') :
    StakesV2Step clock compounds merges s s' :=
  .called (stakeV2_get_address hget) hstakes hcalled

end

/-! ## Version 1 -/

theorem processWithdraw_step (clock : Clock) (amount : ℕ) (signerInfo mintInfo recipientInfo
    stakeInfo stakeTokensInfo treasuryInfo systemProgram tokenProgram
    associatedTokenProgram : AccountInfo) (s : State) :
    Ensures (processWithdraw clock amount signerInfo mintInfo recipientInfo stakeInfo
      stakeTokensInfo treasuryInfo systemProgram tokenProgram associatedTokenProgram s)
      fun s' => StakeEffect s s' ∧ s'.stakesV2 = s.stakesV2 := by
  simp only [processWithdraw, ensures_bind, ensures_require, ensures_fromOption, ensures_pure]
  intro _ _ _ hkey x hx _ htokens _ _ _ _ _ _
  refine Ensures.mono (openTokenAccount_quiet s _ _ _ _) fun s₁ hs₁ => ?_
  obtain ⟨_, hs₁⟩ := hs₁
  refine Ensures.mono (Stake.withdraw_spec x amount clock s₁.treasury) ?_
  rintro ⟨paid, x', t⟩ ⟨hauth, hturn⟩
  have hget : s₁.stakes.get stakeInfo.key = some x := by rw [hs₁.stakes.stakes, hx]
  have hstep := hs₁.step (stakeStep_put hget hauth hturn)
  have hvault : ¬ IsVault stakeTokensInfo.key := by
    rw [htokens]
    refine tokens_not_isVault ?_ ?_ <;> simp [hkey]
  refine Ensures.mono (transferTokens_quiet _ _ hvault) fun s₂ hs₂ _ _ _ _ => ?_
  exact ⟨⟨0, hstep.quiet hs₂⟩, hs₂.stakes.stakesV2.trans hs₁.stakes.stakesV2⟩

theorem processClaimYield_step (clock : Clock) (amount : ℕ) (signerInfo mintInfo recipientInfo
    stakeInfo treasuryInfo treasuryTokensInfo systemProgram tokenProgram
    associatedTokenProgram : AccountInfo) (s : State) :
    Ensures (processClaimYield clock amount signerInfo mintInfo recipientInfo stakeInfo
      treasuryInfo treasuryTokensInfo systemProgram tokenProgram associatedTokenProgram s)
      fun s' => StakeEffect s s' ∧ s'.stakesV2 = s.stakesV2 := by
  simp only [processClaimYield, ensures_bind, ensures_require, ensures_fromOption, ensures_pure]
  intro _ _ _ _ x hx _ htreasury _ htokens _ _ _ _ _
  refine Ensures.mono (openTokenAccount_quiet s _ _ _ _) fun s₁ hs₁ => ?_
  obtain ⟨_, hs₁⟩ := hs₁
  refine Ensures.mono (Stake.claim_spec x amount clock s₁.treasury) ?_
  rintro ⟨paid, x'⟩ ⟨hauth, hturn⟩
  have hget : s₁.stakes.get stakeInfo.key = some x := by rw [hs₁.stakes.stakes, hx]
  have hstep := hs₁.step (stakeStep_put hget hauth hturn)
  have hsource := treasuryTokens_ne_goldTokens htokens htreasury.1
  refine Ensures.mono (transferTokens_drains _ _ hsource) fun s₂ hs₂ =>
    ⟨⟨paid, ?_⟩, hs₂.stakes.stakesV2.trans hs₁.stakes.stakesV2⟩
  have h := hstep.drains hs₂
  rwa [Nat.zero_add] at h

/-! ## Version 2 -/

/-- A new stake weighs nothing and is owed nothing. -/
theorem create_spec (id : ℕ) (authority executor : Pubkey) (lockDuration : ℤ) (clock : Clock)
    (t : Treasury) :
    Ensures ((StakeV2.create id authority executor lockDuration clock t).updateRewards t)
      fun x => x.units = 0 ∧ x.rewards = 0 := by
  refine Ensures.mono (StakeV2.updateRewards_spec _ t) fun x hpos => ?_
  obtain ⟨_, hbalance, hpos⟩ := hpos
  refine ⟨StakeV2.units_of_balance_eq_zero hbalance, ?_⟩
  have hreward : x.rewards = _ := congrArg Position.reward hpos
  rw [hreward, Position.settle_of_le]
  · rfl
  · exact le_refl _

/-- A new stake is filled: from `s` to the state after both writes. -/
theorem create_step {a : StakeV2Account} {x' : StakeV2} {t : Treasury} {l : Pubkey → ℕ}
    {tok : Pubkey → Option ℕ} (hget : s.stakesV2.get a.address = none)
    (hunits : a.stake.units = 0) (hrewards : a.stake.rewards = 0) (hweighs : a.stake.Weighs)
    (hl : Grew IsDerived s.lamports l) (htok : balances tok = balances s.tokens)
    (hturn : StakeV2.Turn a.stake s.treasury x' t 0) :
    StakeStep s { ({ s with
      stakesV2 := s.stakesV2.put a
      lamports := l
      tokens := tok } : State).putStakeV2 a x' with treasury := t } 0 0 := by
  have hnew : StakeStep s { s with stakesV2 := s.stakesV2.put a } 0 0 :=
    (restaked_putV2_new hget hunits hweighs hrewards).stakeStep rfl
  have hopen : Quiet { s with stakesV2 := s.stakesV2.put a }
      { s with stakesV2 := s.stakesV2.put a, lamports := l, tokens := tok } :=
    quiet_funds (hl.mono fun _ => isDerived_of_isRound) (by rw [htok]; exact Grew.refl _ _)
  exact (hnew.quiet hopen).trans (stakeStep_putV2 (Store.get_put_self s.stakesV2 a) hturn)

/-- A stake is created on the terms of its lock, and filled. -/
theorem create_fresh {id : ℕ} {authority executor : Pubkey} {lockDuration : ℤ} {clock : Clock}
    {t : Treasury} {x x' : StakeV2} {F : Numeric}
    (hx : StakeV2.Kept t.stakeRewardsFactor
      (StakeV2.create id authority executor lockDuration clock t) x)
    (hx' : StakeV2.Kept F x x') : x'.Fresh clock := by
  refine ⟨?_, ?_⟩
  · rw [hx'.createdAt, hx.createdAt]
    rfl
  · rw [hx'.multiplier, hx.multiplier, hx'.lockDuration, hx.lockDuration]
    rfl

/-- A stake is created when it was credited with nothing yet. -/
theorem create_uncredited (id : ℕ) (authority executor : Pubkey) (lockDuration : ℤ)
    (clock : Clock) (t : Treasury) : StakeV2.Uncredited t.stakeRewardsFactor
      (StakeV2.create id authority executor lockDuration clock t) := ⟨rfl, rfl⟩

theorem processDepositV2_step (clock : Clock) (id amount : ℕ) (lockDuration : ℤ) (signerInfo
    mintInfo senderInfo stakeInfo stakeTokensInfo treasuryInfo executorInfo systemProgram
    tokenProgram associatedTokenProgram : AccountInfo) (compounds : Prop)
    (merges : Pubkey → Pubkey → Prop) (s : State) :
    Ensures (processDepositV2 clock id amount lockDuration signerInfo mintInfo senderInfo
      stakeInfo stakeTokensInfo treasuryInfo executorInfo systemProgram tokenProgram
      associatedTokenProgram s) fun s' =>
        StakeEffect s s' ∧ StakesV2Step clock compounds merges s s' := by
  simp only [processDepositV2, ensures_bind, ensures_require, ensures_fromOption, ensures_pure]
  intro _ _ _ hsender _ _ _ _ _ _ _ _ _ hempty hkey
  have hget := (State.noData hempty).stakesV2
  refine Ensures.mono (State.createAccount_spec s _ _ _) ?_
  rintro _ ⟨-, l, rfl, -, hl⟩
  have hcreate : Quiet s { s with lamports := l } :=
    quiet_lamports (hl.mono fun _ => isDerived_of_isRound)
  refine Ensures.mono ((create_spec _ _ _ _ _ _).and (StakeV2.updateRewards_kept _ _))
    fun x hx => ?_
  obtain ⟨⟨hunits, hrewards⟩, hcreated, -⟩ := hx
  refine Ensures.mono (State.openTokenAccount_spec _ _ _ _ _) ?_
  rintro _ ⟨-, l', tok, rfl, hl', htok⟩
  refine Ensures.mono ((StakeV2.deposit_spec _ _ _ _ _).and (StakeV2.deposit_kept _ _ _ _ _)) ?_
  rintro ⟨paid, x', t⟩ ⟨⟨hweighs, hturn⟩, hfilled⟩ _
  rw [hkey] at hget
  have hstep := hcreate.step (create_step (s := { s with lamports := l })
    (a := StakeV2Account.derived signerInfo.key id x) hget hunits hrewards hweighs hl' htok hturn)
  refine Ensures.mono (transferTokensFrom_quiet _ _ hsender) fun s₂ hs₂ _ _ _ _ => ?_
  refine ⟨⟨0, hstep.quiet hs₂⟩, ?_⟩
  exact .created (a := StakeV2Account.derived signerInfo.key id x') hget
    (hs₂.stakes.stakesV2.trans (Store.put_put _ rfl)) (create_fresh hcreated hfilled)
    (hfilled.uncredited (hcreated.uncredited (create_uncredited _ _ _ _ _ _)))

theorem processWithdrawV2_step (clock : Clock) (id amount : ℕ) (signerInfo mintInfo
    recipientInfo stakeInfo stakeTokensInfo treasuryInfo systemProgram tokenProgram
    associatedTokenProgram : AccountInfo) (compounds : Prop) (merges : Pubkey → Pubkey → Prop)
    (s : State) :
    Ensures (processWithdrawV2 clock id amount signerInfo mintInfo recipientInfo stakeInfo
      stakeTokensInfo treasuryInfo systemProgram tokenProgram associatedTokenProgram s) fun s' =>
        StakeEffect s s' ∧ StakesV2Step clock compounds merges s s' := by
  simp only [processWithdrawV2, ensures_bind, ensures_require, ensures_fromOption, ensures_pure]
  intro _ _ _ _ a ha _ _ htokens _ _ _ _ _ _
  refine Ensures.mono ((StakeV2.migrateWeight_spec _ _).and (StakeV2.migrateWeight_kept _ _)) ?_
  rintro ⟨y, t⟩ ⟨hmigrate, hmigrated, hsame⟩ _ _
  refine Ensures.mono (State.openTokenAccount_spec _ _ _ _ _) ?_
  rintro _ ⟨-, l, tok, rfl, hl, htok⟩
  have hopen : Quiet s { s with lamports := l, tokens := tok } :=
    quiet_funds (hl.mono fun _ => isDerived_of_isRound) (by rw [htok]; exact Grew.refl _ _)
  refine Ensures.mono ((StakeV2.withdraw_spec _ _ _ _).and (StakeV2.withdraw_kept _ _ _ _)) ?_
  rintro ⟨paid, x', t'⟩ ⟨hwithdraw, hwithdrawn, hle⟩
  have hstep := hopen.step (stakeStep_putV2 (s := { s with lamports := l, tokens := tok }) ha
    (hmigrate.trans hwithdraw))
  have hvault : ¬ IsVault stakeTokensInfo.key := by
    rw [htokens]
    exact stakeV2Tokens_not_isVault ha
  refine Ensures.mono (transferTokens_quiet _ _ hvault) fun s₂ hs₂ _ _ _ _ => ?_
  dsimp only at hmigrated hsame hwithdrawn hle hmigrate
  rw [hmigrate.turn.factor] at hwithdrawn
  exact ⟨⟨0, hstep.quiet hs₂⟩, stakesV2Step_called ha hs₂.stakes.stakesV2
    ((hmigrated.trans hwithdrawn).called fun _ => hle.trans hsame.le)⟩

theorem processClaimYieldV2_step (clock : Clock) (id amount : ℕ) (signerInfo mintInfo
    recipientInfo stakeInfo treasuryInfo treasuryTokensInfo systemProgram tokenProgram
    associatedTokenProgram : AccountInfo) (compounds : Prop) (merges : Pubkey → Pubkey → Prop)
    (s : State) :
    Ensures (processClaimYieldV2 clock id amount signerInfo mintInfo recipientInfo stakeInfo
      treasuryInfo treasuryTokensInfo systemProgram tokenProgram associatedTokenProgram s)
      fun s' => StakeEffect s s' ∧ StakesV2Step clock compounds merges s s' := by
  simp only [processClaimYieldV2, ensures_bind, ensures_require, ensures_fromOption,
    ensures_pure]
  intro _ _ _ _ a ha _ _ htreasury _ htokens _ _ _ _ _
  refine Ensures.mono (openTokenAccount_quiet s _ _ _ _) fun s₁ hs₁ => ?_
  obtain ⟨_, hs₁⟩ := hs₁
  refine Ensures.mono ((StakeV2.claim_spec _ _ _ _).and (StakeV2.claim_kept _ _ _ _)) ?_
  rintro ⟨paid, x'⟩ ⟨hturn, hclaimed, hsame⟩
  have hget : s₁.stakesV2.get stakeInfo.key = some a := by rw [hs₁.stakes.stakesV2, ha]
  have hstep := hs₁.step (stakeStep_putV2 hget hturn)
  have hsource := treasuryTokens_ne_goldTokens htokens htreasury.1
  refine Ensures.mono (transferTokens_drains _ _ hsource) fun s₂ hs₂ => ?_
  have h := hstep.drains hs₂
  rw [Nat.zero_add] at h
  rw [hs₁.stakes.factor] at hclaimed
  refine ⟨⟨paid, h⟩, stakesV2Step_called ha ?_ (hclaimed.called fun _ => hsame.le)⟩
  rw [hs₂.stakes.stakesV2, State.putStakeV2, State.putStakeV2, hs₁.stakes.stakesV2]

theorem processCompoundYieldV2_step (clock : Clock) (id : ℕ) (signerInfo mintInfo stakeInfo
    stakeTokensInfo treasuryInfo treasuryTokensInfo systemProgram tokenProgram
    associatedTokenProgram : AccountInfo) (merges : Pubkey → Pubkey → Prop) (s : State) :
    Ensures (processCompoundYieldV2 clock id signerInfo mintInfo stakeInfo stakeTokensInfo
      treasuryInfo treasuryTokensInfo systemProgram tokenProgram associatedTokenProgram s)
      fun s' => StakeEffect s s' ∧ StakesV2Step clock True merges s s' := by
  simp only [processCompoundYieldV2, compoundYieldV2, ensures_bind, ensures_require,
    ensures_fromOption]
  intro _ _ _ _ _ _ _ htreasury _ _ _ a ha _ _ _ _ _ _ htokens _ _
  have hsource := treasuryTokens_ne_goldTokens htokens htreasury.1
  refine Ensures.mono ((StakeV2.migrateWeight_spec _ _).and (StakeV2.migrateWeight_kept _ _)) ?_
  rintro ⟨y, t⟩ ⟨hmigrate, hmigrated, -⟩
  refine Ensures.mono ((StakeV2.claim_spec _ _ _ _).and (StakeV2.claim_kept _ _ _ _)) ?_
  rintro ⟨compounded, x⟩ ⟨hclaim, hpaid, -⟩ _
  dsimp only at hmigrate hclaim hmigrated hpaid
  have hclaimed := hmigrate.trans hclaim
  have hfinish : ∀ s₁ s₂ (r : ℕ × StakeV2 × Treasury), Drains s s₁ (compounded / 100) →
      s₁.treasury = s.treasury → Drains s₁ s₂ (compounded - compounded / 100) →
      s₂.treasury = s₁.treasury → StakeV2.Turn x t r.2.1 r.2.2 0 →
      StakeV2.Kept t.stakeRewardsFactor x r.2.1 →
      StakeEffect s { s₂.putStakeV2 a r.2.1 with treasury := r.2.2 } ∧
        StakesV2Step clock True merges s { s₂.putStakeV2 a r.2.1 with treasury := r.2.2 } := by
    intro s₁ s₂ r hs₁ ht₁ hs₂ ht₂ hdeposit hdeposited
    have hdrain := hs₁.trans hs₂
    have hget : s₂.stakesV2.get stakeInfo.key = some a := by rw [hdrain.stakes.stakesV2, ha]
    have hturn := hclaimed.trans hdeposit
    rw [← ht₁, ← ht₂] at hturn
    rw [hmigrate.turn.factor] at hpaid hdeposited
    refine ⟨⟨compounded, ?_⟩, stakesV2Step_called ha ?_
      (((hmigrated.trans hpaid).trans hdeposited).called fun h => absurd trivial h)⟩
    · have hstep := hdrain.stakeStep.trans (stakeStep_putV2 hget hturn)
      have hout : compounded / 100 + (compounded - compounded / 100) = compounded := by omega
      simpa [hout] using hstep
    · rw [State.putStakeV2, State.putStakeV2, hdrain.stakes.stakesV2]
  simp only [ensures_ite, ensures_bind, ensures_require, ensures_fromOption, ensures_pure]
  refine ⟨fun _ => ?_, fun hzero => ?_⟩
  · refine Ensures.mono ((burnTokens_drains _ hsource).and (State.burnTokens_treasury _ _ _))
      fun s₁ ht₁ => ?_
    obtain ⟨hs₁, ht₁⟩ := ht₁
    refine Ensures.mono ((transferTokens_drains _ _ hsource).and
      (State.transferTokens_treasury _ _ _ _)) fun s₂ ht₂ _ n _ => ?_
    obtain ⟨hs₂, ht₂⟩ := ht₂
    exact Ensures.mono ((StakeV2.deposit_spec _ _ _ _ _).and (StakeV2.deposit_kept _ _ _ _ _))
      fun r hr _ => hfinish s₁ s₂ r hs₁ ht₁ hs₂ ht₂ hr.1.2 hr.2
  · have hs₁ : Drains s s (compounded / 100) := by
      rw [Nat.eq_zero_of_not_pos hzero]
      exact Quiet.refl s
    refine Ensures.mono ((transferTokens_drains _ _ hsource).and
      (State.transferTokens_treasury _ _ _ _)) fun s₂ ht₂ _ n _ => ?_
    obtain ⟨hs₂, ht₂⟩ := ht₂
    exact Ensures.mono ((StakeV2.deposit_spec _ _ _ _ _).and (StakeV2.deposit_kept _ _ _ _ _))
      fun r hr _ => hfinish s s₂ r hs₁ rfl hs₂ ht₂ hr.1.2 hr.2

theorem processSetStakeExecutorV2_step (clock : Clock) (id : ℕ) (executor : Pubkey)
    (signerInfo stakeInfo : AccountInfo) (compounds : Prop) (merges : Pubkey → Pubkey → Prop)
    (s : State) :
    Ensures (processSetStakeExecutorV2 id executor signerInfo stakeInfo s) fun s' =>
      StakeEffect s s' ∧ StakesV2Step clock compounds merges s s' := by
  simp only [processSetStakeExecutorV2, ensures_bind, ensures_require, ensures_fromOption,
    ensures_pure]
  intro _ _ a ha _ _
  have hturn := (StakeV2.Turn.refl a.stake s.treasury).congr
    (y := { a.stake with executor := executor })
    (StakeV2.weightedUnits_congr rfl rfl rfl rfl) rfl rfl
  have hunits : ({ a.stake with executor := executor } : StakeV2).units = a.stake.units :=
    StakeV2.units_congr (StakeV2.weightedUnits_congr rfl rfl rfl rfl)
  have hkept : StakeV2.Kept s.treasury.stakeRewardsFactor a.stake
      { a.stake with executor := executor } := ⟨rfl, rfl, rfl, .untouched hunits rfl rfl⟩
  exact ⟨⟨0, stakeStep_putV2 ha hturn⟩, stakesV2Step_called ha rfl
    (hkept.called fun _ => le_refl _)⟩

theorem processReconcileStakeV2_step (clock : Clock) (signerInfo configInfo stakeInfo
    stakeTokensInfo mintInfo treasuryInfo : AccountInfo) (compounds : Prop)
    (merges : Pubkey → Pubkey → Prop) (s : State) :
    Ensures (processReconcileStakeV2 clock signerInfo configInfo stakeInfo stakeTokensInfo
      mintInfo treasuryInfo s) fun s' =>
        StakeEffect s s' ∧ StakesV2Step clock compounds merges s s' := by
  simp only [processReconcileStakeV2, ensures_bind, ensures_require, ensures_fromOption,
    ensures_ite, ensures_pure]
  intro _ _ _ _ _ a ha _ _ _
  have hwithdraw : ∀ n, Ensures (a.stake.withdraw n clock s.treasury) fun r =>
      StakeEffect s { s.putStakeV2 a r.2.1 with treasury := r.2.2 } ∧
        StakesV2Step clock compounds merges s
          { s.putStakeV2 a r.2.1 with treasury := r.2.2 } := by
    intro n
    refine Ensures.mono ((StakeV2.withdraw_spec _ _ _ _).and (StakeV2.withdraw_kept _ _ _ _)) ?_
    rintro r ⟨hturn, hkept, hle⟩
    exact ⟨⟨0, stakeStep_putV2 ha hturn⟩, stakesV2Step_called ha rfl (hkept.called fun _ => hle)⟩
  exact ⟨fun _ => hwithdraw _, fun _ _ _ _ => hwithdraw _⟩

theorem processMigrateStakeWeight_step (clock : Clock) (signerInfo stakeInfo
    treasuryInfo : AccountInfo) (compounds : Prop) (merges : Pubkey → Pubkey → Prop) (s : State) :
    Ensures (processMigrateStakeWeight signerInfo stakeInfo treasuryInfo s) fun s' =>
      StakeEffect s s' ∧ StakesV2Step clock compounds merges s s' := by
  simp only [processMigrateStakeWeight, ensures_bind, ensures_require, ensures_fromOption,
    ensures_ite, ensures_pure]
  intro _ _ a ha _ _
  refine ⟨fun _ => ⟨⟨0, (Quiet.refl s).stakeStep⟩, .same rfl⟩, fun _ => ?_⟩
  refine ensures_of_forall fun _ => ?_
  refine Ensures.mono ((StakeV2.migrateWeight_spec _ _).and (StakeV2.migrateWeight_kept _ _)) ?_
  rintro r ⟨hturn, hkept, hsame⟩
  exact ensures_of_forall fun _ => ⟨⟨0, stakeStep_putV2 ha hturn⟩,
    stakesV2Step_called ha rfl (hkept.called fun _ => hsame.le)⟩

/-- Closing a stake that weighs nothing, with what it is owed paid before. -/
theorem closeStakeV2Account_spec {stakeInfo : AccountInfo} {a : StakeV2Account} (dest : Pubkey)
    (paid : ℕ) (hget : s.stakesV2.get stakeInfo.key = some a) (hunits : a.stake.units = 0)
    (hpaid : paid * factorScale ≤
      a.stake.position.owed factorScale s.treasury.stakeRewardsFactor.bits) :
    StakeStep s (closeStakeV2Account stakeInfo dest s) paid 0 := by
  obtain ⟨l, heq, hl⟩ := State.releaseLamports_spec s stakeInfo.key dest
  have hquiet : Quiet s { s with lamports := l } :=
    quiet_lamports (hl.grew (stakeV2_not_isRound hget))
  rw [closeStakeV2Account, heq]
  refine hquiet.step (Restaked.stakeStep (s := { s with lamports := l }) ?_ rfl)
  exact restaked_erase (s := { s with lamports := l }) hget hunits hpaid

theorem processClosePhantomStakeV2_step (clock : Clock) (signerInfo configInfo stakeInfo
    treasuryInfo : AccountInfo) (compounds : Prop) (merges : Pubkey → Pubkey → Prop) (s : State) :
    Ensures (processClosePhantomStakeV2 signerInfo configInfo stakeInfo treasuryInfo s)
      fun s' => StakeEffect s s' ∧ StakesV2Step clock compounds merges s s' := by
  simp only [processClosePhantomStakeV2, ensures_bind, ensures_require, ensures_fromOption,
    ensures_addU64, ensures_pure]
  intro _ _ _ _ a ha _ hbalance _ _ _
  have hclose := closeStakeV2Account_spec treasuryInfo.key 0 ha
    (StakeV2.units_of_balance_eq_zero hbalance) (by omega)
  refine ⟨⟨0, hclose.quiet ?_⟩, .closed (k := stakeInfo.key) rfl⟩
  exact quiet_of_eq rfl rfl rfl rfl rfl rfl rfl rfl rfl rfl (.of_eq rfl rfl rfl rfl)

theorem processTopUpStakeV2_step (clock : Clock) (id amount : ℕ) (signerInfo mintInfo senderInfo
    stakeInfo stakeTokensInfo treasuryInfo systemProgram tokenProgram
    associatedTokenProgram : AccountInfo) (merges : Pubkey → Pubkey → Prop) (s : State) :
    Ensures (processTopUpStakeV2 clock id amount signerInfo mintInfo senderInfo stakeInfo
      stakeTokensInfo treasuryInfo systemProgram tokenProgram associatedTokenProgram s)
      fun s' => StakeEffect s s' ∧ StakesV2Step clock False merges s s' := by
  simp only [processTopUpStakeV2, topUpStakeV2, ensures_bind, ensures_require, ensures_fromOption,
    ensures_pure]
  intro _ _ _ hsender _ _ _ _ _ _ a ha _ _ _ _ _ _ _
  refine Ensures.mono ((StakeV2.migrateWeight_spec _ _).and (StakeV2.migrateWeight_kept _ _)) ?_
  rintro ⟨y, t⟩ ⟨hmigrate, hmigrated, -⟩ _ _ _
  refine Ensures.mono ((StakeV2.deposit_spec _ _ _ _ _).and (StakeV2.deposit_kept _ _ _ _ _)) ?_
  rintro ⟨deposited, x, t'⟩ ⟨⟨-, hdeposit⟩, hdeposited⟩ _
  have hturn := (hmigrate.trans hdeposit).congr (y := { x with createdAt := clock.unixTimestamp })
    (StakeV2.weightedUnits_congr rfl rfl rfl rfl) rfl rfl
  refine Ensures.mono (transferTokensFrom_quiet _ _ hsender) fun s₁ hs₁ _ _ _ _ => ?_
  dsimp only at hmigrate hmigrated hdeposited
  rw [hmigrate.turn.factor] at hdeposited
  have hkept := hmigrated.trans hdeposited
  have hunits : ({ x with createdAt := clock.unixTimestamp } : StakeV2).units = x.units :=
    StakeV2.units_congr (StakeV2.weightedUnits_congr rfl rfl rfl rfl)
  refine ⟨⟨0, (stakeStep_putV2 ha hturn).quiet hs₁⟩, stakesV2Step_called ha hs₁.stakes.stakesV2
    ⟨hkept.multiplier, hkept.lockDuration, ?_, False.elim, .inl rfl⟩⟩
  exact hkept.accrued.trans (.untouched hunits rfl rfl)

theorem processCloseStakeV2_step (clock : Clock) (id : ℕ) (signerInfo mintInfo recipientInfo
    stakeInfo stakeTokensInfo treasuryInfo treasuryTokensInfo systemProgram tokenProgram
    associatedTokenProgram : AccountInfo) (compounds : Prop) (merges : Pubkey → Pubkey → Prop)
    (s : State) :
    Ensures (processCloseStakeV2 clock id signerInfo mintInfo recipientInfo stakeInfo
      stakeTokensInfo treasuryInfo treasuryTokensInfo systemProgram tokenProgram
      associatedTokenProgram s) fun s' =>
        StakeEffect s s' ∧ StakesV2Step clock compounds merges s s' := by
  simp only [processCloseStakeV2, ensures_bind, ensures_require, ensures_fromOption, ensures_pure]
  intro _ _ _ _ _ a ha _ _ htreasury _ htokens _ _ _ _ _ hbalance _ hstakeTokens residual _
  refine Ensures.mono (StakeV2.claim_spec _ _ _ _) ?_
  rintro ⟨rewards, x⟩ hclaim
  rw [ensures_addU64]
  intro _
  have hsource := treasuryTokens_ne_goldTokens htokens htreasury.1
  have hvault : ¬ IsVault stakeTokensInfo.key := by
    rw [hstakeTokens]
    exact stakeV2Tokens_not_isVault ha
  have hround : ¬ IsRound stakeTokensInfo.key := by
    rw [hstakeTokens]
    simp [IsRound]
  -- The last two lines, after at most `rewards` tokens left the treasury.
  have hclose : ∀ s₁, Drains s s₁ rewards →
      Ensures (s₁.closeTokenAccount stakeTokensInfo.key signerInfo.key) fun s₂ =>
        StakeEffect s (closeStakeV2Account stakeInfo signerInfo.key s₂) ∧
          StakesV2Step clock compounds merges s
            (closeStakeV2Account stakeInfo signerInfo.key s₂) := by
    intro s₁ hs₁
    refine Ensures.mono (closeTokenAccount_quiet _ hround) fun s₂ hs₂ => ?_
    have hdrain := hs₁.trans hs₂
    have hget : s₂.stakesV2.get stakeInfo.key = some a := by rw [hdrain.stakes.stakesV2, ha]
    have howed := hclaim.turn.owed
    rw [← hdrain.stakes.factor] at howed
    have hstep := hdrain.stakeStep.trans (closeStakeV2Account_spec signerInfo.key
      rewards hget (StakeV2.units_of_balance_eq_zero hbalance) (by dsimp only at howed; omega))
    refine ⟨⟨rewards, by simpa using hstep⟩, .closed (k := stakeInfo.key) ?_⟩
    rw [← hdrain.stakes.stakesV2]
    rfl
  -- What is left in the stake's own account goes first.
  have hresidual : ∀ s₁, Drains s s₁ rewards →
      (0 < residual → Ensures (s₁.transferTokens stakeTokensInfo.key recipientInfo.key residual)
        fun s₂ => Ensures (s₂.closeTokenAccount stakeTokensInfo.key signerInfo.key) fun s₃ =>
          StakeEffect s (closeStakeV2Account stakeInfo signerInfo.key s₃) ∧
            StakesV2Step clock compounds merges s
              (closeStakeV2Account stakeInfo signerInfo.key s₃)) ∧
      (¬ 0 < residual → Ensures (s₁.closeTokenAccount stakeTokensInfo.key signerInfo.key)
        fun s₃ => StakeEffect s (closeStakeV2Account stakeInfo signerInfo.key s₃) ∧
          StakesV2Step clock compounds merges s
            (closeStakeV2Account stakeInfo signerInfo.key s₃)) := by
    refine fun s₁ hs₁ => ⟨fun _ => ?_, fun _ => hclose s₁ hs₁⟩
    exact Ensures.mono (transferTokens_quiet _ _ hvault) fun s₂ hs₂ => hclose s₂ (hs₁.trans hs₂)
  have hrewards : ∀ s₁, Quiet s s₁ →
      (0 < rewards → Ensures (s₁.transferTokens treasuryTokensInfo.key recipientInfo.key rewards)
        fun s₂ => Drains s s₂ rewards) ∧ (¬ 0 < rewards → Drains s s₁ rewards) := by
    refine fun s₁ hs₁ => ⟨fun _ => ?_, fun hzero => ?_⟩
    · exact Ensures.mono (transferTokens_drains _ _ hsource) fun s₂ hs₂ => hs₁.drains hs₂
    · rw [Nat.eq_zero_of_not_pos hzero]
      exact hs₁
  simp only [ensures_ite, ensures_bind, ensures_pure]
  refine ⟨fun _ => ?_, fun _ => ⟨fun hpos => ?_, fun hzero => ?_⟩⟩
  · refine Ensures.mono (openTokenAccount_quiet s _ _ _ _) fun s₁ hs₁ => ?_
    obtain ⟨_, hs₁⟩ := hs₁
    refine ⟨fun hpos => ?_, fun hzero => hresidual s₁ ((hrewards s₁ hs₁).2 hzero)⟩
    exact Ensures.mono ((hrewards s₁ hs₁).1 hpos) fun s₂ hs₂ => hresidual s₂ hs₂
  · exact Ensures.mono ((hrewards s (.refl s)).1 hpos) fun s₂ hs₂ => hresidual s₂ hs₂
  · exact hresidual s ((hrewards s (.refl s)).2 hzero)

/-! ## Merging -/

/-- Two settled stakes are folded into one, which is owed what both were. -/
theorem merge_spec (x y : StakeV2) (clock : Clock) :
    Ensures (x.merge y clock) fun z =>
      z.rewardsFactor = x.rewardsFactor ∧ z.rewards = x.rewards + y.rewards ∧
        z.lifetimeRewards = x.lifetimeRewards + y.lifetimeRewards ∧ z.Fresh clock ∧
        z.lockDuration = max x.lockDuration y.lockDuration := by
  simp only [StakeV2.merge, ensures_bind, ensures_addU64, ensures_pure]
  exact fun _ _ _ => ⟨trivial, trivial, trivial, ⟨rfl, rfl⟩, trivial⟩

/-- The total follows from the weights of both stakes to the weight of the merged one, and
nothing is owed that was not owed before. -/
structure Merged (t : Treasury) (x y z : StakeV2) (t' : Treasury) : Prop where
  treasury : t' = { t with totalStaked := t'.totalStaked }
  total : t'.totalStaked + x.position.units + y.position.units =
    t.totalStaked + z.position.units
  owed : z.position.owed factorScale t.stakeRewardsFactor.bits ≤
    x.position.owed factorScale t.stakeRewardsFactor.bits +
      y.position.owed factorScale t.stakeRewardsFactor.bits
  weighs : z.Weighs

/-- From two turns to the merged stake. -/
theorem merged_of_turns {t t₁ t₂ t₃ : Treasury} {x y x' y' z : StakeV2} {total : ℕ}
    (hx : StakeV2.Turn x t x' t₁ 0) (hy : StakeV2.Turn y t₁ y' t₂ 0) (hx' : x'.Settled t)
    (hy' : y'.Settled t) (hfactor : z.rewardsFactor = x'.rewardsFactor)
    (hrewards : z.rewards = x'.rewards + y'.rewards) (ht₃ : t₃ = { t₂ with totalStaked := total })
    (htotal : total + (x'.units + y'.units) = t₂.totalStaked + z.units) (hz : z.Weighs) :
    Merged t x y z t₃ := by
  subst ht₃
  have hxtotal := hx.turn.total
  have hytotal := hy.turn.total
  have hxowed := hx.turn.owed
  have hyowed := hy.turn.owed
  rw [hx.turn.factor] at hyowed
  have hxpos : x'.position = ⟨x'.units, t.stakeRewardsFactor.bits, x'.rewards⟩ := by
    rw [← hx']
    rfl
  have hypos : y'.position = ⟨y'.units, t.stakeRewardsFactor.bits, y'.rewards⟩ := by
    rw [← hy']
    rfl
  have hzpos : z.position = ⟨z.units, t.stakeRewardsFactor.bits, x'.rewards + y'.rewards⟩ := by
    rw [← hx', ← hrewards, ← hfactor]
    rfl
  rw [hxpos] at hxowed hxtotal
  rw [hypos] at hyowed hytotal
  rw [Position.owed_of_mark] at hxowed hyowed
  refine ⟨?_, ?_, ?_, hz⟩
  · rw [hy.turn.treasury, hx.turn.treasury]
  · rw [hzpos]
    dsimp only at hxtotal hytotal ⊢
    omega
  · rw [hzpos, Position.owed_of_mark, Nat.add_mul]
    omega

/-- The book after a merge: the target holds the merged stake, the source is gone. -/
theorem Merged.restaked {s' : State} {kt ks : Pubkey} {a b : StakeV2Account} {z : StakeV2}
    {t : Treasury} (h : Merged s.treasury a.stake b.stake z t) (hne : kt ≠ ks)
    (ha : s.stakesV2.get kt = some a) (hb : s.stakesV2.get ks = some b)
    (hstakes : s'.stakes = s.stakes)
    (hstakesV2 : s'.stakesV2 = (s.putStakeV2 a z).stakesV2.erase ks)
    (htotal : s'.treasury.totalStaked = t.totalStaked)
    (hfactor : s'.treasury.stakeRewardsFactor = s.treasury.stakeRewardsFactor) :
    Restaked s s' 0 := by
  have hold : s.stakesV2.get a.address = some a := by rw [s.stakesV2.key_of_get kt a ha, ha]
  have hmid : (s.stakesV2.put { a with stake := z }).get ks = some b := by
    rw [Store.get_put_of_ne, hb]
    rw [s.stakesV2.key_of_get kt a ha]
    exact hne.symm
  have hput : ∀ f : StakeV2 → ℕ,
      ((s.putStakeV2 a z).stakesV2.erase ks).sum (fun c => f c.stake) + f b.stake + f a.stake =
        s.stakesV2.sum (fun c => f c.stake) + f z := by
    intro f
    rw [State.putStakeV2, Store.sum_erase (fun c : StakeV2Account => f c.stake) hmid]
    exact Store.sum_put_old (t := s.stakesV2) (a := { a with stake := z })
      (fun c : StakeV2Account => f c.stake) hold
  have hunits := hput fun c => c.position.units
  have hsum := hput fun c => c.position.owed factorScale s.treasury.stakeRewardsFactor.bits
  have hmerged := h.total
  have howed := h.owed
  refine ⟨fun hw => ?_, hfactor, ?_, ?_⟩
  · rw [State.Weighed, hstakesV2]
    exact Store.All.erase (Store.All.put hw h.weighs) ks
  · rw [htotal, State.stakeWeight, State.stakeWeight, hstakes, hstakesV2]
    omega
  · rw [State.stakeOwed, State.stakeOwed, hstakes, hstakesV2]
    omega

theorem processMergeStakeV2_step (clock : Clock) (targetId sourceId : ℕ) (signerInfo mintInfo
    targetStakeInfo targetTokensInfo sourceStakeInfo sourceTokensInfo treasuryInfo systemProgram
    tokenProgram associatedTokenProgram : AccountInfo) (compounds : Prop)
    {merges : Pubkey → Pubkey → Prop}
    (hmerges : merges (.stakeV2Pda signerInfo.key targetId) (.stakeV2Pda signerInfo.key sourceId))
    (s : State) :
    Ensures (processMergeStakeV2 clock targetId sourceId signerInfo mintInfo targetStakeInfo
      targetTokensInfo sourceStakeInfo sourceTokensInfo treasuryInfo systemProgram tokenProgram
      associatedTokenProgram s) fun s' =>
        StakeEffect s s' ∧ StakesV2Step clock compounds merges s s' := by
  simp only [processMergeStakeV2, mergeStakeV2, ensures_bind, ensures_require, ensures_fromOption,
    ensures_pure]
  intro hids _ _ _ htkey _ hskey _ a ha _ _ _ b hb _ _ _ hstokens vault _ _ _ _ _ _ _ _ _ _
  have hne : targetStakeInfo.key ≠ sourceStakeInfo.key := by
    rw [htkey, hskey]
    simpa using hids
  refine Ensures.mono ((StakeV2.migrateWeight_spec _ _).and (StakeV2.migrateWeight_kept _ _)) ?_
  rintro ⟨x₁, t₁⟩ ⟨hx₁, hxkept, -⟩
  refine Ensures.mono ((StakeV2.migrateWeight_spec _ _).and (StakeV2.migrateWeight_kept _ _)) ?_
  rintro ⟨y₁, t₂⟩ ⟨hy₁, hykept, -⟩
  dsimp only at hx₁ hy₁ hxkept hykept ⊢
  have hF : t₂.stakeRewardsFactor = s.treasury.stakeRewardsFactor :=
    hy₁.turn.factor.trans hx₁.turn.factor
  rw [hx₁.turn.factor] at hykept
  refine Ensures.mono ((StakeV2.updateRewards_turn x₁ t₂).and
    (StakeV2.updateRewards_kept x₁ t₂)) fun x₂ hx₂ => ?_
  obtain ⟨⟨hxs, hxunits, hx₂⟩, hxkept', -⟩ := hx₂
  refine Ensures.mono ((StakeV2.updateRewards_turn y₁ t₂).and
    (StakeV2.updateRewards_kept y₁ t₂)) fun y₂ hy₂ => ?_
  obtain ⟨⟨hys, hyunits, hy₂⟩, hykept', -⟩ := hy₂
  rw [hF] at hxkept' hykept'
  refine StakeV2.ensures_weightedUnits fun _ => StakeV2.ensures_weightedUnits fun _ => ?_
  rw [ensures_addU64]
  intro _
  refine Ensures.mono (merge_spec x₂ y₂ clock) fun z hzrewards => ?_
  obtain ⟨hzfactor, hzrewards, hzlifetime, hfresh, hlock⟩ := hzrewards
  rw [hxkept'.lockDuration, hxkept.lockDuration, hykept'.lockDuration, hykept.lockDuration] at hlock
  refine StakeV2.ensures_weightedUnits fun hz => ?_
  refine Ensures.mono (moveTotalStaked_spec _ _ _) ?_
  rintro _ ⟨total, rfl, htotal⟩
  rw [StakeV2.Settled, hF] at hxs hys
  have hcredited : a.stake.CreditedWith b.stake s.treasury.stakeRewardsFactor z := by
    refine ⟨hzfactor.trans (congrArg Fixed.mk hxs), ?_⟩
    rw [hzlifetime, (hxkept.trans hxkept').accrued.credited_of_mark hxs,
      (hykept.trans hykept').accrued.credited_of_mark hys]
    rfl
  have hmerged : Merged s.treasury a.stake b.stake z { t₂ with totalStaked := total } :=
    merged_of_turns (hx₁.trans (hx₂.of_factor hy₁.turn.factor.symm)) (hy₁.trans hy₂) hxs hys
      hzfactor hzrewards rfl htotal hz
  -- The rest moves tokens and lamports, and deletes the source.
  have hvault : ¬ IsVault sourceTokensInfo.key := by
    rw [hstokens]
    exact stakeV2Tokens_not_isVault hb
  have hround : ¬ IsRound sourceTokensInfo.key := by
    rw [hstokens]
    simp [IsRound]
  have hrest : ∀ s₁, Quiet { s.putStakeV2 a z with treasury := { t₂ with totalStaked := total } }
      s₁ → StakeEffect s (closeStakeV2Account sourceStakeInfo signerInfo.key s₁) ∧
        StakesV2Step clock compounds merges s
          (closeStakeV2Account sourceStakeInfo signerInfo.key s₁) := by
    intro s₁ hs₁
    have hmerged' : StakesV2Step clock compounds merges s
        (closeStakeV2Account sourceStakeInfo signerInfo.key s₁) := by
      have hkeya := s.stakesV2.key_of_get _ _ ha
      have hkeyb := s.stakesV2.key_of_get _ _ hb
      refine .merged (a := a) (b := b) (z := z) ?_ ?_ hfresh ?_ ?_ ?_ hcredited hlock
      · rwa [hkeya, hkeyb, htkey, hskey]
      · rw [hkeyb]
        exact congrArg (fun t => Store.erase t sourceStakeInfo.key) hs₁.stakes.stakesV2
      · rw [hkeya, ha]
      · rw [hkeyb, hb]
      · rw [hkeya, hkeyb]
        exact hne
    refine ⟨?_, hmerged'⟩
    obtain ⟨l, heq, hl⟩ := State.releaseLamports_spec s₁ sourceStakeInfo.key signerInfo.key
    have hs₂ : Quiet { s.putStakeV2 a z with treasury := { t₂ with totalStaked := total } }
        { s₁ with lamports := l } :=
      hs₁.trans (quiet_lamports (hl.grew (stakeV2_not_isRound hb)))
    rw [closeStakeV2Account, heq]
    refine ⟨0, ?_, hmerged.restaked hne ha hb ?_ ?_ ?_ ?_⟩
    · have hwrite := (offStakes_write hmerged.treasury).trans hs₂.offStakes
      exact hwrite.trans (offStakes_write (s := { s₁ with lamports := l }) rfl)
    · exact hs₂.stakes.stakes
    · exact congrArg (fun t => Store.erase t sourceStakeInfo.key) hs₂.stakes.stakesV2
    · exact hs₂.stakes.totalStaked
    · rw [← hF]
      exact hs₂.stakes.factor
  simp only [ensures_ite, ensures_bind, ensures_require, ensures_fromOption, ensures_pure]
  refine ⟨fun _ => ?_, fun _ => ?_⟩
  · refine Ensures.mono (transferTokens_quiet _ _ hvault) fun s₁ hs₁ => ?_
    refine Ensures.mono (closeTokenAccount_quiet _ hround) fun s₂ hs₂ _ _ _ _ => ?_
    exact hrest s₂ (hs₁.trans hs₂)
  · refine Ensures.mono (closeTokenAccount_quiet _ hround) fun s₂ hs₂ _ _ _ _ => ?_
    exact hrest s₂ hs₂

theorem processStakeNft_step (clock : Clock) (id : ℕ) (signerInfo assetInfo collectionInfo
    stakeInfo treasuryInfo mplCoreInfo systemProgram : AccountInfo) (compounds : Prop)
    (merges : Pubkey → Pubkey → Prop) (s : State) :
    Ensures (processStakeNft id signerInfo assetInfo collectionInfo stakeInfo treasuryInfo
      mplCoreInfo systemProgram s) fun s' =>
        StakeEffect s s' ∧ StakesV2Step clock compounds merges s s' := by
  simp only [processStakeNft, transferAsset, ensures_bind, ensures_require, ensures_fromOption,
    ensures_pure]
  intro _ _ _ _ _ a ha _ _ _
  refine Ensures.mono ((StakeV2.migrateWeight_spec _ _).and (StakeV2.migrateWeight_kept _ _)) ?_
  rintro r ⟨hmigrate, hmigrated, hsame⟩
  refine Ensures.mono ((StakeV2.stakeNft_spec _ _).and (StakeV2.stakeNft_kept _ _)) ?_
  rintro r' ⟨hstake, hstaked, hsame'⟩ _
  rw [hmigrate.turn.factor] at hstaked
  refine ⟨⟨0, (stakeStep_putV2 ha (hmigrate.trans hstake)).quiet ?_⟩, stakesV2Step_called ha rfl
    ((hmigrated.trans hstaked).called fun _ => (hsame'.trans hsame).le)⟩
  exact quiet_of_eq rfl rfl rfl rfl rfl rfl rfl rfl rfl rfl (.of_eq rfl rfl rfl rfl)

theorem processUnstakeNft_step (clock : Clock) (id : ℕ) (signerInfo assetInfo collectionInfo
    stakeInfo treasuryInfo mplCoreInfo systemProgram : AccountInfo) (compounds : Prop)
    (merges : Pubkey → Pubkey → Prop) (s : State) :
    Ensures (processUnstakeNft id signerInfo assetInfo collectionInfo stakeInfo treasuryInfo
      mplCoreInfo systemProgram s) fun s' =>
        StakeEffect s s' ∧ StakesV2Step clock compounds merges s s' := by
  simp only [processUnstakeNft, transferAsset, ensures_bind, ensures_require, ensures_fromOption,
    ensures_pure]
  intro _ _ _ _ _ a ha _ _ _
  refine Ensures.mono ((StakeV2.migrateWeight_spec _ _).and (StakeV2.migrateWeight_kept _ _)) ?_
  rintro r ⟨hmigrate, hmigrated, hsame⟩
  refine Ensures.mono ((StakeV2.unstakeNft_spec _ _).and (StakeV2.unstakeNft_kept _ _)) ?_
  rintro r' ⟨hunstake, hunstaked, hsame'⟩ _
  rw [hmigrate.turn.factor] at hunstaked
  refine ⟨⟨0, (stakeStep_putV2 ha (hmigrate.trans hunstake)).quiet ?_⟩, stakesV2Step_called ha rfl
    ((hmigrated.trans hunstaked).called fun _ => (hsame'.trans hsame).le)⟩
  exact quiet_of_eq rfl rfl rfl rfl rfl rfl rfl rfl rfl rfl (.of_eq rfl rfl rfl rfl)

end Godl
