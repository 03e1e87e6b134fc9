import Godl.Proof.Dues
import Godl.Proof.StakeHandlers

/-!
# Instructions that move no ledger of lamports

Stakes, GODL, gold and the config move lamports only out of accounts that keep no ledger,
and what they write the ledgers do not read.

## Main definitions

* `GodlInstruction.MovesLedger` — the instructions that do move a ledger.
* `processInstruction_sound` — the other ones are sound.
-/

namespace Godl

open Lib

/-! ## Settling keeps what is due -/

theorem StakeTurn.balance {p p' : Position} {t t' : Treasury} {n : ℕ}
    (h : StakeTurn p t p' t' n) : t'.balance = t.balance := by
  rw [h.treasury]

theorem StakeV2.Turn.balance {x x' : StakeV2} {t t' : Treasury} {n : ℕ}
    (h : StakeV2.Turn x t x' t' n) : t'.balance = t.balance := h.turn.balance

theorem Miner.updateRewards_due (m : Miner) (t : Treasury) :
    Ensures (m.updateRewards t) fun m' => m'.pda = m.pda ∧ m'.due = m.due := by
  simp only [Miner.updateRewards, ensures_ite, ensures_bind, ensures_addU64, ensures_pure]
  refine ⟨fun _ => ?_, fun _ => ⟨rfl, rfl⟩⟩
  exact ensures_of_forall fun _ => ensures_of_forall fun _ _ _ => ⟨rfl, rfl⟩

theorem Miner.claimGodl_due (m : Miner) (clock : Clock) (t : Treasury) :
    Ensures (m.claimGodl clock t) fun p => p.2.1.pda = m.pda ∧ p.2.1.due = m.due ∧
      p.2.2.balance = t.balance := by
  simp only [Miner.claimGodl, ensures_bind, ensures_addU64, ensures_subU64]
  refine Ensures.mono (m.updateRewards_due t) fun x hx _ _ _ => ?_
  simp only [ensures_ite, ensures_bind, ensures_subU64, ensures_addU64, ensures_pure]
  refine ⟨fun _ _ => ?_, fun _ => ⟨hx.1, hx.2, trivial⟩⟩
  exact ensures_of_forall fun _ => ensures_of_forall fun _ _ _ => ⟨hx.1, hx.2, trivial⟩

section Gold

variable {s₀ s : State} (hs : Sound s₀ s)

include hs

theorem loadOrCreateMinerExtended_sound (minerExtendedInfo : AccountInfo) (authority : Pubkey)
    (payer : AccountInfo) (create : Bool) :
    Holds (Sound s₀) (loadOrCreateMinerExtended minerExtendedInfo authority payer create s) := by
  refine holds_any fun _ => holds_any fun _ => holds_ite (holds_ite ?_ (holds_pure hs)) ?_
  · exact holds_bind (createAccount_sound hs _ _ _) fun _ h => holds_pure h
  · exact holds_any fun _ => holds_any fun _ => holds_pure hs

theorem syncGoldRewards_sound (extended : Option MinerExtended) (m : Miner) :
    Holds (Sound s₀) (syncGoldRewards extended m s) := by
  unfold syncGoldRewards
  split
  · exact holds_any fun _ => holds_any fun _ => holds_pure hs
  · exact holds_any fun _ => holds_pure hs

/-- Unrefined GODL is credited to the miner in hand, who is due what it was. -/
theorem creditUnrefined_sound (e : ProgramError) (amount : ℕ) (minerExtendedInfo payer :
    AccountInfo) (authority : Pubkey) (m : Miner) :
    Ensures (creditUnrefined e amount minerExtendedInfo payer authority m s) fun p =>
      Sound s₀ p.2 ∧ p.1.pda = m.pda ∧ p.1.due = m.due := by
  simp only [creditUnrefined, ensures_bind, ensures_addU64, ensures_pure]
  refine Ensures.mono (loadOrCreateMinerExtended_sound hs _ _ _ _) fun p hp => ?_
  refine Ensures.mono (m.updateRewards_due _) fun m' hm' => ?_
  refine Ensures.mono (syncGoldRewards_sound hp p.1 m') fun s' hs' _ _ _ => ?_
  exact ⟨hs'.treasury hs'.2.2, hm'⟩

end Gold

/-! ## GODL -/

section Ledger

variable {s₀ s : State}

theorem creditReferrerGodl_sound (hs : Sound s₀ s) (miner : Miner) (treasuryTokensInfo mintInfo :
    AccountInfo) (share : ℕ) (rest : List AccountInfo) :
    Holds (Sound s₀) (creditReferrerGodl miner treasuryTokensInfo mintInfo share rest s) := by
  unfold creditReferrerGodl
  split
  · split
    · simp only [loadReferrer, Holds, ensures_bind, ensures_fromOption, ensures_require,
        ensures_addU64, ensures_pure]
      intro x hx _ _ _ _ _ _ _ _ _
      have hdue : s₀.due x.pda = x.due := by
        rw [← hs.1]
        exact due_referrer_pda hx
      have hput : Sound s₀ { s with referrers := s.referrers.put { x with
          rewardsGodl := x.rewardsGodl + share
          cumulativeRewardsGodl := x.cumulativeRewardsGodl + share } } := hs.putReferrer hdue
      exact transferTokens_sound hput _ _ _
    · exact holds_throw
  · exact holds_any fun _ => holds_pure hs

theorem processClaimGodl_sound (clock : Clock) (signerInfo configInfo minerInfo mintInfo
    recipientInfo treasuryInfo treasuryTokensInfo systemProgram tokenProgram
    associatedTokenProgram goldVaultInfo minerExtendedInfo : AccountInfo)
    (rest : List AccountInfo) (s : State) :
    Holds (Sound s) (processClaimGodl clock signerInfo configInfo minerInfo mintInfo recipientInfo
      treasuryInfo treasuryTokensInfo systemProgram tokenProgram associatedTokenProgram
      goldVaultInfo minerExtendedInfo rest s) := by
  simp only [processClaimGodl, Holds, ensures_bind, ensures_require, ensures_fromOption,
    ensures_subU64]
  intro _ m hm _ _ _ _ _ _ _ _ _ _ _ _
  refine Ensures.mono (loadOrCreateMinerExtended_sound (Sound.refl s) _ _ _ _) ?_
  rintro ⟨extended, s₁⟩ hs₁
  refine Ensures.mono (openTokenAccount_sound hs₁ _ _ _ _) fun s₂ hs₂ => ?_
  refine Ensures.mono (syncGoldRewards_sound hs₂ _ _) fun s₃ hs₃ => ?_
  refine Ensures.mono (m.claimGodl_due _ _) ?_
  rintro ⟨amount, m', treasury⟩ ⟨hpda, hdue, hbalance⟩
  refine ensures_of_forall fun share _ => ?_
  have hm' : s.due m'.pda = m'.due := by
    rw [hpda, hdue]
    exact due_miner_pda hm
  have hput := (hs₃.treasury (t := treasury) (hbalance.trans hs₃.2.2)).putMiner hm'
  refine Ensures.mono (creditReferrerGodl_sound hput _ _ _ _ _) fun s₄ hs₄ => ?_
  exact holds_ite (transferTokens_sound hs₄ _ _ _) (holds_pure hs₄)

theorem processInjectUnrefinedRewards_sound (amount : ℕ) (signerInfo configInfo minerInfo
    treasuryInfo signerTokensInfo treasuryTokensInfo tokenProgram goldVaultInfo
    minerExtendedInfo systemProgram : AccountInfo) (s : State) :
    Holds (Sound s) (processInjectUnrefinedRewards amount signerInfo configInfo minerInfo
      treasuryInfo signerTokensInfo treasuryTokensInfo tokenProgram goldVaultInfo
      minerExtendedInfo systemProgram s) := by
  simp only [processInjectUnrefinedRewards, Holds, ensures_bind, ensures_require,
    ensures_fromOption, ensures_pure]
  intro _ _ _ _ m hm _ _ _ _ _ _ _ _ _ _ _ _ _ _ _ _
  refine Ensures.mono (transferTokensFrom_sound (Sound.refl s) _ _ _ _) fun s₁ hs₁ => ?_
  refine Ensures.mono (creditUnrefined_sound hs₁ _ _ _ _ _ m) ?_
  rintro ⟨m', s₂⟩ ⟨hs₂, hpda, hdue⟩
  refine hs₂.putMiner ?_
  rw [hpda, hdue]
  exact due_miner_pda hm

theorem processSetReferrer_sound (desired : Pubkey) (authorityInfo minerInfo : AccountInfo)
    (rest : List AccountInfo) (s : State) :
    Holds (Sound s) (processSetReferrer desired authorityInfo minerInfo rest s) := by
  rw [processSetReferrer, Holds, ensures_bind, ensures_require]
  intro _
  rw [ensures_bind, ensures_fromOption]
  intro m hm
  have hdue : s.due m.pda = m.due := due_miner_pda hm
  have hput : ∀ s₁ p, Sound s s₁ →
      Sound s { s₁ with miners := s₁.miners.put { m with referrer := p } } :=
    fun s₁ p hs₁ => hs₁.putMiner hdue
  refine holds_any fun _ => holds_ite (holds_pure (Sound.refl s)) (holds_ite ?_ (holds_ite ?_ ?_))
  · exact holds_pure (hput s _ (Sound.refl s))
  · exact holds_throw
  · split
    · simp only [loadReferrer, Holds, ensures_bind, ensures_require, ensures_fromOption,
        ensures_addU64, ensures_pure]
      intro x hx _ _ _ _ _
      have hcount : s.due x.pda = x.due := due_referrer_pda hx
      have hs₁ : Sound s { s with referrers := s.referrers.put { x with
          referrerCount := x.referrerCount + 1 } } := (Sound.refl s).putReferrer hcount
      exact hput _ _ hs₁
    · exact holds_throw

end Ledger

/-! ## Stakes -/

section Stakes

variable {s₀ s : State}

/-- A token account keeps no ledger of lamports. -/
theorem tokens_keepsNoLedger {k owner mint : Pubkey} (h : k = .associatedTokenAddress owner mint) :
    ¬ KeepsLedger k := by
  rw [h]
  exact id

/-- A stake keeps no ledger of lamports. -/
theorem stakeV2_keepsNoLedger {k : Pubkey} {a : StakeV2Account}
    (h : s.stakesV2.get k = some a) : ¬ KeepsLedger k := by
  have haddress := stakeV2_isStakeAddress h
  intro hk
  cases k <;> simp_all [KeepsLedger, Pubkey.isStakeAddress]

/-- A stake is written, and the treasury but for its balance. -/
theorem Sound.putStakeV2 (hs : Sound s₀ s) {t : Treasury} (a : StakeV2Account) (x : StakeV2)
    (ht : t.balance = s₀.treasury.balance) :
    Sound s₀ { s.putStakeV2 a x with treasury := t } :=
  Sound.treasury (s := s.putStakeV2 a x) hs ht

/-- Deleting a stake takes lamports out of its account only. -/
theorem closeStakeV2Account_sound (hs : Sound s₀ s) {stakeInfo : AccountInfo} (dest : Pubkey)
    (h : ¬ KeepsLedger stakeInfo.key) : Sound s₀ (closeStakeV2Account stakeInfo dest s) :=
  releaseLamports_sound hs dest h

theorem processWithdraw_sound (clock : Clock) (amount : ℕ) (signerInfo mintInfo recipientInfo
    stakeInfo stakeTokensInfo treasuryInfo systemProgram tokenProgram
    associatedTokenProgram : AccountInfo) (s : State) :
    Holds (Sound s) (processWithdraw clock amount signerInfo mintInfo recipientInfo stakeInfo
      stakeTokensInfo treasuryInfo systemProgram tokenProgram associatedTokenProgram s) := by
  simp only [processWithdraw, Holds, ensures_bind, ensures_require, ensures_fromOption,
    ensures_pure]
  intro _ _ _ _ x _ _ _ _ _ _ _ _ _
  refine Ensures.mono (openTokenAccount_sound (Sound.refl s) _ _ _ _) fun s₁ hs₁ => ?_
  refine Ensures.mono (Stake.withdraw_spec x amount clock s₁.treasury) ?_
  rintro ⟨paid, x', t⟩ ⟨-, hturn⟩
  have hput : Sound s { s₁ with stakes := s₁.stakes.put x', treasury := t } :=
    Sound.treasury (s := { s₁ with stakes := s₁.stakes.put x' }) hs₁ (hturn.balance.trans hs₁.2.2)
  exact Ensures.mono (transferTokens_sound hput _ _ _) fun s₂ hs₂ _ _ _ _ => hs₂

theorem processDepositV2_sound (clock : Clock) (id amount : ℕ) (lockDuration : ℤ) (signerInfo
    mintInfo senderInfo stakeInfo stakeTokensInfo treasuryInfo executorInfo systemProgram
    tokenProgram associatedTokenProgram : AccountInfo) (s : State) :
    Holds (Sound s) (processDepositV2 clock id amount lockDuration signerInfo mintInfo senderInfo
      stakeInfo stakeTokensInfo treasuryInfo executorInfo systemProgram tokenProgram
      associatedTokenProgram s) := by
  simp only [processDepositV2, Holds, ensures_bind, ensures_require, ensures_fromOption,
    ensures_pure]
  intro _ _ _ _ _ _ _ _ _ _ _ _ _ _ _
  refine Ensures.mono (createAccount_sound (Sound.refl s) _ _ _) fun s₁ hs₁ => ?_
  refine ensures_of_forall fun x => ?_
  have hopen : Sound s { s₁ with
      stakesV2 := s₁.stakesV2.put (.derived signerInfo.key id x) } := hs₁
  refine Ensures.mono (openTokenAccount_sound hopen _ _ _ _) fun s₂ hs₂ => ?_
  refine Ensures.mono (StakeV2.deposit_spec _ _ _ _ _) ?_
  rintro ⟨paid, x', t⟩ ⟨-, hturn⟩ _
  have hput := hs₂.putStakeV2 (.derived signerInfo.key id x) x' (hturn.balance.trans hs₂.2.2)
  exact Ensures.mono (transferTokensFrom_sound hput _ _ _ _) fun s₃ hs₃ _ _ _ _ => hs₃

theorem processWithdrawV2_sound (clock : Clock) (id amount : ℕ) (signerInfo mintInfo
    recipientInfo stakeInfo stakeTokensInfo treasuryInfo systemProgram tokenProgram
    associatedTokenProgram : AccountInfo) (s : State) :
    Holds (Sound s) (processWithdrawV2 clock id amount signerInfo mintInfo recipientInfo
      stakeInfo stakeTokensInfo treasuryInfo systemProgram tokenProgram associatedTokenProgram
      s) := by
  simp only [processWithdrawV2, Holds, ensures_bind, ensures_require, ensures_fromOption,
    ensures_pure]
  intro _ _ _ _ a _ _ _ _ _ _ _ _ _ _
  refine Ensures.mono (StakeV2.migrateWeight_spec _ _) ?_
  rintro ⟨y, t⟩ hmigrate _ _
  refine Ensures.mono (openTokenAccount_sound (Sound.refl s) _ _ _ _) fun s₁ hs₁ => ?_
  refine Ensures.mono (StakeV2.withdraw_spec _ _ _ _) ?_
  rintro ⟨paid, x, t'⟩ hturn
  have hput := hs₁.putStakeV2 a x (hturn.balance.trans hmigrate.balance)
  exact Ensures.mono (transferTokens_sound hput _ _ _) fun s₂ hs₂ _ _ _ _ => hs₂

theorem processCompoundYieldV2_sound (clock : Clock) (id : ℕ) (signerInfo mintInfo stakeInfo
    stakeTokensInfo treasuryInfo treasuryTokensInfo systemProgram tokenProgram
    associatedTokenProgram : AccountInfo) (s : State) :
    Holds (Sound s) (processCompoundYieldV2 clock id signerInfo mintInfo stakeInfo
      stakeTokensInfo treasuryInfo treasuryTokensInfo systemProgram tokenProgram
      associatedTokenProgram s) := by
  simp only [processCompoundYieldV2, compoundYieldV2, Holds, ensures_bind, ensures_require,
    ensures_fromOption, ensures_ite, ensures_pure]
  intro _ _ _ _ _ _ _ _ _ _ _ a _ _ _ _ _ _ _ _ _ _
  refine Ensures.mono (StakeV2.migrateWeight_spec _ _) ?_
  rintro ⟨y, t⟩ hmigrate
  refine ensures_of_forall fun p _ => ?_
  have hrest : ∀ s₁, Sound s s₁ → Ensures (s₁.transferTokens treasuryTokensInfo.key
      stakeTokensInfo.key (p.1 - p.1 / 100)) fun s₂ =>
        stakeTokensInfo.key = stakeInfo.key.associatedTokenAddress mintInfo.key →
        ∀ n, s₂.tokens stakeTokensInfo.key = some n →
          Ensures (p.2.deposit (p.1 - p.1 / 100) clock t n) fun r =>
            r.2.1.balance ≤ n →
              Sound s { s₂.putStakeV2 a r.2.1 with treasury := r.2.2 } := by
    intro s₁ hs₁
    refine Ensures.mono (transferTokens_sound hs₁ _ _ _) fun s₂ hs₂ _ n _ => ?_
    refine Ensures.mono (StakeV2.deposit_spec _ _ _ _ _) fun r hr _ => ?_
    exact hs₂.putStakeV2 a r.2.1 (hr.2.balance.trans hmigrate.balance)
  refine ⟨fun _ => ?_, fun _ => hrest s (Sound.refl s)⟩
  exact Ensures.mono (burnTokens_sound (Sound.refl s) _ _) fun s₁ hs₁ => hrest s₁ hs₁

theorem processReconcileStakeV2_sound (clock : Clock) (signerInfo configInfo stakeInfo
    stakeTokensInfo mintInfo treasuryInfo : AccountInfo) (s : State) :
    Holds (Sound s) (processReconcileStakeV2 clock signerInfo configInfo stakeInfo
      stakeTokensInfo mintInfo treasuryInfo s) := by
  have hlast : ∀ (a : StakeV2Account) (n : ℕ), Holds (Sound s) (do
      let p ← a.stake.withdraw (a.stake.balance - n) clock s.treasury
      return { s.putStakeV2 a p.2.1 with treasury := p.2.2 } : Result State) := by
    intro a n
    refine Ensures.bind (StakeV2.withdraw_spec _ _ _ _) fun p hp => ?_
    exact holds_pure ((Sound.refl s).putStakeV2 a p.2.1 hp.balance)
  refine holds_any fun _ => holds_any fun _ => holds_any fun _ => holds_any fun _ => ?_
  refine holds_any fun _ => holds_any fun a => holds_any fun _ => holds_any fun _ => ?_
  refine holds_any fun _ => holds_ite (holds_any fun n => hlast a n) ?_
  exact holds_any fun n => hlast a n

theorem processMigrateStakeWeight_sound (signerInfo stakeInfo treasuryInfo : AccountInfo)
    (s : State) :
    Holds (Sound s) (processMigrateStakeWeight signerInfo stakeInfo treasuryInfo s) := by
  refine holds_any fun _ => holds_any fun _ => holds_any fun a => holds_any fun _ => ?_
  refine holds_any fun _ => holds_ite (holds_pure (Sound.refl s)) (holds_any fun _ => ?_)
  refine Ensures.bind (StakeV2.migrateWeight_spec _ _) fun p hp => holds_any fun _ => ?_
  exact holds_pure ((Sound.refl s).putStakeV2 a p.1 hp.balance)

theorem processTopUpStakeV2_sound (clock : Clock) (id amount : ℕ) (signerInfo mintInfo senderInfo
    stakeInfo stakeTokensInfo treasuryInfo systemProgram tokenProgram
    associatedTokenProgram : AccountInfo) (s : State) :
    Holds (Sound s) (processTopUpStakeV2 clock id amount signerInfo mintInfo senderInfo stakeInfo
      stakeTokensInfo treasuryInfo systemProgram tokenProgram associatedTokenProgram s) := by
  simp only [processTopUpStakeV2, topUpStakeV2, Holds, ensures_bind, ensures_require,
    ensures_fromOption, ensures_pure]
  intro _ _ _ _ _ _ _ _ _ _ a _ _ _ _ _ _ _ _
  refine Ensures.mono (StakeV2.migrateWeight_spec _ _) ?_
  rintro ⟨y, t⟩ hmigrate _ _ _
  refine Ensures.mono (StakeV2.deposit_spec _ _ _ _ _) ?_
  rintro ⟨deposited, x, t'⟩ ⟨-, hturn⟩ _
  have hput := (Sound.refl s).putStakeV2 a { x with createdAt := clock.unixTimestamp }
    (hturn.balance.trans hmigrate.balance)
  exact Ensures.mono (transferTokensFrom_sound hput _ _ _ _) fun s₁ hs₁ _ _ _ _ => hs₁

theorem processStakeNft_sound (id : ℕ) (signerInfo assetInfo collectionInfo stakeInfo
    treasuryInfo mplCoreInfo systemProgram : AccountInfo) (s : State) :
    Holds (Sound s) (processStakeNft id signerInfo assetInfo collectionInfo stakeInfo
      treasuryInfo mplCoreInfo systemProgram s) := by
  refine holds_any fun _ => holds_any fun a => holds_any fun _ => ?_
  refine Ensures.bind (StakeV2.migrateWeight_spec _ _) fun p hp => ?_
  refine Ensures.bind (StakeV2.stakeNft_spec _ _) fun q hq => holds_any fun _ => ?_
  exact holds_pure ((Sound.refl s).putStakeV2 a q.1 (hq.balance.trans hp.balance))

theorem processUnstakeNft_sound (id : ℕ) (signerInfo assetInfo collectionInfo stakeInfo
    treasuryInfo mplCoreInfo systemProgram : AccountInfo) (s : State) :
    Holds (Sound s) (processUnstakeNft id signerInfo assetInfo collectionInfo stakeInfo
      treasuryInfo mplCoreInfo systemProgram s) := by
  refine holds_any fun _ => holds_any fun a => holds_any fun _ => ?_
  refine Ensures.bind (StakeV2.migrateWeight_spec _ _) fun p hp => ?_
  refine Ensures.bind (StakeV2.unstakeNft_spec _ _) fun q hq => holds_any fun _ => ?_
  exact holds_pure ((Sound.refl s).putStakeV2 a q.1 (hq.balance.trans hp.balance))

theorem processCloseStakeV2_sound (clock : Clock) (id : ℕ) (signerInfo mintInfo recipientInfo
    stakeInfo stakeTokensInfo treasuryInfo treasuryTokensInfo systemProgram tokenProgram
    associatedTokenProgram : AccountInfo) (s : State) :
    Holds (Sound s) (processCloseStakeV2 clock id signerInfo mintInfo recipientInfo stakeInfo
      stakeTokensInfo treasuryInfo treasuryTokensInfo systemProgram tokenProgram
      associatedTokenProgram s) := by
  rw [Holds, processCloseStakeV2]
  simp only [ensures_bind, ensures_require, ensures_fromOption, ensures_pure]
  intro _ _ _ _ _ a ha _ _ _ _ _ _ _ _ _ _ _ _ hstakeTokens residual _
  refine ensures_of_forall fun p => ensures_of_forall fun totalOut => ?_
  have hclose : ∀ s₁, Sound s s₁ → Holds (Sound s) (do
      let s₂ ← s₁.closeTokenAccount stakeTokensInfo.key signerInfo.key
      pure (closeStakeV2Account stakeInfo signerInfo.key s₂)) := by
    intro s₁ hs₁
    refine holds_bind (closeTokenAccount_sound hs₁ _ (tokens_keepsNoLedger hstakeTokens)) ?_
    intro s₂ hs₂
    exact holds_pure (closeStakeV2Account_sound hs₂ _ (stakeV2_keepsNoLedger ha))
  -- What is paid out before, in tokens.
  change Holds (Sound s) _
  repeat' with_reducible first
    | exact hclose _ ‹_›
    | exact hclose s (Sound.refl s)
    | refine holds_ite ?_ ?_
    | refine holds_skip ?_
    | refine holds_then (openTokenAccount_sound (Sound.refl s) _ _ _ _) fun _ _ => ?_
    | refine holds_then (transferTokens_sound (Sound.refl s) _ _ _) fun _ _ => ?_
    | refine holds_then (transferTokens_sound ‹_› _ _ _) fun _ _ => ?_

theorem processMergeStakeV2_sound (clock : Clock) (targetId sourceId : ℕ) (signerInfo mintInfo
    targetStakeInfo targetTokensInfo sourceStakeInfo sourceTokensInfo treasuryInfo systemProgram
    tokenProgram associatedTokenProgram : AccountInfo) (s : State) :
    Holds (Sound s) (processMergeStakeV2 clock targetId sourceId signerInfo mintInfo
      targetStakeInfo targetTokensInfo sourceStakeInfo sourceTokensInfo treasuryInfo systemProgram
      tokenProgram associatedTokenProgram s) := by
  rw [Holds, processMergeStakeV2, mergeStakeV2]
  simp only [ensures_bind, ensures_require, ensures_fromOption, ensures_pure]
  intro _ _ _ _ _ _ _ _ a _ _ _ _ b hb _ _ _ hstokens _ _ _ _ _ _ _ _ _ _ _
  refine Ensures.mono (StakeV2.migrateWeight_spec _ _) fun p hp => ?_
  refine Ensures.mono (StakeV2.migrateWeight_spec _ _) fun q hq => ?_
  refine ensures_of_forall fun _ => ensures_of_forall fun _ => ?_
  refine ensures_of_forall fun _ => ensures_of_forall fun _ => ?_
  refine ensures_of_forall fun _ => ensures_of_forall fun x => ?_
  refine ensures_of_forall fun _ => ?_
  refine Ensures.mono (moveTotalStaked_spec _ _ _) ?_
  rintro _ ⟨total, rfl, -⟩
  have hput := (Sound.refl s).putStakeV2 (t := { q.2 with totalStaked := total }) a x
    (hq.balance.trans hp.balance)
  have hclose : ∀ s₁, Sound s s₁ → Holds (Sound s) (do
      let s₂ ← s₁.closeTokenAccount sourceTokensInfo.key signerInfo.key
      let targetTokens ← (closeStakeV2Account sourceStakeInfo signerInfo.key
        s₂).asAssociatedTokenAccount targetTokensInfo targetStakeInfo.key mintInfo.key
      require (x.balance ≤ targetTokens) .invalidAccountData
      pure (closeStakeV2Account sourceStakeInfo signerInfo.key s₂)) := by
    intro s₁ hs₁
    refine holds_bind (closeTokenAccount_sound hs₁ _ (tokens_keepsNoLedger hstokens)) ?_
    intro s₂ hs₂
    refine holds_any fun _ => holds_any fun _ => ?_
    exact holds_pure (closeStakeV2Account_sound hs₂ _ (stakeV2_keepsNoLedger hb))
  refine holds_ite ?_ (holds_skip (hclose _ hput))
  exact holds_then (transferTokens_sound hput _ _ _) hclose

end Stakes

/-! ## Burying -/

section Bury

variable {s₀ s : State}

/-- A swap changes the lamports of the wrapped SOL account, and the authority got back what
it had. -/
theorem applySwap_sound (hs : Sound s₀ s) {authority solAccount tokenAccount owner mint : Pubkey}
    {o : SwapOutcome} (hsol : solAccount = .associatedTokenAddress owner mint)
    (hauthority : (s.applySwap authority solAccount tokenAccount o).lamports authority =
      s.lamports authority) : Sound s₀ (s.applySwap authority solAccount tokenAccount o) := by
  refine hs.lamports fun k hk => ?_
  by_cases hkey : k = authority
  · rw [hkey]
    exact hauthority.ge
  · have hne : k ≠ solAccount := fun h => tokens_keepsNoLedger hsol (h ▸ hk)
    simp [State.applySwap, hkey, hne]

theorem raiseStakeFactor_sound (hs : Sound s₀ s) (share : ℕ) :
    Holds (Sound s₀) (raiseStakeFactor share s) :=
  holds_any fun _ => holds_any fun _ => holds_pure (hs.treasury hs.2.2)

theorem buryRest_sound (hs : Sound s₀ s) (a : BuryAccounts) (burnAmount : ℕ) :
    Holds (Sound s₀) (buryRest a burnAmount s) := by
  refine holds_ite (holds_ite ?_ ?_) (holds_pure hs)
  · exact holds_then (transferTokens_sound hs _ _ _) fun _ h => holds_pure h
  · exact holds_then (burnTokens_sound hs _ _) fun _ h => holds_pure h

theorem buryShares_sound (hs : Sound s₀ s) (clock : Clock) (a : BuryAccounts)
    (raiseByZero : Bool) (amount solAmount : ℕ) :
    Holds (Sound s₀) (buryShares clock a raiseByZero amount solAmount s) := by
  have hrest : ∀ (shared adminAmount : ℕ) s₁, Sound s₀ s₁ → Holds (Sound s₀) (do
      let afterShare ← subU64 overflow amount shared
      let burnAmount ← subU64 overflow afterShare adminAmount
      let p ← buryRest a burnAmount s₁
      return p.2.programLog (.bury p.1 shared solAmount p.2.mintSupply
        clock.unixTimestamp) : Result State) := by
    intro shared adminAmount s₁ hs₁
    refine holds_any fun _ => holds_any fun n => ?_
    exact holds_bind (buryRest_sound hs₁ a n) fun p hp => holds_pure hp
  have hadmin : ∀ (shared : ℕ) s₁, Sound s₀ s₁ → Holds (Sound s₀) (do
      let adminAmount ← mulU64 overflow amount adminBps
      let adminAmount := adminAmount / denominatorBps
      let s₂ ← if 0 < adminAmount then
          s₁.transferTokens a.treasuryGodlInfo.key a.adminGodlInfo.key adminAmount
        else pure s₁
      let afterShare ← subU64 overflow amount shared
      let burnAmount ← subU64 overflow afterShare adminAmount
      let p ← buryRest a burnAmount s₂
      return p.2.programLog (.bury p.1 shared solAmount p.2.mintSupply
        clock.unixTimestamp) : Result State) := by
    intro shared s₁ hs₁
    refine holds_any fun _ => holds_ite ?_ (holds_skip (hrest _ _ s₁ hs₁))
    exact holds_then (transferTokens_sound hs₁ _ _ _) (hrest _ _)
  refine holds_any fun shared => holds_ite ?_ (holds_skip (hadmin shared s hs))
  exact holds_then (raiseStakeFactor_sound hs shared) (hadmin shared)

theorem processBury_sound (clock : Clock) (a : BuryAccounts) (treasurySolInfo : AccountInfo)
    (cpi : Cpi) (s : State) : Holds (Sound s) (processBury clock a treasurySolInfo cpi s) := by
  simp only [processBury, Holds, ensures_bind, ensures_require, ensures_fromOption]
  refine ensures_of_forall fun n hsol _ _ => ?_
  refine Ensures.mono (syncNative_sound (Sound.refl s) _) fun s₁ hs₁ _ _ _ _ o _ hauthority _ => ?_
  refine ensures_of_forall fun total _ => ?_
  exact buryShares_sound (applySwap_sound hs₁ hsol hauthority) _ _ _ _ _

theorem processBuyGold_sound (clock : Clock) (minXautOut : ℕ) (signerInfo boardInfo configInfo
    treasuryInfo goldVaultInfo goldVaultSolInfo goldVaultXautInfo xautMintInfo tokenProgram
    godlProgram : AccountInfo) (cpi : Cpi) (s : State) :
    Holds (Sound s) (processBuyGold clock minXautOut signerInfo boardInfo configInfo treasuryInfo
      goldVaultInfo goldVaultSolInfo goldVaultXautInfo xautMintInfo tokenProgram godlProgram cpi
      s) := by
  simp only [processBuyGold, Holds, ensures_bind, ensures_require, ensures_fromOption,
    ensures_pure]
  intro _ _ _ _ _ _ _ _ _ _ hsol _ _ _ _ _ _ _ _ _
  refine Ensures.mono (syncNative_sound (Sound.refl s) _) ?_
  intro s₁ hs₁ _ _ _ _ _ _ _ o _ hauthority _ _ _
  refine ensures_of_forall fun p => ensures_of_forall fun _ => ?_
  exact applySwap_sound hs₁ hsol hauthority

end Bury

/-! ## The entry point -/

section EntryPoint

theorem setConfig_sound {s₀ s : State} (hs : Sound s₀ s) (signerInfo configInfo : AccountInfo)
    (change : Config → Config) : Holds (Sound s₀) (setConfig signerInfo configInfo change s) :=
  holds_any fun _ => holds_any fun _ => holds_any fun _ => holds_pure hs

theorem resizeConfig_sound {s₀ s : State} (hs : Sound s₀ s)
    (signerInfo configInfo : AccountInfo) :
    Holds (Sound s₀) (resizeConfig signerInfo configInfo s) := by
  refine holds_ite (holds_any fun _ => ?_) (holds_pure hs)
  exact holds_then (collect_sound hs _ _ _) fun _ h => holds_pure h

theorem processInitializeGoldVault_sound (signerInfo goldVaultInfo goldVaultSolInfo
    goldVaultXautInfo solMintInfo xautMintInfo systemProgram tokenProgram
    associatedTokenProgram : AccountInfo) (s : State) :
    Holds (Sound s) (processInitializeGoldVault signerInfo goldVaultInfo goldVaultSolInfo
      goldVaultXautInfo solMintInfo xautMintInfo systemProgram tokenProgram associatedTokenProgram
      s) := by
  refine holds_any fun _ => holds_any fun _ => holds_any fun _ => holds_any fun _ => ?_
  refine holds_any fun _ => holds_any fun _ => holds_any fun _ => holds_any fun _ => ?_
  refine holds_any fun _ => holds_any fun _ => holds_any fun _ => holds_any fun _ => ?_
  refine holds_then (createAccount_sound (Sound.refl s) _ _ _) fun s₁ hs₁ => ?_
  have hopen : Sound s { s₁ with opened := Function.update s₁.opened .goldVault true } :=
    hs₁.open (by simp) (by simp) (by simp)
  refine holds_then (openTokenAccount_sound ?_ _ _ _ _) fun s₂ hs₂ => ?_
  · exact hopen
  · exact openTokenAccount_sound hs₂ _ _ _ _

/-- The instructions that move a ledger of lamports. -/
def GodlInstruction.MovesLedger : GodlInstruction → Prop
  | .initializeProgram .. | .initializeSolMotherlode | .initializeOtcTreasury
  | .initializeReferrer => True
  | .automate _ | .fundAutomation _ | .claimSolAndFundAutomation => True
  | .deploy _ | .deployWithMinerExtended _ | .checkpoint | .checkpointWithMinerExtended => True
  | .claimSol | .claimReferral | .close | .closePhantomStakeV2 => True
  | .reset | .resetPermissionless => True
  | .preBury .. | .withdrawVault _ | .preBuyGold _ | .executeOtcTrade _ | .withdrawSolOtc => True
  | _ => False

/-- **All other instructions are sound.** -/
theorem processInstruction_sound (env : Env) (clock : Clock) {ix : GodlInstruction}
    (hix : ¬ ix.MovesLedger) (accounts : List AccountInfo) (cpi : Cpi) (s : State) :
    Holds (Sound s) (processInstruction env clock ix accounts cpi s) := by
  cases ix
  case initializeProgram | initializeSolMotherlode | initializeOtcTreasury | initializeReferrer
    | automate | fundAutomation | claimSolAndFundAutomation | deploy | deployWithMinerExtended
    | checkpoint | checkpointWithMinerExtended | claimSol | claimReferral | close
    | closePhantomStakeV2 | reset | resetPermissionless | preBury | withdrawVault | preBuyGold
    | executeOtcTrade | withdrawSolOtc =>
    exact absurd trivial hix
  all_goals simp only [processInstruction, wrongLength]
  all_goals try split
  -- The handlers above.
  all_goals try with_reducible first
    | exact holds_error
    | exact processClaimGodl_sound ..
    | exact processInjectUnrefinedRewards_sound ..
    | exact processSetReferrer_sound ..
    | exact processWithdraw_sound ..
    | exact processDepositV2_sound ..
    | exact processWithdrawV2_sound ..
    | exact processCompoundYieldV2_sound ..
    | exact processReconcileStakeV2_sound ..
    | exact processMigrateStakeWeight_sound ..
    | exact processTopUpStakeV2_sound ..
    | exact processStakeNft_sound ..
    | exact processUnstakeNft_sound ..
    | exact processCloseStakeV2_sound ..
    | exact processMergeStakeV2_sound ..
    | exact processBury_sound ..
    | exact processBuyGold_sound ..
    | exact processInitializeGoldVault_sound ..
  all_goals first
    | unfold processLog
    | unfold processDeposit
    | unfold processClaimYield
    | unfold processClaimYieldV2
    | unfold processSetStakeExecutorV2
    | unfold processBuryTokens
    | unfold processSetAdmin
    | unfold processSetFeeCollector
    | unfold processSetSwapProgram
    | unfold processSetVarAddress
    | unfold processNewVar
    | unfold processSetMotherlodeDenominator
    | unfold processSetGodlPerRound
    | unfold processUpdateProtocolConfig
    | unfold processInjectGodlMotherlode
    | unfold processRebaseTotalStaked
    | unfold processRebaseTotalUnclaimed
    | unfold processCreateMinerExtended
    | unfold processDepositGold
    | unfold processClaimGold
    | unfold processFundGodlOtc
    | unfold processTransferMintAuthority
  -- The other ones are chains of operations that are sound.
  all_goals repeat' with_reducible first
    | assumption
    | exact Sound.refl _
    | exact holds_error
    | exact holds_throw
    | refine holds_pure ?_
    | refine holds_ite ?_ ?_
    | refine holds_skip ?_
    | refine setConfig_sound ?_ _ _ _
    | refine buryShares_sound ?_ _ _ _ _ _
    | refine transferTokens_sound ?_ _ _ _
    | refine holds_then (resizeConfig_sound ?_ _ _) fun _ _ => ?_
    | refine holds_then (transferTokens_sound ?_ _ _ _) fun _ _ => ?_
    | refine holds_then (transferTokensFrom_sound ?_ _ _ _ _) fun _ _ => ?_
    | refine holds_then (openTokenAccount_sound ?_ _ _ _ _) fun _ _ => ?_
    | refine holds_bind (loadOrCreateMinerExtended_sound ?_ _ _ _ _) fun _ _ => ?_
    | refine holds_any fun _ => ?_
    | split
  -- What they return.
  all_goals first
    | exact (Sound.refl s).treasury rfl
    | exact Sound.refl s
    | exact ‹Sound s _›.treasury ‹Sound s _›.2.2

end EntryPoint

end Godl
