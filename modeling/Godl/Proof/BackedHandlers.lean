import Godl.Proof.Covers

/-!
# Instructions that move a ledger of lamports

Each writes the books of one or two accounts and moves as many lamports, so that what was
backed before stays backed.

## Main definitions

* the `*_backed` lemmas.
-/

namespace Godl

open Lib

variable {s : State} {δ : Pubkey → ℤ}

/-! ## Claims -/

/-- The referral share leaves the miner and is booked with the referrer. -/
theorem creditReferrerSol_covers (h : s.Covers δ) (m : Miner) (minerInfo : AccountInfo)
    (share : ℕ) (rest : List AccountInfo) :
    Ensures (creditReferrerSol m minerInfo share rest s) fun s' =>
      s'.Covers (δ - gain minerInfo.key share) ∧
        s'.automations = s.automations := by
  unfold creditReferrerSol
  split
  · split
    · simp only [loadReferrer, ensures_bind, ensures_fromOption, ensures_require,
        ensures_addU64, ensures_pure]
      intro r hr _ _ _ _ _
      have hput := h.putReferrer (r := { r with
        rewardsSol := r.rewardsSol + share
        cumulativeRewardsSol := r.cumulativeRewardsSol + share })
        (s.referrers.key_of_get _ r hr) (due_referrer hr)
      refine Ensures.mono (State.send_spec _ _ _ _) ?_
      rintro _ ⟨l, rfl, hl⟩
      refine ⟨(hput.moved hl).mono fun k _ => ?_, rfl⟩
      simp only [gain, Pi.sub_apply, Pi.add_apply, Referrer.due]
      split_ifs <;> omega
    · exact ensures_throw.2 trivial
  · simp only [ensures_bind, ensures_require, ensures_pure]
    intro _
    refine ⟨h.mono fun k _ => ?_, trivial⟩
    simp only [gain, Pi.sub_apply]
    split_ifs <;> omega

/-- A miner hands out what it claims. -/
theorem Miner.claimSol_due (m : Miner) (clock : Clock) :
    (m.claimSol clock).2.due + (m.claimSol clock).1 = m.due := by
  simp only [Miner.claimSol, Miner.due]
  omega

theorem processClaimSol_backed (hs : s.Backed) (clock : Clock) (signerInfo minerInfo
    systemProgram : AccountInfo) (rest : List AccountInfo) :
    Ensures (processClaimSol clock signerInfo minerInfo systemProgram rest s) State.Backed := by
  simp only [processClaimSol, ensures_bind, ensures_require, ensures_fromOption, ensures_subU64]
  intro _ m hm _ _
  refine ensures_of_forall fun share hshare => ?_
  have hclaim := m.claimSol_due clock
  have hput := hs.covers.putMiner (m := (m.claimSol clock).2) (s.miners.key_of_get _ m hm)
    (due_miner hm)
  refine Ensures.mono (creditReferrerSol_covers hput m minerInfo share rest) fun s₁ hs₁ => ?_
  obtain ⟨hs₁, -⟩ := hs₁
  simp only [ensures_ite, ensures_pure]
  refine ⟨fun _ => ?_, fun _ => hs₁.backed fun k => ?_⟩
  · refine Ensures.mono (State.send_spec _ _ _ _) ?_
    rintro _ ⟨l, rfl, hl⟩
    refine (hs₁.moved hl).backed fun k => ?_
    simp only [gain, Pi.sub_apply, Pi.add_apply, Pi.zero_apply]
    split_ifs <;> omega
  · simp only [gain, Pi.sub_apply, Pi.zero_apply]
    split_ifs <;> omega

/-- What the executor claims goes from the miner into the automation. -/
theorem processClaimSolAndFundAutomation_backed (hs : s.Backed) (clock : Clock) (signerInfo
    minerInfo automationV2Info systemProgram : AccountInfo) (rest : List AccountInfo) :
    Ensures (processClaimSolAndFundAutomation clock signerInfo minerInfo automationV2Info
      systemProgram rest s) State.Backed := by
  simp only [processClaimSolAndFundAutomation, ensures_bind, ensures_require, ensures_fromOption,
    ensures_subU64]
  intro _ a ha _ _ _ _ m hm _ _
  refine ensures_of_forall fun share hshare => ?_
  have hclaim := m.claimSol_due clock
  have hput := hs.covers.putMiner (m := (m.claimSol clock).2) (s.miners.key_of_get _ m hm)
    (due_miner hm)
  refine Ensures.mono (creditReferrerSol_covers hput m minerInfo share rest) fun s₁ hs₁ => ?_
  obtain ⟨hs₁, hautomations⟩ := hs₁
  have ha₁ : s₁.automations.get automationV2Info.key = some a := by rw [hautomations, ha]
  simp only [ensures_ite, ensures_bind, ensures_addU64, ensures_pure]
  refine ⟨fun _ _ => ?_, fun _ => hs₁.backed fun k => ?_⟩
  · have hfund := hs₁.putAutomation (a := { a with balance := a.balance +
      ((m.claimSol clock).1 - share) }) (s₁.automations.key_of_get _ a ha₁) (due_automation ha₁)
    refine Ensures.mono (State.send_spec _ _ _ _) ?_
    rintro _ ⟨l, rfl, hl⟩
    refine (hfund.moved hl).backed fun k => ?_
    simp only [gain, Pi.sub_apply, Pi.add_apply, Pi.zero_apply, AutomationV2.due]
    split_ifs <;> omega
  · simp only [gain, Pi.sub_apply, Pi.zero_apply]
    split_ifs <;> omega

theorem processClaimReferral_backed (hs : s.Backed) (authorityInfo referrerInfo
    referrerTokensInfo authorityTokensInfo mintInfo systemProgram tokenProgram
    associatedTokenProgram : AccountInfo) :
    Ensures (processClaimReferral authorityInfo referrerInfo referrerTokensInfo
      authorityTokensInfo mintInfo systemProgram tokenProgram associatedTokenProgram s)
      State.Backed := by
  simp only [processClaimReferral, ensures_bind, ensures_require, ensures_fromOption]
  intro _ _ _ _ _ _ _ _ _ r hr _ _ _ _
  refine Ensures.mono (State.openTokenAccount_spec _ _ _ _ _) ?_
  rintro _ ⟨-, l, tok, rfl, hl, -⟩
  have hopen : Sound s { s with lamports := l, tokens := tok } :=
    (Sound.refl s).lamports (hl.mono fun _ => KeepsLedger.isDerived)
  have hput := (hs.covers.sound hopen).putReferrer
    (r := { r with rewardsGodl := 0, rewardsSol := 0 }) (s.referrers.key_of_get _ r hr)
    (due_referrer hr)
  -- What the referrer is paid in SOL, once it was paid in tokens.
  have hpay : ∀ s₁ : State, s₁.Covers (0 - gain referrerInfo.key
      ((Referrer.due { r with rewardsGodl := 0, rewardsSol := 0 } : ℤ) - r.due)) →
      Holds State.Backed (if 0 < r.rewardsSol then
        s₁.send referrerInfo.key authorityInfo.key r.rewardsSol else return s₁) := by
    intro s₁ hs₁
    refine holds_ite ?_ (holds_pure (hs₁.backed fun k => ?_))
    · refine Ensures.mono (State.send_spec _ _ _ _) ?_
      rintro _ ⟨l, rfl, hl⟩
      refine (hs₁.moved hl).backed fun k => ?_
      simp only [gain, Pi.sub_apply, Pi.add_apply, Pi.zero_apply, Referrer.due]
      split_ifs <;> omega
    · simp only [gain, Pi.sub_apply, Pi.zero_apply, Referrer.due]
      split_ifs <;> omega
  refine holds_ite (holds_pure (hopen.backed hs)) (holds_ite ?_ (holds_skip (hpay _ hput)))
  refine Ensures.bind (Ensures.mono (transferTokens_sound (Sound.refl _) _ _ _) fun s₁ hs₁ => ?_)
    hpay
  exact hput.sound hs₁

/-! ## Automations -/

theorem processFundAutomation_backed (hs : s.Backed) (deposit : ℕ) (signerInfo automationV2Info
    systemProgram : AccountInfo) :
    Ensures (processFundAutomation deposit signerInfo automationV2Info systemProgram s)
      State.Backed := by
  simp only [processFundAutomation, ensures_bind, ensures_require, ensures_fromOption,
    ensures_addU64]
  intro hsigner _ _ a ha _ _ _
  have hput := hs.covers.putAutomation (a := { a with balance := a.balance + deposit })
    (s.automations.key_of_get _ a ha) (due_automation ha)
  refine Ensures.mono (State.collect_spec _ _ _ _) ?_
  rintro _ ⟨l, rfl, hl, -⟩
  refine (hput.received (signer_keepsNoLedger hsigner) hl).backed fun k => ?_
  simp only [gain, Pi.sub_apply, Pi.add_apply, Pi.zero_apply, AutomationV2.due]
  split_ifs <;> omega

theorem openPoolMemberFor_sound {s₀ s : State} (hs : Sound s₀ s)
    (poolMemberInfo signerInfo : AccountInfo) (isPooled : Bool) :
    Holds (Sound s₀) (openPoolMemberFor poolMemberInfo signerInfo isPooled s) := by
  refine holds_ite (holds_ite ?_ (holds_pure hs)) (holds_any fun _ => holds_any fun _ => ?_)
  · exact holds_then (createAccount_sound hs _ _ _) fun _ h => holds_pure h
  · exact holds_pure hs

/-- The null executor closes the automation. -/
theorem closeAutomate_backed (hs : s.Backed) {automationV2Info signerInfo : AccountInfo}
    {a : AutomationV2} (ha : s.automations.get automationV2Info.key = some a) :
    State.Backed { s.releaseLamports automationV2Info.key signerInfo.key with
      automations := s.automations.erase automationV2Info.key } := by
  have hclose := closeAutomation_covers hs.covers a signerInfo.key
  have hkey : a.pda = automationV2Info.key := s.automations.key_of_get _ a ha
  rw [closeAutomation, hkey] at hclose
  refine State.Covers.backed hclose fun k => ?_
  rw [Function.update_apply]
  split <;> simp

/-- An automation is due what is deposited, and the miner its fee. -/
theorem processAutomate_backed (hs : s.Backed) (args : AutomateArgs) (signerInfo automationV2Info
    executorInfo minerInfo poolMemberInfo systemProgram : AccountInfo) :
    Ensures (processAutomate args signerInfo automationV2Info executorInfo minerInfo poolMemberInfo
      systemProgram s) State.Backed := by
  simp only [processAutomate, ensures_bind, ensures_require]
  refine ensures_of_forall fun strategy hsigner _ hautomation _ hminer _ _ _ => ?_
  have hpayer := signer_keepsNoLedger hsigner
  have hne : minerInfo.key ≠ automationV2Info.key := by
    rw [hautomation, hminer]
    simp
  refine Ensures.mono (openMiner_covers hs _ hminer hsigner) ?_
  rintro ⟨m, _⟩ ⟨hkey, l, rfl, hl⟩
  have hopened := openedMiner_backed hkey hl
  have hdue : ∀ s₁ : State, Sound { s with lamports := l, miners := s.miners.put m } s₁ →
      s₁.due minerInfo.key = m.due := by
    intro s₁ hs₁
    have hput := State.due_putMiner { s with lamports := l } m
    rw [hs₁.1, hput, hkey, Function.update_self]
  simp only [ensures_ite, ensures_bind, ensures_fromOption, ensures_require, ensures_addU64,
    ensures_pure]
  refine ⟨fun _ a ha _ => closeAutomate_backed hopened ha, fun _ => ?_⟩
  refine Ensures.mono (openPoolMemberFor_sound (Sound.refl _) _ _ _) fun s₁ hs₁ => ?_
  refine Ensures.mono (openAutomation_covers (hs₁.backed hopened) hautomation hsigner) ?_
  rintro ⟨a, s₂⟩ ⟨hakey, hdue₂, hs₂⟩ _
  have hdue₁ : s₁.due = s₂.due := hdue₂.symm
  have hm : s₂.due minerInfo.key = m.due := hdue₁ ▸ hdue s₁ hs₁
  have hs₂ : s₂.Covers (gain automationV2Info.key (a.due - s₂.due automationV2Info.key)) :=
    hdue₁ ▸ hs₂
  have hput := hs₂.putAutomation (a := { a with
    amount := args.amount
    balance := a.balance + args.deposit
    executor := executorInfo.key
    fee := args.fee
    mask := args.mask
    config := AutomationV2.configWith a.config strategy args.claimAndFund args.isPooled }) hakey rfl
  refine ⟨fun hfee => ?_, fun _ => ?_⟩
  · have hminer' := hput.putMiner (m := { m with checkpointFee := checkpointFee }) hkey (d := m.due)
      (by
        rw [State.due_putAutomation, Function.update_of_ne (by rw [← hakey] at hne; exact hne), hm])
    refine Ensures.mono (State.collect_spec _ _ _ _) ?_
    rintro _ ⟨l₁, rfl, hl₁, -⟩
    refine Ensures.mono (State.collect_spec _ _ _ _) ?_
    rintro _ ⟨l₂, rfl, hl₂, -⟩
    refine ((hminer'.received hpayer hl₁).received hpayer hl₂).backed fun k => ?_
    simp only [gain, Pi.sub_apply, Pi.add_apply, AutomationV2.due, Miner.due]
    split_ifs <;> omega
  · refine Ensures.mono (State.collect_spec _ _ _ _) ?_
    rintro _ ⟨l₁, rfl, hl₁, -⟩
    refine (hput.received hpayer hl₁).backed fun k => ?_
    simp only [gain, Pi.sub_apply, Pi.add_apply, AutomationV2.due]
    split_ifs <;> omega

/-! ## The treasury -/

/-- Lamports leave an account for the treasury, which books them. -/
theorem collected_backed (hs : s.Backed) (hopen : s.opened .treasury = true) {source : Pubkey}
    (hsource : ¬ KeepsLedger source) {l : Pubkey → ℕ} {n : ℕ}
    (hl : Moved s.lamports l source .treasuryPda n) :
    State.Backed { s with lamports := l, treasury := { s.treasury with
      balance := s.treasury.balance + n } } := by
  have hmoved := hs.covers.received hsource hl
  have hbooked := hmoved.treasury hopen { s.treasury with balance := s.treasury.balance + n }
  refine State.Covers.backed hbooked fun k => ?_
  simp only [gain, Pi.sub_apply, Pi.add_apply, Pi.zero_apply]
  split_ifs <;> omega

theorem closeToTreasury_backed (hs : s.Backed) (hopen : s.opened .treasury = true)
    {info treasuryInfo : AccountInfo} (hinfo : ¬ KeepsLedger info.key)
    (htreasury : treasuryInfo.key = .treasuryPda) (rentPayerInfo : AccountInfo) (size : ℕ) :
    Ensures (closeToTreasury info treasuryInfo rentPayerInfo size s) fun s' =>
      s'.Backed ∧ s'.opened = s.opened ∧ s'.poolRounds = s.poolRounds := by
  have hrelease : ∀ s₁ : State, s₁.Backed →
      (s₁.releaseLamports info.key rentPayerInfo.key).Backed := fun s₁ hs₁ =>
    (releaseLamports_sound (Sound.refl s₁) _ hinfo).backed hs₁
  simp only [closeToTreasury, ensures_bind, ensures_ite, ensures_pure, ensures_addU64]
  refine ⟨fun _ => ?_, fun _ => ⟨hrelease s hs, rfl, rfl⟩⟩
  refine Ensures.mono (State.send_spec s _ _ _) ?_
  rintro _ ⟨l, rfl, hl⟩ _
  rw [htreasury] at hl
  exact ⟨hrelease _ (collected_backed hs hopen hinfo hl), rfl, rfl⟩

theorem processClose_backed (hs : s.Backed) (clock : Clock) (signerInfo boardInfo rentPayerInfo
    roundInfo poolRoundInfo treasuryInfo systemProgram : AccountInfo) :
    Ensures (processClose clock signerInfo boardInfo rentPayerInfo roundInfo poolRoundInfo
      treasuryInfo systemProgram s) State.Backed := by
  simp only [processClose, ensures_bind, ensures_require, ensures_fromOption, ensures_ite,
    ensures_pure]
  intro _ _ _ _ htreasury round hround _ _ _
  have hkey : ¬ KeepsLedger roundInfo.key := by
    rw [← s.rounds.key_of_get _ _ hround]
    exact id
  refine Ensures.mono (closeToTreasury_backed hs htreasury.2 hkey htreasury.1 _ _) ?_
  rintro s₁ ⟨hs₁, hopened, -⟩ _ hpool
  refine ⟨fun _ => hs₁, fun _ _ _ _ => ?_⟩
  have hopen : s₁.opened .treasury = true := by rw [hopened, htreasury.2]
  have hpoolKey : ¬ KeepsLedger poolRoundInfo.key := by
    rw [hpool]
    exact id
  have hs₂ : State.Backed { s₁ with rounds := s₁.rounds.erase roundInfo.key } := hs₁
  refine Ensures.mono (closeToTreasury_backed hs₂ hopen hpoolKey htreasury.1 _ _) ?_
  rintro s₃ ⟨hs₃, -⟩
  exact hs₃

theorem processClosePhantomStakeV2_backed (hs : s.Backed) (signerInfo configInfo stakeInfo
    treasuryInfo : AccountInfo) :
    Ensures (processClosePhantomStakeV2 signerInfo configInfo stakeInfo treasuryInfo s)
      State.Backed := by
  simp only [processClosePhantomStakeV2, ensures_bind, ensures_require, ensures_fromOption,
    ensures_addU64, ensures_pure]
  intro _ _ _ _ a ha _ _ _ htreasury _
  obtain ⟨l, heq, hl⟩ := s.releaseLamports_spec stakeInfo.key treasuryInfo.key
  rw [closeStakeV2Account, heq]
  rw [htreasury.1] at hl
  exact collected_backed hs htreasury.2 (stakeV2_keepsNoLedger ha) hl

/-- Vaulted lamports leave the treasury. -/
theorem processWithdrawVault_backed (hs : s.Backed) (amount : ℕ) (signerInfo configInfo
    treasuryInfo systemProgram : AccountInfo) :
    Ensures (processWithdrawVault amount signerInfo configInfo treasuryInfo systemProgram s)
      State.Backed := by
  simp only [processWithdrawVault, checkVault, ensures_bind, ensures_require, ensures_pure]
  intro _ _ _ htreasury _ _ hamount _
  refine Ensures.mono (State.send_spec s _ _ _) ?_
  rintro _ ⟨l, rfl, hl⟩
  have hbooked := (hs.covers.moved hl).treasury htreasury.2 { s.treasury with
    balance := s.treasury.balance - amount }
  refine State.Covers.backed hbooked fun k => ?_
  rw [htreasury.1]
  simp only [gain, Pi.sub_apply, Pi.add_apply, Pi.zero_apply, Singleton.pda]
  split_ifs <;> omega

theorem processPreBury_backed (hs : s.Backed) (buryAmount chestAmount adminAmount : ℕ) (signerInfo
    configInfo treasuryInfo treasurySolInfo chestInfo adminInfo systemProgram : AccountInfo) :
    Ensures (processPreBury buryAmount chestAmount adminAmount signerInfo configInfo treasuryInfo
      treasurySolInfo chestInfo adminInfo systemProgram s) State.Backed := by
  simp only [processPreBury, checkVault, ensures_bind, ensures_require, ensures_addU64,
    ensures_fromOption, ensures_pure]
  intro _ _ _ _ _ htreasury _ _ _ _ _ _ _ _ hamount _
  refine Ensures.mono (State.send_spec s _ _ _) ?_
  rintro _ ⟨l₁, rfl, hl₁⟩
  refine Ensures.mono (State.send_spec _ _ _ _) ?_
  rintro _ ⟨l₂, rfl, hl₂⟩
  refine Ensures.mono (State.send_spec _ _ _ _) ?_
  rintro _ ⟨l₃, rfl, hl₃⟩
  have hsent := ((hs.covers.moved hl₁).moved hl₂).moved hl₃
  have hbooked := hsent.treasury htreasury.2 { s.treasury with
    balance := s.treasury.balance - (buryAmount + chestAmount + adminAmount) }
  refine State.Covers.backed hbooked fun k => ?_
  rw [htreasury.1]
  simp only [gain, Pi.sub_apply, Pi.add_apply, Pi.zero_apply, Singleton.pda]
  split_ifs <;> omega

/-! ## The SOL motherlode and the OTC desk -/

theorem processPreBuyGold_backed (hs : s.Backed) (clock : Clock) (amount : ℕ) (signerInfo
    configInfo solMotherlodeInfo goldVaultInfo goldVaultSolInfo systemProgram
    rushSolVaultInfo : AccountInfo) :
    Ensures (processPreBuyGold clock amount signerInfo configInfo solMotherlodeInfo goldVaultInfo
      goldVaultSolInfo systemProgram rushSolVaultInfo s) State.Backed := by
  simp only [processPreBuyGold, ensures_bind, ensures_require, ensures_fromOption, ensures_pure]
  intro _ _ _ _ _ _ hmotherlode _ _ _ _ _ _ _ _ _ _ hamount _ p hp
  have hsplit : p.1 + p.2 = amount := by
    rw [SolMotherlode.splitPayout] at hp
    split at hp
    · obtain rfl := Option.some.inj hp
      have hle : amount * rushSolMotherlodeBps / denominatorBps ≤ amount :=
        Nat.div_le_of_le_mul (by rw [Nat.mul_comm]; exact Nat.mul_le_mul_right _ (by decide))
      exact Nat.add_sub_cancel' hle
    · cases hp
  refine Ensures.mono (State.send_spec s _ _ _) ?_
  rintro _ ⟨l₁, rfl, hl₁⟩
  refine Ensures.mono (State.send_spec _ _ _ _) ?_
  rintro _ ⟨l₂, rfl, hl₂⟩
  have hbooked := ((hs.covers.moved hl₁).moved hl₂).solMotherlode hmotherlode.2
    (s.solMotherlode.amount - amount)
  refine State.Covers.backed hbooked fun k => ?_
  rw [hmotherlode.1]
  simp only [gain, Pi.sub_apply, Pi.add_apply, Pi.zero_apply, Singleton.pda]
  split_ifs <;> omega

theorem processWithdrawSolOtc_backed (hs : s.Backed) (signerInfo otcTreasuryInfo chestInfo
    systemProgram : AccountInfo) :
    Ensures (processWithdrawSolOtc signerInfo otcTreasuryInfo chestInfo systemProgram s)
      State.Backed := by
  simp only [processWithdrawSolOtc, ensures_bind, ensures_require, ensures_ite, ensures_pure]
  intro _ _ _ hdesk _ _ _
  refine ⟨fun _ => hs, fun _ => ?_⟩
  refine Ensures.mono (State.send_spec _ _ _ _) ?_
  rintro _ ⟨l, rfl, hl⟩
  have hbooked := hs.covers.otcTreasury hdesk.2 { s.otcTreasury with solBalance := 0 }
  refine State.Covers.backed (hbooked.moved hl) fun k => ?_
  rw [hdesk.1]
  simp only [gain, Pi.sub_apply, Pi.add_apply, Pi.zero_apply, Singleton.pda]
  split_ifs <;> omega

/-- The trade is booked with the desk and paid for. -/
theorem bookOtcTrade_backed (hs : s.Backed) (args : OtcTradeArgs) (a : OtcTradeAccounts)
    (otcTreasuryTokens : ℕ) (hdesk : a.otcTreasuryInfo.key = .otcTreasuryPda)
    (hbuyer : a.buyerInfo.isSigner = true) :
    Ensures (bookOtcTrade args a otcTreasuryTokens s) State.Backed := by
  simp only [bookOtcTrade, ensures_bind, ensures_addU64, ensures_require]
  intro _ _ hopen _ _
  have hbooked := hs.covers.otcTreasury hopen.2 ⟨s.otcTreasury.solBalance + args.solIn,
    s.otcTreasury.godlBalance - (args.godlOut + args.godlBonus)⟩
  refine Ensures.mono (State.collect_spec _ _ _ _) ?_
  rintro _ ⟨l, rfl, hl, -⟩
  refine (hbooked.received (signer_keepsNoLedger hbuyer) hl).backed fun k => ?_
  rw [hdesk]
  simp only [gain, Pi.sub_apply, Pi.add_apply, Pi.zero_apply]
  split_ifs <;> omega

theorem openOtcUser_sound {s₀ s : State} (hs : Sound s₀ s) (a : OtcTradeAccounts) :
    Holds (Sound s₀) (openOtcUser a s) := by
  refine holds_ite ?_ (holds_any fun _ => holds_any fun _ => holds_pure hs)
  exact holds_then (createAccount_sound hs _ _ _) fun _ h => holds_pure h

theorem openOtcStake_sound {s₀ s : State} (hs : Sound s₀ s) (clock : Clock) (args : OtcTradeArgs)
    (a : OtcTradeAccounts) (otcTreasuryTokens : ℕ) :
    Holds (Sound s₀) (openOtcStake clock args a otcTreasuryTokens s) := by
  simp only [openOtcStake, Holds, ensures_bind, ensures_require, ensures_pure]
  refine Ensures.mono (createAccount_sound hs _ _ _) fun s₁ hs₁ _ => ?_
  refine ensures_of_forall fun x => ?_
  have hopen : Sound s₀ { s₁ with
      stakesV2 := s₁.stakesV2.put (.derived a.buyerInfo.key args.stakeId x) } := hs₁
  refine Ensures.mono (openTokenAccount_sound hopen _ _ _ _) fun s₂ hs₂ => ?_
  refine Ensures.mono (StakeV2.deposit_spec _ _ _ _ _) ?_
  rintro ⟨paid, x', t⟩ ⟨-, hturn⟩ _
  have hput := hs₂.putStakeV2 (.derived a.buyerInfo.key args.stakeId x) x'
    (hturn.balance.trans hs₂.2.2)
  exact Ensures.mono (transferTokens_sound hput _ _ _) fun s₃ hs₃ => hs₃

/-- The bonus is no matter of lamports. -/
theorem payOtcBonus_sound {s₀ s : State} (hs : Sound s₀ s) (args : OtcTradeArgs)
    (a : OtcTradeAccounts) (m : Miner) :
    Ensures (payOtcBonus args a m s) fun p =>
      Sound s₀ p.2 ∧ p.1.pda = m.pda ∧ p.1.due = m.due := by
  simp only [payOtcBonus, ensures_ite, ensures_bind, ensures_pure]
  refine ⟨fun _ => ?_, fun _ => ⟨hs, trivial, trivial⟩⟩
  exact Ensures.mono (transferTokens_sound hs _ _ _) fun s₁ hs₁ =>
    creditUnrefined_sound hs₁ _ _ _ _ _ m

theorem processExecuteOtcTrade_backed (hs : s.Backed) (clock : Clock) (args : OtcTradeArgs)
    (a : OtcTradeAccounts) : Ensures (processExecuteOtcTrade clock args a s) State.Backed := by
  simp only [processExecuteOtcTrade, checkOtcTrade, ensures_bind, ensures_addU64, ensures_require,
    ensures_fromOption, ensures_pure]
  intro hbuyer _ _ _ _ hminer _ _ _ hdesk _ _ _ _ _ _ _ _ _ _ _ _ _ _ _ _ _ _ _ _ _ _ _
  refine Ensures.mono (bookOtcTrade_backed hs args a _ hdesk hbuyer) fun s₁ hs₁ => ?_
  refine Ensures.mono (openMiner_covers hs₁ _ hminer hbuyer) ?_
  rintro ⟨m, _⟩ ⟨hkey, l, rfl, hl⟩
  refine Ensures.mono (openOtcUser_sound (Sound.refl _) a) fun p hp => ?_
  refine Ensures.mono (openOtcStake_sound hp clock args a _) fun q hq => ?_
  refine Ensures.mono (payOtcBonus_sound hq args a m) ?_
  rintro ⟨m', s₂⟩ ⟨hs₂, hpda, hdue⟩ _ _ _ _ _ _ _
  have hcovers : s₂.Covers (gain a.minerInfo.key (m'.due - s₂.due a.minerInfo.key)) := by
    rw [hdue, hs₂.1]
    exact hl.sound hs₂
  exact openedMiner_backed (hpda.trans hkey) hcovers

/-! ## Setting up -/

/-- What is due once a singleton is opened with an empty ledger. -/
theorem State.Backed.of_covered {s' : State} {k : Pubkey} {n : ℕ}
    (h : Covered KeepsLedger (Function.update s.due k n) s'.lamports 0)
    (hdue : s'.due = Function.update s.due k n) : s'.Backed := by
  have hcovers : s'.Covers 0 := by
    rw [State.Covers, hdue]
    exact h
  exact hcovers.backed fun _ => le_refl _

theorem processInitialize_backed (hs : s.Backed) (admin buryAuthority feeCollector : Pubkey)
    (godlPerRound : ℕ) (signerInfo configInfo treasuryInfo boardInfo roundInfo
    systemProgram : AccountInfo) :
    Ensures (processInitialize admin buryAuthority feeCollector godlPerRound signerInfo configInfo
      treasuryInfo boardInfo roundInfo systemProgram s) State.Backed := by
  simp only [processInitialize, ensures_bind, ensures_require, ensures_pure]
  intro _ hsigner _ _ _ _ _ _ _ htreasury _ _ _ _ _ _
  refine Ensures.mono (createAccount_sound (Sound.refl s) _ _ _) fun s₁ hs₁ => ?_
  refine Ensures.mono (createAccount_covers (hs₁.backed hs).covers _ _ hsigner (le_refl _)) ?_
  rintro _ ⟨l₂, rfl, hl₂⟩
  refine Ensures.mono (State.createAccount_spec _ _ _ _) ?_
  rintro _ ⟨-, l₃, rfl, -, hl₃⟩
  refine Ensures.mono (State.createAccount_spec _ _ _ _) ?_
  rintro _ ⟨-, l₄, rfl, -, hl₄⟩
  rw [htreasury] at hl₂
  refine State.Backed.of_covered (Covered.grow hl₂ fun k hk =>
    (hl₃ k hk.isDerived).trans (hl₄ k hk.isDerived)) ?_
  funext k
  cases k with
  | treasuryPda => simp [State.due]
  | _ => rw [Function.update_of_ne (by simp)]; simp [State.due]

theorem processInitializeSolMotherlode_backed (hs : s.Backed) (signerInfo solMotherlodeInfo
    systemProgram : AccountInfo) :
    Ensures (processInitializeSolMotherlode signerInfo solMotherlodeInfo systemProgram s)
      State.Backed := by
  simp only [processInitializeSolMotherlode, ensures_bind, ensures_require, ensures_pure]
  intro hsigner _ _ _ _ hkey
  refine Ensures.mono (createAccount_covers hs.covers _ _ hsigner (le_refl _)) ?_
  rintro _ ⟨l, rfl, hl⟩
  rw [hkey] at hl
  refine State.Backed.of_covered hl ?_
  funext k
  cases k with
  | solMotherlodePda => simp [State.due]
  | _ => rw [Function.update_of_ne (by simp)]; simp [State.due]

theorem processInitializeOtcTreasury_backed (hs : s.Backed) (signerInfo mintInfo otcTreasuryInfo
    otcTreasuryTokensInfo systemProgram tokenProgram associatedTokenProgram : AccountInfo) :
    Ensures (processInitializeOtcTreasury signerInfo mintInfo otcTreasuryInfo
      otcTreasuryTokensInfo systemProgram tokenProgram associatedTokenProgram s)
      State.Backed := by
  simp only [processInitializeOtcTreasury, ensures_bind, ensures_require]
  intro hsigner _ _ _ _ hkey _ _ _ _
  refine Ensures.mono (createAccount_covers hs.covers _ _ hsigner (le_refl _)) ?_
  rintro _ ⟨l, rfl, hl⟩
  rw [hkey] at hl
  have hopen : State.Backed { s with
      lamports := l
      opened := Function.update s.opened .otcTreasury true
      otcTreasury := ⟨0, 0⟩ } := by
    refine State.Backed.of_covered hl ?_
    funext k
    cases k with
    | otcTreasuryPda => simp [State.due]
    | _ => rw [Function.update_of_ne (by simp)]; simp [State.due]
  exact Ensures.mono (openTokenAccount_sound (Sound.refl _) _ _ _ _) fun s' hs' =>
    hs'.backed hopen

theorem processInitializeReferrer_backed (hs : s.Backed) (authorityInfo referrerInfo
    referrerTokensInfo mintInfo systemProgram tokenProgram
    associatedTokenProgram : AccountInfo) :
    Ensures (processInitializeReferrer authorityInfo referrerInfo referrerTokensInfo mintInfo
      systemProgram tokenProgram associatedTokenProgram s) State.Backed := by
  simp only [processInitializeReferrer, ensures_bind, ensures_require]
  intro hsigner _ _ _ hkey _ _ _ _
  refine Ensures.mono (createAccount_covers hs.covers _ _ hsigner (le_refl _)) ?_
  rintro _ ⟨l, rfl, hl⟩
  rw [hkey] at hl
  have hopen : State.Backed { s with
      lamports := l
      referrers := s.referrers.put ⟨authorityInfo.key, 0, 0, 0, 0, 0⟩ } :=
    State.Backed.of_covered hl (State.due_putReferrer s _)
  exact Ensures.mono (openTokenAccount_sound (Sound.refl _) _ _ _ _) fun s' hs' =>
    hs'.backed hopen

end Godl
