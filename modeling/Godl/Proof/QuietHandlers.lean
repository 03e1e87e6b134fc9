import Godl.Proof.Frames
import Godl.Program.Claim
import Godl.Program.Gold
import Godl.Program.Otc
import Godl.Program.Admin

/-!
# Instructions that leave the books alone

SOL claims, automations, referrals, the config, the vault of SOL and the funding of the
OTC desk move lamports and tokens, but none of those that back a book, and write accounts
that no book reads.
-/

namespace Godl

open Lib

variable {s : State}

/-! ## Addresses -/

theorem miner_not_isRound {k : Pubkey} {m : Miner} (h : s.miners.get k = some m) :
    ¬ IsRound k := by
  rw [← s.miners.key_of_get k m h]
  rintro ⟨id, hid⟩
  cases hid

/-- The token account of a signer is no vault. -/
theorem signerTokens_not_isVault {info : AccountInfo} (hsigner : info.isSigner = true)
    (mint : Pubkey) : ¬ IsVault (.associatedTokenAddress info.key mint) := by
  have hkey := info.isKeypair_of_isSigner hsigner
  rintro (h | h) <;>
  · injection h with howner
    rw [howner] at hkey
    cases hkey

/-! ## Claims -/

theorem loadReferrer_spec (referrerInfo : AccountInfo) (expected : Pubkey) (s : State) :
    Ensures (loadReferrer referrerInfo expected s) fun _ =>
      ∃ authority, referrerInfo.key = .referrerPda authority := by
  simp only [loadReferrer, ensures_bind, ensures_fromOption, ensures_require, ensures_pure]
  exact fun _ _ _ _ hkey => ⟨_, hkey⟩

theorem creditReferrerSol_quiet {miner : Miner} {minerInfo : AccountInfo} {share : ℕ}
    {rest : List AccountInfo} (h : ¬ IsRound minerInfo.key) :
    Ensures (creditReferrerSol miner minerInfo share rest s) (Quiet s) := by
  unfold creditReferrerSol
  split
  · split
    · simp only [ensures_bind, ensures_addU64]
      refine Ensures.mono (loadReferrer_spec _ _ s) fun referrer _ _ _ => ?_
      refine Quiet.followed ?_ (send_quiet _ share h)
      exact quiet_of_eq rfl rfl rfl rfl rfl rfl rfl rfl rfl rfl (.of_eq rfl rfl rfl rfl)
    · simp
  · simp only [ensures_bind, ensures_require, ensures_pure]
    exact fun _ => Quiet.refl s

theorem processClaimSol_quiet (clock : Clock) (signerInfo minerInfo systemProgram : AccountInfo)
    (rest : List AccountInfo) (s : State) :
    Ensures (processClaimSol clock signerInfo minerInfo systemProgram rest s) (Quiet s) := by
  simp only [processClaimSol, ensures_bind, ensures_require, ensures_fromOption, ensures_subU64]
  intro _ m hm _ _
  have hround := miner_not_isRound hm
  have hput : Quiet s { s with miners := s.miners.put (m.claimSol clock).2 } :=
    replaceMiner_quiet hm rfl rfl rfl
  refine ensures_of_forall fun share _ => ?_
  refine Ensures.mono (creditReferrerSol_quiet hround) fun s' hs' => ?_
  rw [ensures_ite, ensures_pure]
  exact ⟨fun _ => (hput.trans hs').followed (send_quiet _ _ hround), fun _ => hput.trans hs'⟩

theorem processClaimSolAndFundAutomation_quiet (clock : Clock) (signerInfo minerInfo
    automationV2Info systemProgram : AccountInfo) (rest : List AccountInfo) (s : State) :
    Ensures (processClaimSolAndFundAutomation clock signerInfo minerInfo automationV2Info
      systemProgram rest s) (Quiet s) := by
  simp only [processClaimSolAndFundAutomation, ensures_bind, ensures_require,
    ensures_fromOption, ensures_subU64]
  intro _ automation _ _ _ _ _ m hm _ _
  have hround := miner_not_isRound hm
  have hput : Quiet s { s with miners := s.miners.put (m.claimSol clock).2 } :=
    replaceMiner_quiet hm rfl rfl rfl
  refine ensures_of_forall fun share _ => ?_
  refine Ensures.mono (creditReferrerSol_quiet hround) fun s' hs' => ?_
  simp only [ensures_ite, ensures_bind, ensures_addU64, ensures_pure]
  refine ⟨fun _ _ => ?_, fun _ => hput.trans hs'⟩
  refine (hput.trans hs').followed (Quiet.followed ?_ (send_quiet _ _ hround))
  exact quiet_of_eq rfl rfl rfl rfl rfl rfl rfl rfl rfl rfl (.of_eq rfl rfl rfl rfl)

/-! ## Automations -/

/-- Opening a miner is quiet, and so is writing it back unchanged. -/
theorem openMiner_quiet {e : ProgramError} {minerInfo : AccountInfo} {authority : Pubkey}
    {payer : AccountInfo} (hkey : minerInfo.key = .minerPda authority) :
    Ensures (openMiner e minerInfo authority payer s) fun p =>
      Quiet s { p.2 with miners := p.2.miners.put p.1 } := by
  refine Ensures.mono (openMiner_spec e minerInfo authority payer s) ?_
  rintro ⟨m, _⟩ ⟨l, rfl, hl, hauth, hm⟩
  have hlamports : Quiet s { s with lamports := l } :=
    quiet_lamports (hl.mono fun _ => isDerived_of_isRound)
  have hpda : m.pda = minerInfo.key := by rw [Miner.pda, hauth, hkey]
  refine hlamports.trans ?_
  rw [← hpda] at hm
  rcases hm with ⟨hnone, rfl⟩ | hsome
  · exact putMiner_quiet (Store.view_of_none hnone) (Store.view_of_none hnone)
  · exact putMiner_quiet (wagers_of_get hsome) (ledgers_of_get hsome)

theorem openPoolMemberFor_quiet {poolMemberInfo signerInfo : AccountInfo} (isPooled : Bool)
    (hkey : poolMemberInfo.key = .poolMemberPda signerInfo.key) :
    Ensures (openPoolMemberFor poolMemberInfo signerInfo isPooled s) (Quiet s) := by
  unfold openPoolMemberFor
  split
  · split
    · simp only [ensures_bind, ensures_pure]
      refine Ensures.mono (createAccount_quiet s _ _ _) fun s' hs' => ?_
      obtain ⟨hempty, hs'⟩ := hs'
      refine hs'.trans ?_
      have hnone : s.poolMembers.get poolMemberInfo.key = none :=
        (State.noData hempty).poolMembers
      have hview : (s'.poolMembers.put ⟨signerInfo.key, 0, fun _ => 0, 0⟩).view
          (⟨0, fun _ => 0⟩, 0) (fun p => (p.membership, p.totalDeployed)) = s'.members := by
        refine Store.view_put_of_eq ?_
        have hold := congrFun hs'.game.members poolMemberInfo.key
        rw [State.members, State.members, Store.view_of_none hnone, hkey] at hold
        exact hold
      exact ⟨⟨rfl, rfl, rfl, rfl⟩, ⟨rfl, rfl, rfl, rfl⟩, ⟨rfl, rfl⟩, ⟨rfl, rfl, rfl, rfl, hview⟩,
        rfl, .of_eq rfl rfl rfl rfl⟩
    · rw [ensures_pure]
      exact Quiet.refl s
  · simp only [ensures_bind, ensures_fromOption, ensures_require, ensures_pure]
    exact fun _ _ _ => Quiet.refl s

theorem openAutomation_quiet (automationV2Info signerInfo : AccountInfo) (s : State) :
    Ensures (openAutomation automationV2Info signerInfo s) fun p => Quiet s p.2 := by
  unfold openAutomation
  split
  · simp only [ensures_bind, ensures_pure]
    exact Ensures.mono (createAccount_quiet s _ _ _) fun _ h => h.2
  · simp only [ensures_bind, ensures_fromOption, ensures_require, ensures_pure]
    exact fun _ _ _ => Quiet.refl s

theorem processAutomate_quiet (args : AutomateArgs) (signerInfo automationV2Info executorInfo
    minerInfo poolMemberInfo systemProgram : AccountInfo) (s : State) :
    Ensures (processAutomate args signerInfo automationV2Info executorInfo minerInfo
      poolMemberInfo systemProgram s) (Quiet s) := by
  simp only [processAutomate, ensures_bind, ensures_require]
  refine ensures_of_forall fun strategy hsigner _ hautomation _ hminer _ hmember _ => ?_
  refine Ensures.mono (openMiner_quiet hminer) fun r hs₁ => ?_
  obtain ⟨m, s₁⟩ := r
  rw [ensures_ite]
  refine ⟨fun _ => ?_, fun _ => ?_⟩
  · simp only [ensures_bind, ensures_fromOption, ensures_require, ensures_pure]
    intro automation _ _
    refine hs₁.trans (Quiet.trans (releaseLamports_quiet _ _ ?_)
      (quiet_of_eq rfl rfl rfl rfl rfl rfl rfl rfl rfl rfl (.of_eq rfl rfl rfl rfl)))
    simp [IsRound, hautomation]
  · simp only [ensures_bind, ensures_addU64]
    refine Ensures.mono (openPoolMemberFor_quiet _ hmember) fun s₂ hs₂ => ?_
    refine Ensures.mono (openAutomation_quiet _ _ s₂) fun r hs₃ _ => ?_
    obtain ⟨automation, s₃⟩ := r
    have hopen := hs₂.trans hs₃
    have hs := hs₁.trans hopen
    -- The miner is still the one that was opened, as far as the books can see.
    have hwager : s₃.wagers m.pda = m.wager := by
      rw [hopen.game.wagers]
      exact wagers_of_get (Store.get_put_self _ _)
    have hledger : s₃.ledgers m.pda = m.ledger := by
      rw [hopen.ledger.ledgers]
      exact ledgers_of_get (Store.get_put_self _ _)
    simp only [ensures_ite, ensures_bind, ensures_pure]
    refine ⟨fun _ => ?_, fun _ => ?_⟩
    · refine Ensures.mono (collect_quiet _ _ _ _) fun s₄ hs₄ => ?_
      refine (hs.trans (Quiet.trans ?_ hs₄)).followed (collect_quiet _ _ _ _)
      have hmiddle : Quiet s₃ { s₃ with
          miners := s₃.miners.put { m with checkpointFee := checkpointFee } } :=
        putMiner_quiet (m := { m with checkpointFee := checkpointFee }) hwager hledger
      refine hmiddle.trans ?_
      exact quiet_of_eq rfl rfl rfl rfl rfl rfl rfl rfl rfl rfl (.of_eq rfl rfl rfl rfl)
    · refine (hs.trans ?_).followed (collect_quiet _ _ _ _)
      exact quiet_of_eq rfl rfl rfl rfl rfl rfl rfl rfl rfl rfl (.of_eq rfl rfl rfl rfl)

theorem processFundAutomation_quiet (deposit : ℕ) (signerInfo automationV2Info
    systemProgram : AccountInfo) (s : State) :
    Ensures (processFundAutomation deposit signerInfo automationV2Info systemProgram s)
      (Quiet s) := by
  simp only [processFundAutomation, ensures_bind, ensures_require, ensures_fromOption,
    ensures_addU64]
  intro _ _ _ _ _ _ _ _
  refine Quiet.followed ?_ (collect_quiet _ _ _ _)
  exact quiet_of_eq rfl rfl rfl rfl rfl rfl rfl rfl rfl rfl (.of_eq rfl rfl rfl rfl)

/-! ## Referrals -/

theorem processInitializeReferrer_quiet (authorityInfo referrerInfo referrerTokensInfo mintInfo
    systemProgram tokenProgram associatedTokenProgram : AccountInfo) (s : State) :
    Ensures (processInitializeReferrer authorityInfo referrerInfo referrerTokensInfo mintInfo
      systemProgram tokenProgram associatedTokenProgram s) (Quiet s) := by
  simp only [processInitializeReferrer, ensures_bind, ensures_require]
  intro _ _ _ _ _ _ _ _ _
  refine Ensures.mono (createAccount_quiet s _ _ _) fun s₁ hs₁ => ?_
  obtain ⟨_, hs₁⟩ := hs₁
  refine Ensures.mono (openTokenAccount_quiet _ _ _ _ _) fun s₂ hs₂ => ?_
  obtain ⟨_, hs₂⟩ := hs₂
  refine hs₁.trans (Quiet.trans ?_ hs₂)
  exact quiet_of_eq rfl rfl rfl rfl rfl rfl rfl rfl rfl rfl (.of_eq rfl rfl rfl rfl)

theorem processSetReferrer_quiet (desired : Pubkey) (authorityInfo minerInfo : AccountInfo)
    (rest : List AccountInfo) (s : State) :
    Ensures (processSetReferrer desired authorityInfo minerInfo rest s) (Quiet s) := by
  simp only [processSetReferrer, ensures_bind, ensures_require, ensures_fromOption,
    ensures_ite, ensures_pure, ensures_throw]
  intro _ m hm _
  refine ⟨fun _ => Quiet.refl s, fun _ => ⟨fun _ => ?_, fun _ => ⟨fun _ => trivial, fun _ => ?_⟩⟩⟩
  · exact replaceMiner_quiet hm rfl rfl rfl
  · split
    · simp only [ensures_bind, ensures_require, ensures_addU64, ensures_pure]
      refine ensures_of_forall fun referrer _ _ => ?_
      have hcount : Quiet s { s with
          referrers := s.referrers.put { referrer with
            referrerCount := referrer.referrerCount + 1 } } :=
        quiet_of_eq rfl rfl rfl rfl rfl rfl rfl rfl rfl rfl (.of_eq rfl rfl rfl rfl)
      exact hcount.trans (replaceMiner_quiet (s := { s with referrers := _ }) hm rfl rfl rfl)
    · simp

theorem processClaimReferral_quiet (authorityInfo referrerInfo referrerTokensInfo
    authorityTokensInfo mintInfo systemProgram tokenProgram
    associatedTokenProgram : AccountInfo) (s : State) :
    Ensures (processClaimReferral authorityInfo referrerInfo referrerTokensInfo
      authorityTokensInfo mintInfo systemProgram tokenProgram associatedTokenProgram s)
      (Quiet s) := by
  simp only [processClaimReferral, ensures_bind, ensures_require, ensures_fromOption]
  intro _ _ _ _ _ _ _ _ hreferrer referrer _ _ htokens _ _
  have htokens' : ¬ IsVault referrerTokensInfo.key := by
    rw [htokens, hreferrer]
    simp [IsVault]
  have hround : ¬ IsRound referrerInfo.key := by simp [IsRound, hreferrer]
  refine Ensures.mono (openTokenAccount_quiet s _ _ _ _) fun s₁ hs₁ => ?_
  obtain ⟨_, hs₁⟩ := hs₁
  rw [ensures_ite, ensures_pure]
  refine ⟨fun _ => hs₁, fun _ => ?_⟩
  have hput (t) : Quiet s { s₁ with referrers := t } :=
    hs₁.trans (quiet_of_eq rfl rfl rfl rfl rfl rfl rfl rfl rfl rfl (.of_eq rfl rfl rfl rfl))
  simp only [ensures_bind, ensures_ite, ensures_pure]
  refine ⟨fun _ => ?_, fun _ => ⟨fun _ => ?_, fun _ => hput _⟩⟩
  · refine Ensures.mono (transferTokens_quiet _ _ htokens') fun s₂ hs₂ => ⟨fun _ => ?_, fun _ => ?_⟩
    · exact ((hput _).trans hs₂).followed (send_quiet _ _ hround)
    · exact (hput _).trans hs₂
  · exact (hput _).followed (send_quiet _ _ hround)

/-! ## The config -/

theorem setConfig_quiet (signerInfo configInfo : AccountInfo) (change : Config → Config)
    (s : State) : Ensures (setConfig signerInfo configInfo change s) (Quiet s) := by
  simp only [setConfig, ensures_bind, ensures_require, ensures_pure]
  exact fun _ _ _ => quiet_of_eq rfl rfl rfl rfl rfl rfl rfl rfl rfl rfl (.of_eq rfl rfl rfl rfl)

theorem processSetVarAddress_quiet (signerInfo boardInfo configInfo
    newVarAddressInfo : AccountInfo) (s : State) :
    Ensures (processSetVarAddress signerInfo boardInfo configInfo newVarAddressInfo s)
      (Quiet s) := by
  simp only [processSetVarAddress, ensures_bind, ensures_require, ensures_fromOption]
  exact fun _ _ _ _ _ => setConfig_quiet _ _ _ s

theorem resizeConfig_quiet (signerInfo configInfo : AccountInfo) (s : State) :
    Ensures (resizeConfig signerInfo configInfo s) (Quiet s) := by
  simp only [resizeConfig, ensures_ite, ensures_bind, ensures_require, ensures_pure]
  refine ⟨fun _ _ => ?_, fun _ => Quiet.refl s⟩
  refine Ensures.mono (collect_quiet s _ _ _) fun s₁ hs₁ => hs₁.trans ?_
  exact quiet_of_eq rfl rfl rfl rfl rfl rfl rfl rfl rfl rfl (.of_eq rfl rfl rfl rfl)

theorem processUpdateProtocolConfig_quiet (roundSlots intermissionSlots : ℕ)
    (signerInfo configInfo systemProgram : AccountInfo) (s : State) :
    Ensures (processUpdateProtocolConfig roundSlots intermissionSlots signerInfo configInfo
      systemProgram s) (Quiet s) := by
  simp only [processUpdateProtocolConfig, ensures_bind, ensures_require]
  intro _ _ _ _
  exact Ensures.mono (resizeConfig_quiet _ _ s) fun s₁ hs₁ _ =>
    hs₁.followed (setConfig_quiet _ _ _ s₁)

theorem processNewVar_quiet (env : Env) (signerInfo boardInfo configInfo providerInfo varInfo
    systemProgram entropyProgram : AccountInfo) (cpi : Cpi) (s : State) :
    Ensures (processNewVar env signerInfo boardInfo configInfo providerInfo varInfo
      systemProgram entropyProgram cpi s) (Quiet s) := by
  simp only [processNewVar, ensures_bind, ensures_require, ensures_fromOption, ensures_pure]
  intro _ _ _ _ _ _ _ _
  exact quiet_of_eq rfl rfl rfl rfl rfl rfl rfl rfl rfl rfl (.of_eq rfl rfl rfl rfl)

theorem processTransferMintAuthority_quiet (env : Env) (signerInfo configInfo mintInfo
    treasuryInfo godlMintAuthorityInfo tokenProgram : AccountInfo) (s : State) :
    Ensures (processTransferMintAuthority env signerInfo configInfo mintInfo treasuryInfo
      godlMintAuthorityInfo tokenProgram s) (Quiet s) := by
  simp only [processTransferMintAuthority, ensures_bind, ensures_require, ensures_pure]
  intro _ _ _ _ _ _ _ _ _
  exact quiet_of_eq rfl rfl rfl rfl rfl rfl rfl rfl rfl rfl (.of_eq rfl rfl rfl rfl)

/-! ## Vaults of SOL -/

theorem processWithdrawVault_quiet (amount : ℕ) (signerInfo configInfo treasuryInfo
    systemProgram : AccountInfo) (s : State) :
    Ensures (processWithdrawVault amount signerInfo configInfo treasuryInfo systemProgram s)
      (Quiet s) := by
  simp only [processWithdrawVault, checkVault, ensures_bind, ensures_require, ensures_pure]
  intro _ _ _ htreasury _ _ _ _
  have hround : ¬ IsRound treasuryInfo.key := by
    rw [htreasury.1]
    simp [IsRound, Singleton.pda]
  refine Ensures.mono (send_quiet _ _ hround) fun s₁ hs₁ => hs₁.trans ?_
  exact quiet_of_eq rfl rfl rfl rfl rfl rfl rfl rfl rfl rfl (.of_eq rfl rfl rfl rfl)

theorem processPreBury_quiet (buryAmount chestAmount adminAmount : ℕ) (signerInfo configInfo
    treasuryInfo treasurySolInfo chestInfo adminInfo systemProgram : AccountInfo) (s : State) :
    Ensures (processPreBury buryAmount chestAmount adminAmount signerInfo configInfo treasuryInfo
      treasurySolInfo chestInfo adminInfo systemProgram s) (Quiet s) := by
  simp only [processPreBury, checkVault, ensures_bind, ensures_require, ensures_addU64,
    ensures_fromOption, ensures_pure]
  intro _ _ _ _ _ htreasury _ _ _ _ _ _ _ _ _ _
  have hround : ¬ IsRound treasuryInfo.key := by
    rw [htreasury.1]
    simp [IsRound, Singleton.pda]
  refine Ensures.mono (send_quiet _ _ hround) fun s₁ hs₁ => ?_
  refine Ensures.mono (send_quiet _ _ hround) fun s₂ hs₂ => ?_
  refine Ensures.mono (send_quiet _ _ hround) fun s₃ hs₃ => ?_
  refine ((hs₁.trans hs₂).trans hs₃).trans ?_
  exact quiet_of_eq rfl rfl rfl rfl rfl rfl rfl rfl rfl rfl (.of_eq rfl rfl rfl rfl)

/-- Opening a singleton that no book reads. -/
theorem open_quiet (w : Singleton) :
    Quiet s { s with opened := Function.update s.opened w true } := by
  refine quiet_of_eq rfl rfl rfl rfl rfl rfl rfl rfl rfl rfl ⟨fun v hv => ?_, Grew.refl _ _,
    le_refl _, le_refl _, le_refl _⟩
  by_cases h : v = w
  · simp [h]
  · simpa [h] using hv

theorem processInitializeSolMotherlode_quiet (signerInfo solMotherlodeInfo
    systemProgram : AccountInfo) (s : State) :
    Ensures (processInitializeSolMotherlode signerInfo solMotherlodeInfo systemProgram s)
      (Quiet s) := by
  simp only [processInitializeSolMotherlode, ensures_bind, ensures_require, ensures_pure]
  intro _ _ _ _ _ _
  refine Ensures.mono (createAccount_quiet s _ _ _) fun s₁ hs₁ => hs₁.2.trans ?_
  refine (open_quiet .solMotherlode).trans ?_
  exact quiet_of_eq rfl rfl rfl rfl rfl rfl rfl rfl rfl rfl (.of_eq rfl rfl rfl rfl)

theorem processPreBuyGold_quiet (clock : Clock) (amount : ℕ) (signerInfo configInfo
    solMotherlodeInfo goldVaultInfo goldVaultSolInfo systemProgram
    rushSolVaultInfo : AccountInfo) (s : State) :
    Ensures (processPreBuyGold clock amount signerInfo configInfo solMotherlodeInfo
      goldVaultInfo goldVaultSolInfo systemProgram rushSolVaultInfo s) (Quiet s) := by
  simp only [processPreBuyGold, ensures_bind, ensures_require, ensures_fromOption, ensures_pure]
  intro _ _ _ _ _ hmotherlode _ _ _ _ _ _ _ _ _ _ _ _ _ p _
  have hround : ¬ IsRound solMotherlodeInfo.key := by
    rw [hmotherlode]
    simp [IsRound]
  refine Ensures.mono (send_quiet _ _ hround) fun s₁ hs₁ => ?_
  refine Ensures.mono (send_quiet _ _ hround) fun s₂ hs₂ => (hs₁.trans hs₂).trans ?_
  exact quiet_of_eq rfl rfl rfl rfl rfl rfl rfl rfl rfl rfl (.of_eq rfl rfl rfl rfl)

/-! ## The OTC desk -/

theorem processInitializeOtcTreasury_quiet (signerInfo mintInfo otcTreasuryInfo
    otcTreasuryTokensInfo systemProgram tokenProgram associatedTokenProgram : AccountInfo)
    (s : State) :
    Ensures (processInitializeOtcTreasury signerInfo mintInfo otcTreasuryInfo
      otcTreasuryTokensInfo systemProgram tokenProgram associatedTokenProgram s) (Quiet s) := by
  simp only [processInitializeOtcTreasury, ensures_bind, ensures_require]
  intro _ _ _ _ _ _ _ _ _ _
  refine Ensures.mono (createAccount_quiet s _ _ _) fun s₁ hs₁ => ?_
  obtain ⟨_, hs₁⟩ := hs₁
  refine Ensures.mono (openTokenAccount_quiet _ _ _ _ _) fun s₂ hs₂ => ?_
  obtain ⟨_, hs₂⟩ := hs₂
  refine hs₁.trans (Quiet.trans ((open_quiet .otcTreasury).trans ?_) hs₂)
  exact quiet_of_eq rfl rfl rfl rfl rfl rfl rfl rfl rfl rfl (.of_eq rfl rfl rfl rfl)

theorem transferTokensFrom_quiet {authority : AccountInfo} {source : Pubkey} (dest : Pubkey)
    (n : ℕ) {mint : Pubkey} (h : source = .associatedTokenAddress authority.key mint) :
    Ensures (s.transferTokensFrom authority source dest n) (Quiet s) := by
  simp only [State.transferTokensFrom, ensures_bind, ensures_require]
  intro hsigner
  rw [h]
  exact transferTokens_quiet _ _ (signerTokens_not_isVault hsigner mint)

theorem processFundGodlOtc_quiet (amount : ℕ) (signerInfo mintInfo signerTokensInfo
    otcTreasuryInfo otcTreasuryTokensInfo tokenProgram : AccountInfo) (s : State) :
    Ensures (processFundGodlOtc amount signerInfo mintInfo signerTokensInfo otcTreasuryInfo
      otcTreasuryTokensInfo tokenProgram s) (Quiet s) := by
  simp only [processFundGodlOtc, ensures_bind, ensures_require, ensures_fromOption,
    ensures_addU64, ensures_pure]
  intro _ _ _ htokens _ _ _ _ _ _ _ _ _ _ _
  refine Ensures.mono (transferTokensFrom_quiet _ _ htokens) fun s₁ hs₁ _ => hs₁.trans ?_
  exact quiet_of_eq rfl rfl rfl rfl rfl rfl rfl rfl rfl rfl (.of_eq rfl rfl rfl rfl)

theorem processWithdrawSolOtc_quiet (signerInfo otcTreasuryInfo chestInfo
    systemProgram : AccountInfo) (s : State) :
    Ensures (processWithdrawSolOtc signerInfo otcTreasuryInfo chestInfo systemProgram s)
      (Quiet s) := by
  simp only [processWithdrawSolOtc, ensures_bind, ensures_require, ensures_ite, ensures_pure]
  intro _ _ hkey _ _ _ _
  refine ⟨fun _ => Quiet.refl s, fun _ => ?_⟩
  have hround : ¬ IsRound otcTreasuryInfo.key := by simp [IsRound, hkey]
  refine Quiet.followed ?_ (send_quiet _ _ hround)
  exact quiet_of_eq rfl rfl rfl rfl rfl rfl rfl rfl rfl rfl (.of_eq rfl rfl rfl rfl)

end Godl
