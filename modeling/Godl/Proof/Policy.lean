import Godl.Proof.PolicyGame

/-!
# Every instruction follows the policy

What is left is administration: the config, which its admin changes, and burying.

## Main definitions

* `processInstruction_acts` — a call that succeeds is a sequence of acts.
-/

namespace Godl

open Lib

variable {signs : Pubkey → Prop} {R : Right → Prop}

/-! ## Administration -/

section Admin

variable {s₀ s : State}

/-- A singleton that may be created does not exist. -/
theorem opened_eq_false {info : AccountInfo} {w : Singleton} (hkey : info.key = w.pda)
    (hempty : s.dataIsEmpty info.key = true) : s.opened w = false := by
  by_contra hopened
  exact (State.noData hempty).opened w (by simpa using hopened) hkey

theorem processInitialize_acts (mayConfig : R .config) (mayRounds : R .rounds) (admin buryAuthority
    feeCollector : Pubkey) (godlPerRound : ℕ) (signerInfo configInfo treasuryInfo boardInfo
    roundInfo systemProgram : AccountInfo) (s : State)
    (hsign : signerInfo.isSigner = true → signs signerInfo.key) :
    Holds (Acts signs R s) (processInitialize admin buryAuthority feeCollector godlPerRound
      signerInfo configInfo treasuryInfo boardInfo roundInfo systemProgram s) := by
  simp only [processInitialize, Holds, ensures_bind, ensures_require, ensures_pure]
  intro _ hsigner hdeployer _ hempty _ hkey _ _ _ _ _ _ _ _ _
  have hclosed : s.opened .config = false := opened_eq_false hkey hempty
  have hsigns : signs deployerAddress := hdeployer ▸ hsign hsigner
  have hstart : FundsMoved signs R s s := .refl s
  refine Ensures.mono (hstart.after (createAccount_funds hsign _ _)) fun s₁ hs₁ => ?_
  refine Ensures.mono (hs₁.after (createAccount_funds hsign _ _)) fun s₂ hs₂ => ?_
  refine Ensures.mono (hs₂.after (createAccount_funds hsign _ _)) fun s₃ hs₃ => ?_
  refine Ensures.mono (hs₃.after (createAccount_funds hsign _ _)) fun s₄ hs₄ => ?_
  obtain ⟨l, tok, supply, rfl, hacts⟩ := hs₄
  have hconfig := hacts.tail (.config mayConfig ⟨admin, godlPerRound, buryAuthority, feeCollector,
    Pubkey.default, Pubkey.default, 5, roundSlotsDefault, intermissionSlotsDefault⟩ true
    (.inr ⟨hclosed, hsigns⟩))
  have hopen := ((hconfig.tail (.openSingleton .config)).tail (.openSingleton .treasury)).tail
    (.openSingleton .board)
  have hbooks := acts_books hopen ⟨0, 0, Fixed.zero, Fixed.zero, 0, 0, 0⟩ s.solMotherlode
    s.goldVault
  exact acts_game mayRounds hbooks (s.rounds.put (Round.fresh 0 signerInfo.key)) s.poolRounds
    ⟨0, 0, u64Max⟩ s.vars

theorem processInitializeSolMotherlode_acts (signerInfo solMotherlodeInfo
    systemProgram : AccountInfo) (s : State)
    (hsign : signerInfo.isSigner = true → signs signerInfo.key) :
    Holds (Acts signs R s)
      (processInitializeSolMotherlode signerInfo solMotherlodeInfo systemProgram s) := by
  simp only [processInitializeSolMotherlode, Holds, ensures_bind, ensures_require, ensures_pure]
  intro _ _ _ _ _ _
  refine Ensures.mono (createAccount_funds (R := R) hsign _ _) fun s₁ hs₁ => ?_
  exact acts_books (hs₁.acts.tail (.openSingleton .solMotherlode)) s₁.treasury ⟨0⟩ s₁.goldVault

/-- Only the admin changes the config. -/
theorem setConfig_acts (mayConfig : R .config) {signerInfo : AccountInfo}
    (hsign : signerInfo.isSigner = true → signs signerInfo.key) (configInfo : AccountInfo)
    (change : Config → Config) (s : State) :
    Holds (Acts signs R s) (setConfig signerInfo configInfo change s) := by
  simp only [setConfig, Holds, ensures_bind, ensures_require, ensures_pure]
  intro hsigner _ hadmin
  exact .single (.config mayConfig _ s.configResized (.inl (hadmin ▸ hsign hsigner)))

theorem processSetVarAddress_acts (mayConfig : R .config) (signerInfo boardInfo configInfo
    newVarAddressInfo : AccountInfo) (s : State)
    (hsign : signerInfo.isSigner = true → signs signerInfo.key) :
    Holds (Acts signs R s)
      (processSetVarAddress signerInfo boardInfo configInfo newVarAddressInfo s) :=
  holds_any fun _ => holds_any fun _ => holds_any fun _ => holds_any fun _ =>
    setConfig_acts mayConfig hsign configInfo _ s

/-- An old config is grown before the admin is checked, but for nothing when the check fails. -/
theorem processUpdateProtocolConfig_acts (mayConfig : R .config) (roundSlots intermissionSlots : ℕ)
    (signerInfo configInfo systemProgram : AccountInfo) (s : State)
    (hsign : signerInfo.isSigner = true → signs signerInfo.key) :
    Holds (Acts signs R s) (processUpdateProtocolConfig roundSlots intermissionSlots
      signerInfo configInfo systemProgram s) := by
  have hset : ∀ s₁ : State, s₁.config.admin = s.config.admin →
      (signs s.config.admin → Acts signs R s s₁) →
      Holds (Acts signs R s) (setConfig signerInfo configInfo (fun c => { c with
        roundSlots := roundSlots, intermissionSlots := intermissionSlots }) s₁) := by
    intro s₁ hsame hacts
    simp only [setConfig, Holds, ensures_bind, ensures_require, ensures_pure]
    intro hsigner _ hadmin
    have hsigns : signs s₁.config.admin := hadmin ▸ hsign hsigner
    exact (hacts (hsame ▸ hsigns)).tail (.config mayConfig _ s₁.configResized (.inl hsigns))
  simp only [processUpdateProtocolConfig, resizeConfig, Holds, ensures_bind, ensures_require,
    ensures_ite, ensures_pure]
  intro _ _ _ _
  refine ⟨fun _ _ => ?_, fun _ _ => hset s rfl fun _ => .refl⟩
  refine Ensures.mono (collect_funds (R := R) hsign _ _) fun s₁ hs₁ _ => ?_
  obtain ⟨l, tok, supply, rfl, hacts⟩ := hs₁
  exact hset _ rfl fun hadmin => hacts.tail (.config mayConfig _ true (.inl hadmin))

theorem processNewVar_acts (mayRounds : R .rounds) (env : Env) (signerInfo boardInfo configInfo
    providerInfo varInfo systemProgram entropyProgram : AccountInfo) (cpi : Cpi) (s : State) :
    Holds (Acts signs R s) (processNewVar env signerInfo boardInfo configInfo providerInfo
      varInfo systemProgram entropyProgram cpi s) := by
  refine holds_any fun _ => holds_any fun _ => holds_any fun _ => holds_any fun _ => ?_
  refine holds_any fun _ => holds_any fun _ => holds_any fun var => holds_pure ?_
  exact acts_game mayRounds .refl s.rounds s.poolRounds s.board _

theorem processTransferMintAuthority_acts (mayConfig : R .config) (env : Env) (signerInfo configInfo
    mintInfo treasuryInfo godlMintAuthorityInfo tokenProgram : AccountInfo) (s : State)
    (hsign : signerInfo.isSigner = true → signs signerInfo.key) :
    Holds (Acts signs R s) (processTransferMintAuthority env signerInfo configInfo mintInfo
      treasuryInfo godlMintAuthorityInfo tokenProgram s) := by
  simp only [processTransferMintAuthority, Holds, ensures_bind, ensures_require, ensures_pure]
  intro hsigner _ hadmin _ _ _ _ _ _
  exact .single (.mintAuthority mayConfig _ (hadmin ▸ hsign hsigner))

theorem processWithdrawVault_acts (amount : ℕ) (signerInfo configInfo treasuryInfo
    systemProgram : AccountInfo) (s : State) :
    Holds (Acts signs R s)
      (processWithdrawVault amount signerInfo configInfo treasuryInfo systemProgram s) := by
  simp only [processWithdrawVault, Holds, ensures_bind, ensures_require, ensures_pure]
  intro _ _ _ htreasury _
  have hderived : treasuryInfo.key.isKeypair = false := by
    rw [htreasury.1]
    rfl
  have hstart : Acts signs R s s := .refl
  refine ensures_of_forall fun _ => ?_
  refine Ensures.mono (acts_funds (R := R) hstart (send_funds _ _ hderived)) fun s₁ hs₁ => ?_
  exact acts_treasury hs₁ _

theorem processPreBury_acts (buryAmount chestAmount adminAmount : ℕ) (signerInfo configInfo
    treasuryInfo treasurySolInfo chestInfo adminInfo systemProgram : AccountInfo) (s : State) :
    Holds (Acts signs R s) (processPreBury buryAmount chestAmount adminAmount signerInfo
      configInfo treasuryInfo treasurySolInfo chestInfo adminInfo systemProgram s) := by
  simp only [processPreBury, Holds, ensures_bind, ensures_require, ensures_addU64,
    ensures_fromOption, ensures_pure]
  intro _ _ _ _ _ htreasury _ _ _ _ _ _ _
  have hderived : treasuryInfo.key.isKeypair = false := by
    rw [htreasury.1]
    rfl
  have hstart : Acts signs R s s := .refl
  refine ensures_of_forall fun _ => ?_
  refine Ensures.mono (acts_funds (R := R) hstart (send_funds _ _ hderived)) fun s₁ hs₁ => ?_
  refine Ensures.mono (acts_funds (R := R) hs₁ (send_funds _ _ hderived)) fun s₂ hs₂ => ?_
  refine Ensures.mono (acts_funds (R := R) hs₂ (send_funds _ _ hderived)) fun s₃ hs₃ => ?_
  exact acts_treasury hs₃ _

theorem processInjectGodlMotherlode_acts (amount : ℕ) (signerInfo treasuryInfo signerTokensInfo
    treasuryTokensInfo tokenProgram : AccountInfo) (s : State)
    (hsign : signerInfo.isSigner = true → signs signerInfo.key) :
    Holds (Acts signs R s) (processInjectGodlMotherlode amount signerInfo treasuryInfo
      signerTokensInfo treasuryTokensInfo tokenProgram s) := by
  simp only [processInjectGodlMotherlode, Holds, ensures_bind, ensures_require,
    ensures_fromOption, ensures_addU64, ensures_pure]
  intro _ _ _ htreasury _ hsource _ _ _ hdest _ _ _ _
  rw [htreasury.1] at hdest
  refine Ensures.mono (transferTokensFrom_funds (R := R) _ hsign hsource hdest) fun s₁ hs₁ _ => ?_
  exact acts_treasury hs₁.acts _

theorem processRebase_acts (signerInfo configInfo treasuryInfo : AccountInfo)
    (total expected : ℕ) (t : Treasury) (s : State) :
    Holds (Acts signs R s) (do
      checkRebase signerInfo configInfo treasuryInfo total expected s
      return { s with treasury := t } : Result State) :=
  holds_any fun _ => holds_pure (acts_treasury .refl t)

theorem processLog_acts (signerInfo : AccountInfo) (s : State) :
    Holds (Acts signs R s) (processLog signerInfo s) :=
  holds_any fun _ => holds_any fun _ => holds_pure .refl

end Admin

/-! ## Burying -/

section Bury

variable {s₀ s : State}

/-- What the checks of a bury say about the accounts that it moves tokens between. -/
structure BuryChecked (a : BuryAccounts) (s : State) : Prop where
  signer : a.signerInfo.isSigner = true
  authority : s.config.buryAuthority = a.signerInfo.key
  treasury : a.treasuryInfo.key = .treasuryPda
  treasuryGodl : a.treasuryGodlInfo.key = treasuryTokensAddress
  adminGodl : a.adminGodlInfo.key = .associatedTokenAddress a.adminInfo.key mintAddress
  warchestGodl : warchestActive a = true →
    a.warchestGodlInfo.key = .associatedTokenAddress a.warchestInfo.key mintAddress

theorem checkBuryAccounts_checked (a : BuryAccounts) (s : State) :
    Ensures (checkBuryAccounts a s) fun _ => BuryChecked a s := by
  simp only [checkBuryAccounts, ensures_bind, ensures_require, ensures_fromOption, ensures_ite,
    ensures_pure]
  intro hsigner _ _ hauthority _ htreasury hgodl _ _ _ hadmin _ _ _
  rw [htreasury.1] at hgodl
  refine ⟨fun _ _ _ hwarchest _ _ _ _ => ?_, fun hactive _ _ => ?_⟩
  · exact ⟨hsigner, hauthority, htreasury.1, hgodl, hadmin, fun _ => hwarchest⟩
  · exact ⟨hsigner, hauthority, htreasury.1, hgodl, hadmin, fun h => absurd h hactive⟩

theorem buryRest_acts (mayBurn : R .burn) (hs : Acts signs R s₀ s) {a : BuryAccounts} {s₁ : State}
    (ha : BuryChecked a s₁) (burnAmount : ℕ) :
    Holds (Acts signs R s₀) (buryRest a burnAmount s) := by
  unfold buryRest
  split
  · split
    · refine holds_then (acts_funds hs ?_) fun s₂ hs₂ => holds_pure hs₂
      exact transferTokens_funds _ ha.treasuryGodl (ha.warchestGodl ‹_›) .treasury
    · refine holds_then (acts_funds hs ?_) fun s₂ hs₂ => holds_pure hs₂
      exact burnTokens_funds mayBurn _ ha.treasuryGodl
  · exact holds_pure hs

theorem buryShares_acts (mayBurn : R .burn) (hs : Acts signs R s₀ s) {a : BuryAccounts} {s₁ : State}
    (ha : BuryChecked a s₁) (clock : Clock) (raiseByZero : Bool) (amount solAmount : ℕ) :
    Holds (Acts signs R s₀) (buryShares clock a raiseByZero amount solAmount s) := by
  rw [Holds, buryShares, ensures_bind]
  refine ensures_of_forall fun shared => ?_
  refine ensures_optional (P := Acts signs R s₀) ?_ (fun _ => hs) fun s₂ hs₂ => ?_
  · intro _
    exact holds_any fun _ => holds_any fun _ => holds_pure (acts_treasury hs _)
  refine Ensures.bind (ensures_of_forall fun _ => trivial) fun fee _ => ?_
  refine ensures_optional (P := Acts signs R s₀) ?_ (fun _ => hs₂) fun s₃ hs₃ => ?_
  · exact fun _ => acts_funds hs₂ (transferTokens_funds _ ha.treasuryGodl ha.adminGodl .treasury)
  simp only [ensures_bind, ensures_pure]
  refine ensures_of_forall fun _ => ensures_of_forall fun burnAmount => ?_
  exact Ensures.mono (buryRest_acts mayBurn hs₃ ha burnAmount) fun p hp => acts_log hp _

theorem processBuryTokens_acts (mayBurn : R .burn) (clock : Clock) (amount : ℕ) (a : BuryAccounts)
    (s : State) :
    Holds (Acts signs R s) (processBuryTokens clock amount a s) := by
  simp only [processBuryTokens, Holds, ensures_bind, ensures_require]
  refine Ensures.mono (checkBuryAccounts_checked a s) fun _ ha _ _ => ?_
  exact buryShares_acts mayBurn .refl ha clock false amount 0

/-- Syncing changes the balance of the wrapped SOL account. -/
theorem syncNative_synced (account : Pubkey) :
    Ensures (s.syncNative account) fun s' => ∃ n,
      s' = { s with tokens := Function.update s.tokens account n } := by
  simp only [State.syncNative, ensures_bind, ensures_fromOption, ensures_subU64, ensures_require,
    ensures_pure]
  exact fun _ _ _ _ => ⟨_, rfl⟩

/-- Syncing the wrapped SOL account and swapping is one act, when the authority keeps its
lamports and the supply of GODL stays. -/
theorem swap_acts {signs : Pubkey → Prop} {R : Right → Prop} (maySwap : R .swap)
    (hsign : signs s.config.buryAuthority) {authority solAccount tokenAccount : Pubkey}
    {n : Option ℕ} {o : SwapOutcome} (hsol : IsSwapAccount solAccount)
    (htoken : IsSwapAccount tokenAccount)
    (hs₀ : s₀ = { s with tokens := Function.update s.tokens solAccount n })
    (hlamports : (s₀.applySwap authority solAccount tokenAccount o).lamports authority =
      s₀.lamports authority)
    (hsupply : (s₀.applySwap authority solAccount tokenAccount o).mintSupply = s₀.mintSupply) :
    Acts signs R s (s₀.applySwap authority solAccount tokenAccount o) := by
  subst hs₀
  generalize ho : ({ s with tokens := Function.update s.tokens solAccount n } : State).applySwap
    authority solAccount tokenAccount o = s' at hlamports hsupply ⊢
  have heq : s' = { s with lamports := s'.lamports, tokens := s'.tokens } := by
    rw [← ho] at hsupply ⊢
    simp only [State.applySwap] at hsupply ⊢
    rw [hsupply]
  rw [heq]
  refine .single (.swap maySwap hsign (fun k hk => ?_) fun k hk => ?_)
  · by_cases hauthority : k = authority
    · rw [hauthority, hlamports]
    · have hne : k ≠ solAccount := fun h => hk (h ▸ hsol)
      rw [← ho]
      simp [State.applySwap, hauthority, hne]
  · have hne : k ≠ solAccount := fun h => hk (h ▸ hsol)
    have hne' : k ≠ tokenAccount := fun h => hk (h ▸ htoken)
    rw [← ho]
    simp [State.applySwap, hne, hne']

theorem processBury_acts (maySwap : R .swap) (mayBurn : R .burn) (clock : Clock) (a : BuryAccounts)
    (treasurySolInfo : AccountInfo) (cpi : Cpi) (s : State)
    (hsign : a.signerInfo.isSigner = true → signs a.signerInfo.key) :
    Holds (Acts signs R s) (processBury clock a treasurySolInfo cpi s) := by
  simp only [processBury, Holds, ensures_bind, ensures_require, ensures_fromOption]
  refine Ensures.mono (checkBuryAccounts_checked a s) fun _ ha hsol _ _ => ?_
  refine Ensures.mono (syncNative_synced _) fun s₁ hs₁ _ _ _ _ o _ hlamports hsupply => ?_
  obtain ⟨n, hs₁⟩ := hs₁
  have hswap : Acts signs R s (s₁.applySwap a.treasuryInfo.key treasurySolInfo.key
      a.treasuryGodlInfo.key o) := by
    refine swap_acts maySwap (ha.authority ▸ hsign ha.signer) ?_ ?_ hs₁ hlamports hsupply
    · exact ⟨solMint, .inl (by rw [hsol, ha.treasury])⟩
    · exact ⟨mintAddress, .inl ha.treasuryGodl⟩
  refine ensures_of_forall fun total _ => ?_
  exact buryShares_acts mayBurn hswap ha clock true total _

theorem processBuyGold_acts (maySwap : R .swap) (clock : Clock) (minXautOut : ℕ) (signerInfo
    boardInfo configInfo treasuryInfo goldVaultInfo goldVaultSolInfo goldVaultXautInfo
    xautMintInfo tokenProgram godlProgram : AccountInfo) (cpi : Cpi) (s : State)
    (hsign : signerInfo.isSigner = true → signs signerInfo.key) :
    Holds (Acts signs R s) (processBuyGold clock minXautOut signerInfo boardInfo configInfo
      treasuryInfo goldVaultInfo goldVaultSolInfo goldVaultXautInfo xautMintInfo tokenProgram
      godlProgram cpi s) := by
  simp only [processBuyGold, Holds, ensures_bind, ensures_require, ensures_fromOption,
    ensures_pure]
  intro _ hsigner _ _ hauthority _ _ hkey _ _ hsol _ _ _ hxaut _ _ _ _ _
  refine Ensures.mono (syncNative_synced _) ?_
  intro s₁ hs₁ _ _ _ _ _ _ _ o _ hlamports _ _ _
  refine ensures_of_forall fun p => ensures_of_forall fun total => ?_
  obtain ⟨n, hs₁⟩ := hs₁
  have hswap : Acts signs R s (s₁.applySwap goldVaultInfo.key goldVaultSolInfo.key
      goldVaultXautInfo.key { o with supply := s₁.mintSupply }) := by
    refine swap_acts maySwap (hauthority ▸ hsign hsigner) ?_ ?_ hs₁ hlamports rfl
    · exact ⟨solMint, .inr (by rw [hsol, hkey])⟩
    · exact ⟨xautMint, .inr (by rw [hxaut, hkey])⟩
  exact acts_log (acts_books hswap _ _ _) _

end Bury

/-! ## The entry point -/

section EntryPoint

/-- The first account of a list is the signer. -/
theorem signers_cons (info : AccountInfo) (rest : List AccountInfo)
    (hsigner : info.isSigner = true) : signers (info :: rest) info.key :=
  ⟨info, List.mem_cons_self, hsigner, rfl⟩

/-- **A call that succeeds is a sequence of acts that its signers allow.** -/
theorem processInstruction_acts (env : Env) (clock : Clock) (ix : GodlInstruction)
    (accounts : List AccountInfo) (cpi : Cpi) (s : State) :
    Holds (Acts (signers accounts) ix.May s)
      (processInstruction env clock ix accounts cpi s) := by
  cases ix
  case deposit => exact holds_error
  case reset => exact processResetList_acts True.intro True.intro clock env .lenient accounts s
  case resetPermissionless =>
    exact processResetList_acts True.intro True.intro clock env .permissionless accounts s
  all_goals
    simp only [processInstruction, wrongLength, processCheckpoint,
      processCheckpointWithMinerExtended, processDeploy, processDeployWithMinerExtended,
      processSetAdmin, processSetFeeCollector, processSetSwapProgram,
      processSetMotherlodeDenominator, processSetGodlPerRound, processRebaseTotalStaked,
      processRebaseTotalUnclaimed]
    split
  all_goals with_reducible first
    | exact holds_error
    | apply processInitialize_acts
    | apply processInitializeSolMotherlode_acts
    | apply processAutomate_acts
    | apply checkpointBody_acts
    | refine holds_any fun _ => ?_; apply checkpointBody_acts
    | apply processClaimSol_acts
    | apply processClaimSolAndFundAutomation_acts
    | apply processFundAutomation_acts
    | apply processClaimGodl_acts
    | apply processInjectUnrefinedRewards_acts
    | apply processInitializeReferrer_acts
    | apply processSetReferrer_acts
    | apply processClaimReferral_acts
    | apply deployBody_acts
    | refine holds_any fun _ => ?_; apply deployBody_acts
    | apply processClose_acts
    | apply processWithdraw_acts
    | apply processClaimYield_acts
    | apply processDepositV2_acts
    | apply processWithdrawV2_acts
    | apply processClaimYieldV2_acts
    | apply processCompoundYieldV2_acts
    | apply processSetStakeExecutorV2_acts
    | apply processReconcileStakeV2_acts
    | apply processMigrateStakeWeight_acts
    | apply processCloseStakeV2_acts
    | apply processClosePhantomStakeV2_acts
    | apply processTopUpStakeV2_acts
    | apply processMergeStakeV2_acts
    | apply processStakeNft_acts
    | apply processUnstakeNft_acts
    | apply processBury_acts
    | apply processBuryTokens_acts
    | apply processPreBury_acts
    | refine holds_any fun _ => ?_; apply setConfig_acts
    | refine holds_any fun _ => holds_any fun _ => ?_; apply setConfig_acts
    | apply processSetVarAddress_acts
    | apply processNewVar_acts
    | apply processUpdateProtocolConfig_acts
    | apply processWithdrawVault_acts
    | apply processInjectGodlMotherlode_acts
    | apply processRebase_acts
    | apply processInitializeGoldVault_acts
    | apply processCreateMinerExtended_acts
    | apply processPreBuyGold_acts
    | apply processBuyGold_acts
    | apply processDepositGold_acts
    | apply processClaimGold_acts
    | apply processInitializeOtcTreasury_acts
    | apply processFundGodlOtc_acts
    | apply processExecuteOtcTrade_acts
    | apply processWithdrawSolOtc_acts
    | apply processTransferMintAuthority_acts
    | apply processLog_acts
  -- A swap takes place in its own instructions, and the signer is the first account.
  all_goals first
    | exact signers_cons _ _
    | exact True.intro

end EntryPoint

end Godl
