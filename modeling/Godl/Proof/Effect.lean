import Godl.System
import Godl.Proof.BuryHandlers
import Godl.Proof.CheckpointHandler
import Godl.Proof.CloseHandler
import Godl.Proof.DeployHandler
import Godl.Proof.GoldHandlers
import Godl.Proof.ResetHandler

/-!
# What an instruction can do

Every instruction is of one of a few kinds, and the kind says what a successful call can
have done to the books.  This is the one place where the instructions are gone through
one by one; every invariant is proved by kinds.

## Main definitions

* `Kind` — the kinds of instructions.
* `Effect` — what a call of a kind does.
* `processInstruction_effect` — every successful call has the effect of its kind.
-/

namespace Godl

open Lib

/-- The kinds of instructions, by the books that they change. -/
inductive Kind
  | quiet
  | initializeProgram
  | checkpoint (legacy : Bool)
  | deploy
  | reset
  | close
  | unrefined
  | stakes
  | bury
  | buryTokens
  | motherlode
  | rebaseTotalStaked
  | rebaseTotalUnclaimed
  | initializeGoldVault
  | distributeGold
  | claimGold
deriving DecidableEq

/-- The kind of an instruction. -/
def GodlInstruction.kind : GodlInstruction → Kind
  | .initializeProgram .. => .initializeProgram
  | .checkpoint => .checkpoint true
  | .checkpointWithMinerExtended => .checkpoint false
  | .deploy _ | .deployWithMinerExtended _ => .deploy
  | .reset | .resetPermissionless => .reset
  | .close => .close
  | .claimGodl | .injectUnrefinedRewards _ | .executeOtcTrade _ | .createMinerExtended =>
      .unrefined
  | .withdraw _ | .claimYield _ | .depositV2 .. | .withdrawV2 .. | .claimYieldV2 ..
  | .compoundYieldV2 _ | .setStakeExecutorV2 .. | .reconcileStakeV2 | .migrateStakeWeight
  | .closeStakeV2 _ | .closePhantomStakeV2 | .topUpStakeV2 .. | .mergeStakeV2 ..
  | .stakeNft _ | .unstakeNft _ => .stakes
  | .bury => .bury
  | .buryTokens _ => .buryTokens
  | .injectGodlMotherlode _ => .motherlode
  | .rebaseTotalStaked .. => .rebaseTotalStaked
  | .rebaseTotalUnclaimed .. => .rebaseTotalUnclaimed
  | .initializeGoldVault => .initializeGoldVault
  | .buyGold _ | .depositGold _ => .distributeGold
  | .claimGold => .claimGold
  | _ => .quiet

/-- What a successful call of an instruction of a kind does. -/
def Effect (clock : Clock) (s s' : State) : Kind → Prop
  | .quiet => Quiet s s'
  | .initializeProgram => s.opened .treasury = false
  | .checkpoint legacy =>
      (legacy = true → clock.unixTimestamp < legacyInstructionExpiryTs) ∧
      ∃ a, Checkpointed clock a (legacy = true) s s'
  | .deploy => Deployed clock s s'
  | .reset => ∃ variant a round value topMiner, Reset clock variant a s s' round value topMiner
  | .close => ∃ round, RoundClosed clock s s' round
  | .unrefined => ∃ credited out, Traded s s' credited out ∧ KeepsFunds s s' out ∧
      balances s.tokens treasuryTokensAddress + credited ≤
        balances s'.tokens treasuryTokensAddress + out
  | .stakes => StakeEffect s s'
  | .bury => ∃ shared, Buried s s' shared ∧ balances s.tokens treasuryTokensAddress + shared ≤
      balances s'.tokens treasuryTokensAddress
  | .buryTokens => ∃ shared, Buried s s' shared
  | .motherlode => ∃ amount, MotherlodeInjected s s' amount
  | .rebaseTotalStaked => ∃ n, s' = { s with treasury := { s.treasury with totalStaked := n } }
  | .rebaseTotalUnclaimed =>
      ∃ n, s' = { s with treasury := { s.treasury with totalUnclaimed := n } }
  | .initializeGoldVault => GoldOpened s s'
  | .distributeGold => legacyInstructionExpiryTs ≤ clock.unixTimestamp ∧
      ∃ xaut, GoldDistributed s s' xaut
  | .claimGold => ∃ paid, GoldClaimed s s' paid

/-- Whether an instruction compounds. -/
def GodlInstruction.Compounds : GodlInstruction → Prop
  | .compoundYieldV2 _ => True
  | _ => False

/-- The stakes that a call merges: the target and the source. -/
def GodlInstruction.Merges (ix : GodlInstruction) (accounts : List AccountInfo)
    (target source : Pubkey) : Prop :=
  match ix with
  | .mergeStakeV2 targetId sourceId => ∃ signerInfo ∈ accounts.head?,
      target = .stakeV2Pda signerInfo.key targetId ∧
        source = .stakeV2Pda signerInfo.key sourceId
  | _ => False

section Instructions

variable {env : Env} {clock : Clock} {s s' : State}

/-- The setters of the config that check a program first. -/
theorem checkedSetConfig_quiet {P : Prop} [Decidable P] {e : ProgramError} (signerInfo configInfo :
    AccountInfo) (change : Config → Config) (s : State) :
    Ensures (do
      require P e
      setConfig signerInfo configInfo change s : Result State) (Quiet s) := by
  rw [ensures_bind, ensures_require]
  exact fun _ => setConfig_quiet signerInfo configInfo change s

/-- What both resets do, from their account list. -/
theorem processResetList_spec (clock : Clock) (env : Env) (variant : ResetVariant)
    (accounts : List AccountInfo) (s : State) :
    Ensures (processResetList (resetBody clock env variant) accounts s) fun s' =>
      ∃ variant a round value topMiner, Reset clock variant a s s' round value topMiner := by
  unfold processResetList
  split
  · exact Ensures.mono (resetBody_spec clock env variant _ s) fun s' h => ⟨variant, _, h⟩
  · exact ensures_error.2 trivial

/-- What a call on stakes does, to the book and to the v2 stakes. -/
theorem processInstruction_stakes {ix : GodlInstruction} (hstakes : ix.kind = .stakes)
    (env : Env) (clock : Clock) (accounts : List AccountInfo) (cpi : Cpi) (s : State) :
    Ensures (processInstruction env clock ix accounts cpi s) fun s' => StakeEffect s s' ∧
      StakesV2Step clock ix.Compounds (ix.Merges accounts) s s' := by
  cases ix
  all_goals first
    | (cases hstakes; done)
    | simp only [processInstruction, GodlInstruction.Compounds]
  case withdraw =>
    split
    · apply Ensures.mono
      · apply processWithdraw_step
      · exact fun s' h => ⟨h.1, .same h.2⟩
    · exact ensures_error.2 trivial
  case claimYield =>
    split
    · apply Ensures.mono
      · apply processClaimYield_step
      · exact fun s' h => ⟨h.1, .same h.2⟩
    · exact ensures_error.2 trivial
  case depositV2 =>
    split
    · apply processDepositV2_step
    · exact ensures_error.2 trivial
  case withdrawV2 =>
    split
    · apply processWithdrawV2_step
    · exact ensures_error.2 trivial
  case claimYieldV2 =>
    split
    · apply processClaimYieldV2_step
    · exact ensures_error.2 trivial
  case compoundYieldV2 =>
    split
    · apply processCompoundYieldV2_step
    · exact ensures_error.2 trivial
  case setStakeExecutorV2 =>
    split
    · apply processSetStakeExecutorV2_step
    · exact ensures_error.2 trivial
  case reconcileStakeV2 =>
    split
    · apply processReconcileStakeV2_step
    · exact ensures_error.2 trivial
  case migrateStakeWeight =>
    split
    · apply processMigrateStakeWeight_step
    · exact ensures_error.2 trivial
  case closeStakeV2 =>
    split
    · apply processCloseStakeV2_step
    · exact ensures_error.2 trivial
  case closePhantomStakeV2 =>
    split
    · apply processClosePhantomStakeV2_step
    · exact ensures_error.2 trivial
  case topUpStakeV2 =>
    split
    · apply processTopUpStakeV2_step
    · exact ensures_error.2 trivial
  case mergeStakeV2 =>
    split
    · apply processMergeStakeV2_step
      exact ⟨_, rfl, rfl, rfl⟩
    · exact ensures_error.2 trivial
  case stakeNft =>
    split
    · apply processStakeNft_step
    · exact ensures_error.2 trivial
  case unstakeNft =>
    split
    · apply processUnstakeNft_step
    · exact ensures_error.2 trivial

/-- **Every successful call has the effect of its kind.** -/
theorem processInstruction_effect (env : Env) (clock : Clock) (ix : GodlInstruction)
    (accounts : List AccountInfo) (cpi : Cpi) (s : State) :
    Ensures (processInstruction env clock ix accounts cpi s) (Effect clock s · ix.kind) := by
  by_cases hstakes : ix.kind = .stakes
  · rw [hstakes]
    exact Ensures.mono (processInstruction_stakes hstakes env clock accounts cpi s) fun _ h => h.1
  cases ix
  all_goals first
    | exact absurd rfl hstakes
    | simp only [processInstruction, GodlInstruction.kind, Effect]
  case initializeProgram =>
    split
    · apply processInitialize_spec
    · exact ensures_error.2 trivial
  case automate =>
    split
    · apply processAutomate_quiet
    · exact ensures_error.2 trivial
  case checkpoint =>
    split
    · refine Ensures.mono (processCheckpoint_spec clock _ s) ?_
      rintro s' ⟨hexpiry, h⟩
      exact ⟨fun _ => hexpiry, _, by simpa only [eq_self] using h⟩
    · exact ensures_error.2 trivial
  case checkpointWithMinerExtended =>
    split
    · refine Ensures.mono (processCheckpointWithMinerExtended_spec clock _ _ _ s) ?_
      intro s' h
      exact ⟨fun h => absurd h (by decide), _, by simpa only [Bool.false_eq_true] using h⟩
    · exact ensures_error.2 trivial
  case claimSol =>
    split
    · apply processClaimSol_quiet
    · exact ensures_error.2 trivial
  case claimSolAndFundAutomation =>
    split
    · apply processClaimSolAndFundAutomation_quiet
    · exact ensures_error.2 trivial
  case fundAutomation =>
    split
    · apply processFundAutomation_quiet
    · exact ensures_error.2 trivial
  case claimGodl =>
    split
    · apply Ensures.mono
      · apply processClaimGodl_spec
      · rintro s' ⟨out, htraded, hfunds, -⟩
        exact ⟨0, out, htraded, hfunds, hfunds.treasuryTokens⟩
    · exact ensures_error.2 trivial
  case injectUnrefinedRewards =>
    split
    · apply Ensures.mono
      · apply processInjectUnrefinedRewards_spec
      · rintro s' ⟨htraded, hfunds, htokens, -⟩
        exact ⟨_, 0, htraded, hfunds, htokens⟩
    · exact ensures_error.2 trivial
  case initializeReferrer =>
    split
    · apply processInitializeReferrer_quiet
    · exact ensures_error.2 trivial
  case setReferrer =>
    split
    · apply processSetReferrer_quiet
    · exact ensures_error.2 trivial
  case claimReferral =>
    split
    · apply processClaimReferral_quiet
    · exact ensures_error.2 trivial
  case deploy =>
    split
    · apply processDeploy_spec
    · exact ensures_error.2 trivial
  case deployWithMinerExtended =>
    split
    · apply deployBody_deployed
    · exact ensures_error.2 trivial
  case log =>
    split
    · simp only [processLog, ensures_bind, ensures_require, ensures_pure]
      exact fun _ _ => Quiet.refl s
    · exact ensures_error.2 trivial
  case close =>
    split
    · apply processClose_spec
    · exact ensures_error.2 trivial
  case reset => apply processResetList_spec
  case resetPermissionless => apply processResetList_spec
  case deposit => exact ensures_error.2 trivial
  case bury =>
    split
    · apply processBury_spec
    · exact ensures_error.2 trivial
  case buryTokens =>
    split
    · apply processBuryTokens_spec
    · exact ensures_error.2 trivial
  case preBury =>
    split
    · apply processPreBury_quiet
    · exact ensures_error.2 trivial
  case setAdmin =>
    split
    · apply checkedSetConfig_quiet
    · exact ensures_error.2 trivial
  case setFeeCollector =>
    split
    · apply checkedSetConfig_quiet
    · exact ensures_error.2 trivial
  case setSwapProgram =>
    split
    · apply checkedSetConfig_quiet
    · exact ensures_error.2 trivial
  case setVarAddress =>
    split
    · apply processSetVarAddress_quiet
    · exact ensures_error.2 trivial
  case newVar =>
    split
    · apply processNewVar_quiet
    · exact ensures_error.2 trivial
  case setMotherlodeDenominator =>
    split
    · apply checkedSetConfig_quiet
    · exact ensures_error.2 trivial
  case setGodlPerRound =>
    split
    · simp only [processSetGodlPerRound, ensures_bind, ensures_require]
      intro _ _
      apply setConfig_quiet
    · exact ensures_error.2 trivial
  case updateProtocolConfig =>
    split
    · apply processUpdateProtocolConfig_quiet
    · exact ensures_error.2 trivial
  case withdrawVault =>
    split
    · apply processWithdrawVault_quiet
    · exact ensures_error.2 trivial
  case initializeSolMotherlode =>
    split
    · apply processInitializeSolMotherlode_quiet
    · exact ensures_error.2 trivial
  case injectGodlMotherlode =>
    split
    · apply Ensures.mono
      · apply processInjectGodlMotherlode_spec
      · exact fun s' h => ⟨_, h⟩
    · exact ensures_error.2 trivial
  case rebaseTotalStaked =>
    split
    · apply Ensures.mono
      · apply processRebaseTotalStaked_spec
      · exact fun s' h => ⟨_, h⟩
    · exact ensures_error.2 trivial
  case rebaseTotalUnclaimed =>
    split
    · apply Ensures.mono
      · apply processRebaseTotalUnclaimed_spec
      · exact fun s' h => ⟨_, h⟩
    · exact ensures_error.2 trivial
  case initializeGoldVault =>
    split
    · apply processInitializeGoldVault_spec
    · exact ensures_error.2 trivial
  case createMinerExtended =>
    split
    · apply Ensures.mono
      · apply processCreateMinerExtended_spec
      · rintro s' ⟨htraded, hfunds, -⟩
        exact ⟨0, 0, htraded, hfunds, hfunds.treasuryTokens⟩
    · exact ensures_error.2 trivial
  case preBuyGold =>
    split
    · apply processPreBuyGold_quiet
    · exact ensures_error.2 trivial
  case buyGold =>
    split
    · apply processBuyGold_spec
    · exact ensures_error.2 trivial
  case depositGold =>
    split
    · apply processDepositGold_spec
    · exact ensures_error.2 trivial
  case claimGold =>
    split
    · apply processClaimGold_spec
    · exact ensures_error.2 trivial
  case initializeOtcTreasury =>
    split
    · apply processInitializeOtcTreasury_quiet
    · exact ensures_error.2 trivial
  case fundGodlOtc =>
    split
    · apply processFundGodlOtc_quiet
    · exact ensures_error.2 trivial
  case executeOtcTrade =>
    split
    · apply Ensures.mono
      · apply processExecuteOtcTrade_spec
      · rintro s' ⟨htraded, hfunds, htokens, -⟩
        exact ⟨_, 0, htraded, hfunds, htokens⟩
    · exact ensures_error.2 trivial
  case withdrawSolOtc =>
    split
    · apply processWithdrawSolOtc_quiet
    · exact ensures_error.2 trivial
  case transferMintAuthority =>
    split
    · apply processTransferMintAuthority_quiet
    · exact ensures_error.2 trivial

end Instructions

end Godl
