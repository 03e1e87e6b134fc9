import Godl.Program.Deploy
import Godl.Program.Checkpoint
import Godl.Program.Gold
import Godl.Program.Claim
import Godl.Program.Otc
import Godl.Program.Admin

/-!
# The entry point

An instruction comes with its arguments and a list of accounts.  The entry point hands
the accounts, by position, to the handler; a list of the wrong length is refused.

## Main definitions

* `GodlInstruction` — the instructions with their arguments.
* `processInstruction` — the entry point.
-/

namespace Godl

open Lib

/-- The instructions. -/
inductive GodlInstruction
  /-- `Initialize`. -/
  | initializeProgram (admin buryAuthority feeCollector : Pubkey) (godlPerRound : ℕ)
  | automate (args : AutomateArgs)
  | checkpoint
  | checkpointWithMinerExtended
  | claimSol
  | claimSolAndFundAutomation
  | fundAutomation (deposit : ℕ)
  | claimGodl
  | injectUnrefinedRewards (amount : ℕ)
  | initializeReferrer
  | setReferrer (referrer : Pubkey)
  | claimReferral
  | deploy (args : DeployArgs)
  | deployWithMinerExtended (args : DeployArgs)
  | log
  | close
  | reset
  | resetPermissionless
  | deposit (amount : ℕ)
  | withdraw (amount : ℕ)
  | claimYield (amount : ℕ)
  | depositV2 (id amount : ℕ) (lockDuration : ℤ)
  | withdrawV2 (id amount : ℕ)
  | claimYieldV2 (id amount : ℕ)
  | compoundYieldV2 (id : ℕ)
  | setStakeExecutorV2 (id : ℕ) (executor : Pubkey)
  | reconcileStakeV2
  | migrateStakeWeight
  | closeStakeV2 (id : ℕ)
  | closePhantomStakeV2
  | topUpStakeV2 (id amount : ℕ)
  | mergeStakeV2 (targetId sourceId : ℕ)
  | stakeNft (id : ℕ)
  | unstakeNft (id : ℕ)
  | bury
  | buryTokens (amount : ℕ)
  | preBury (buryAmount chestAmount adminAmount : ℕ)
  | setAdmin (admin : Pubkey)
  | setFeeCollector (feeCollector : Pubkey)
  | setSwapProgram
  | setVarAddress
  | newVar
  | setMotherlodeDenominator (motherlodeDenominator : ℕ)
  | setGodlPerRound (godlPerRound : ℕ)
  | updateProtocolConfig (roundSlots intermissionSlots : ℕ)
  | withdrawVault (amount : ℕ)
  | initializeSolMotherlode
  | injectGodlMotherlode (amount : ℕ)
  | rebaseTotalStaked (expected newValue : ℕ)
  | rebaseTotalUnclaimed (expected newValue : ℕ)
  | initializeGoldVault
  | createMinerExtended
  | preBuyGold (amount : ℕ)
  | buyGold (minXautOut : ℕ)
  | depositGold (amount : ℕ)
  | claimGold
  | initializeOtcTreasury
  | fundGodlOtc (amount : ℕ)
  | executeOtcTrade (args : OtcTradeArgs)
  | withdrawSolOtc
  | transferMintAuthority

/-- The refusal of an account list of the wrong length. -/
def wrongLength : Result State := .error .notEnoughAccountKeys

/-- The reset instructions split their list at fixed positions, which aborts on a list
that is too short. -/
def processResetList (process : ResetAccounts → State → Result State)
    (accounts : List AccountInfo) (s : State) : Result State :=
  match accounts with
  | signer :: board :: config :: feeCollector :: mint :: round :: roundNext :: poolRoundNext ::
      topMiner :: topMinerPoolMember :: solMotherlode :: rushSolVault :: treasury ::
      treasuryTokens :: systemProgram :: tokenProgram :: godlProgram :: slotHashes :: var ::
      entropyProgram :: mintAccounts =>
      process ⟨signer, board, config, feeCollector, mint, round, roundNext, poolRoundNext,
        topMiner, topMinerPoolMember, solMotherlode, rushSolVault, treasury, treasuryTokens,
        systemProgram, tokenProgram, godlProgram, slotHashes, var, entropyProgram,
        mintAccounts⟩ s
  | _ => .error (.panic .outOfBounds)

/-- The entry point. -/
def processInstruction (env : Env) (clock : Clock) (ix : GodlInstruction)
    (accounts : List AccountInfo) (cpi : Cpi) (s : State) : Result State :=
  match ix with
  | .initializeProgram admin buryAuthority feeCollector godlPerRound =>
      match accounts with
      | [a, b, c, d, e, f] =>
          processInitialize admin buryAuthority feeCollector godlPerRound a b c d e f s
      | _ => wrongLength
  | .automate args =>
      match accounts with
      | [a, b, c, d, e, f] => processAutomate args a b c d e f s
      | _ => wrongLength
  | .checkpoint =>
      match accounts with
      | [a, b, c, d, e, f, g, h] => processCheckpoint clock ⟨a, b, c, d, e, f, g, h⟩ s
      | _ => wrongLength
  | .checkpointWithMinerExtended =>
      match accounts with
      | [a, b, c, d, e, f, g, h, i, j] =>
          processCheckpointWithMinerExtended clock ⟨a, b, c, d, e, f, g, h⟩ i j s
      | _ => wrongLength
  | .claimSol =>
      match accounts with
      | a :: b :: c :: rest => processClaimSol clock a b c rest s
      | _ => wrongLength
  | .claimSolAndFundAutomation =>
      match accounts with
      | a :: b :: c :: d :: rest => processClaimSolAndFundAutomation clock a b c d rest s
      | _ => wrongLength
  | .fundAutomation deposit =>
      match accounts with
      | [a, b, c] => processFundAutomation deposit a b c s
      | _ => wrongLength
  | .claimGodl =>
      match accounts with
      | a :: b :: c :: d :: e :: f :: g :: h :: i :: j :: k :: l :: rest =>
          processClaimGodl clock a b c d e f g h i j k l rest s
      | _ => wrongLength
  | .injectUnrefinedRewards amount =>
      match accounts with
      | [a, b, c, d, e, f, g, h, i, j] =>
          processInjectUnrefinedRewards amount a b c d e f g h i j s
      | _ => wrongLength
  | .initializeReferrer =>
      match accounts with
      | [a, b, c, d, e, f, g] => processInitializeReferrer a b c d e f g s
      | _ => wrongLength
  | .setReferrer referrer =>
      match accounts with
      | a :: b :: rest => processSetReferrer referrer a b rest s
      | _ => wrongLength
  | .claimReferral =>
      match accounts with
      | [a, b, c, d, e, f, g, h] => processClaimReferral a b c d e f g h s
      | _ => wrongLength
  | .deploy args =>
      match accounts with
      | a :: b :: c :: d :: e :: f :: g :: h :: i :: j :: entropy =>
          processDeploy clock env args ⟨a, b, c, d, e, f, g, h, i, j⟩ entropy cpi s
      | _ => .error (.panic .outOfBounds)
  | .deployWithMinerExtended args =>
      match accounts with
      | a :: b :: c :: d :: e :: f :: g :: h :: i :: j :: k :: l :: entropy =>
          processDeployWithMinerExtended clock env args ⟨a, b, c, d, e, f, g, h, i, j⟩ k l
            entropy cpi s
      | _ => .error (.panic .outOfBounds)
  | .log =>
      match accounts with
      | [a] => processLog a s
      | _ => wrongLength
  | .close =>
      match accounts with
      | [a, b, c, d, e, f, g] => processClose clock a b c d e f g s
      | _ => wrongLength
  | .reset => processResetList (processReset clock env) accounts s
  | .resetPermissionless => processResetList (processResetPermissionless clock env) accounts s
  | .deposit _ => processDeposit
  | .withdraw amount =>
      match accounts with
      | [a, b, c, d, e, f, g, h, i] => processWithdraw clock amount a b c d e f g h i s
      | _ => wrongLength
  | .claimYield amount =>
      match accounts with
      | [a, b, c, d, e, f, g, h, i] => processClaimYield clock amount a b c d e f g h i s
      | _ => wrongLength
  | .depositV2 id amount lockDuration =>
      match accounts with
      | [a, b, c, d, e, f, g, h, i, j] =>
          processDepositV2 clock id amount lockDuration a b c d e f g h i j s
      | _ => wrongLength
  | .withdrawV2 id amount =>
      match accounts with
      | [a, b, c, d, e, f, g, h, i] => processWithdrawV2 clock id amount a b c d e f g h i s
      | _ => wrongLength
  | .claimYieldV2 id amount =>
      match accounts with
      | [a, b, c, d, e, f, g, h, i] => processClaimYieldV2 clock id amount a b c d e f g h i s
      | _ => wrongLength
  | .compoundYieldV2 id =>
      match accounts with
      | [a, b, c, d, e, f, g, h, i] => processCompoundYieldV2 clock id a b c d e f g h i s
      | _ => wrongLength
  | .setStakeExecutorV2 id executor =>
      match accounts with
      | [a, b] => processSetStakeExecutorV2 id executor a b s
      | _ => wrongLength
  | .reconcileStakeV2 =>
      match accounts with
      | [a, b, c, d, e, f] => processReconcileStakeV2 clock a b c d e f s
      | _ => wrongLength
  | .migrateStakeWeight =>
      match accounts with
      | [a, b, c] => processMigrateStakeWeight a b c s
      | _ => wrongLength
  | .closeStakeV2 id =>
      match accounts with
      | [a, b, c, d, e, f, g, h, i, j] => processCloseStakeV2 clock id a b c d e f g h i j s
      | _ => wrongLength
  | .closePhantomStakeV2 =>
      match accounts with
      | [a, b, c, d] => processClosePhantomStakeV2 a b c d s
      | _ => wrongLength
  | .topUpStakeV2 id amount =>
      match accounts with
      | [a, b, c, d, e, f, g, h, i] => processTopUpStakeV2 clock id amount a b c d e f g h i s
      | _ => wrongLength
  | .mergeStakeV2 targetId sourceId =>
      match accounts with
      | [a, b, c, d, e, f, g, h, i, j] =>
          processMergeStakeV2 clock targetId sourceId a b c d e f g h i j s
      | _ => wrongLength
  | .stakeNft id =>
      match accounts with
      | [a, b, c, d, e, f, g] => processStakeNft id a b c d e f g s
      | _ => wrongLength
  | .unstakeNft id =>
      match accounts with
      | [a, b, c, d, e, f, g] => processUnstakeNft id a b c d e f g s
      | _ => wrongLength
  | .bury =>
      match accounts with
      | signer :: board :: config :: mint :: treasury :: treasuryGodl :: treasurySol :: admin ::
          adminGodl :: warchest :: warchestGodl :: tokenProgram :: godlProgram :: _ =>
          processBury clock ⟨signer, board, config, mint, treasury, treasuryGodl, admin,
            adminGodl, warchest, warchestGodl, tokenProgram, godlProgram⟩ treasurySol cpi s
      | _ => .error (.panic .outOfBounds)
  | .buryTokens amount =>
      match accounts with
      | [a, b, c, d, e, f, g, h, i, j, k, l] =>
          processBuryTokens clock amount ⟨a, b, c, d, e, f, g, h, i, j, k, l⟩ s
      | _ => wrongLength
  | .preBury buryAmount chestAmount adminAmount =>
      match accounts with
      | [a, b, c, d, e, f, g] =>
          processPreBury buryAmount chestAmount adminAmount a b c d e f g s
      | _ => wrongLength
  | .setAdmin admin =>
      match accounts with
      | [a, b, c] => processSetAdmin admin a b c s
      | _ => wrongLength
  | .setFeeCollector feeCollector =>
      match accounts with
      | [a, b, c] => processSetFeeCollector feeCollector a b c s
      | _ => wrongLength
  | .setSwapProgram =>
      match accounts with
      | [a, b, c] => processSetSwapProgram a b c s
      | _ => wrongLength
  | .setVarAddress =>
      match accounts with
      | [a, b, c, d] => processSetVarAddress a b c d s
      | _ => wrongLength
  | .newVar =>
      match accounts with
      | [a, b, c, d, e, f, g] => processNewVar env a b c d e f g cpi s
      | _ => wrongLength
  | .setMotherlodeDenominator motherlodeDenominator =>
      match accounts with
      | [a, b, c] => processSetMotherlodeDenominator motherlodeDenominator a b c s
      | _ => wrongLength
  | .setGodlPerRound godlPerRound =>
      match accounts with
      | [a, b, c] => processSetGodlPerRound godlPerRound a b c s
      | _ => wrongLength
  | .updateProtocolConfig roundSlots intermissionSlots =>
      match accounts with
      | [a, b, c] => processUpdateProtocolConfig roundSlots intermissionSlots a b c s
      | _ => wrongLength
  | .withdrawVault amount =>
      match accounts with
      | [a, b, c, d] => processWithdrawVault amount a b c d s
      | _ => wrongLength
  | .initializeSolMotherlode =>
      match accounts with
      | [a, b, c] => processInitializeSolMotherlode a b c s
      | _ => wrongLength
  | .injectGodlMotherlode amount =>
      match accounts with
      | [a, b, c, d, e] => processInjectGodlMotherlode amount a b c d e s
      | _ => wrongLength
  | .rebaseTotalStaked expected newValue =>
      match accounts with
      | [a, b, c] => processRebaseTotalStaked expected newValue a b c s
      | _ => wrongLength
  | .rebaseTotalUnclaimed expected newValue =>
      match accounts with
      | [a, b, c] => processRebaseTotalUnclaimed expected newValue a b c s
      | _ => wrongLength
  | .initializeGoldVault =>
      match accounts with
      | [a, b, c, d, e, f, g, h, i] => processInitializeGoldVault a b c d e f g h i s
      | _ => wrongLength
  | .createMinerExtended =>
      match accounts with
      | [a, b, c, d, e] => processCreateMinerExtended a b c d e s
      | _ => wrongLength
  | .preBuyGold amount =>
      match accounts with
      | [a, b, c, d, e, f, g] => processPreBuyGold clock amount a b c d e f g s
      | _ => wrongLength
  | .buyGold minXautOut =>
      match accounts with
      | a :: b :: c :: d :: e :: f :: g :: h :: i :: j :: _ =>
          processBuyGold clock minXautOut a b c d e f g h i j cpi s
      | _ => .error (.panic .outOfBounds)
  | .depositGold amount =>
      match accounts with
      | [a, b, c, d, e, f, g, h, i, j] => processDepositGold clock amount a b c d e f g h i j s
      | _ => wrongLength
  | .claimGold =>
      match accounts with
      | [a, b, c, d, e, f, g, h, i, j] => processClaimGold a b c d e f g h i j s
      | _ => wrongLength
  | .initializeOtcTreasury =>
      match accounts with
      | [a, b, c, d, e, f, g] => processInitializeOtcTreasury a b c d e f g s
      | _ => wrongLength
  | .fundGodlOtc amount =>
      match accounts with
      | [a, b, c, d, e, f] => processFundGodlOtc amount a b c d e f s
      | _ => wrongLength
  | .executeOtcTrade args =>
      match accounts with
      | [a, b, c, d, e, f, g, h, i, j, k, l, m, n, o, p] =>
          processExecuteOtcTrade clock args ⟨a, b, c, d, e, f, g, h, i, j, k, l, m, n, o, p⟩ s
      | _ => wrongLength
  | .withdrawSolOtc =>
      match accounts with
      | [a, b, c, d] => processWithdrawSolOtc a b c d s
      | _ => wrongLength
  | .transferMintAuthority =>
      match accounts with
      | [a, b, c, d, e, f] => processTransferMintAuthority env a b c d e f s
      | _ => wrongLength

end Godl
