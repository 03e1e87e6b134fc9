import Godl.Program.Open

/-!
# Stakes of both versions

Every handler settles the stake's rewards at its old weight before it changes the
weight, and moves the treasury's total by what the weight changed.  Handlers of v2
stakes that their owner or executor calls first move the stake to the square-root
curve.

## Main definitions

* `stakeMultiplier` — the multiplier of a lock.
* `processWithdraw`, `processClaimYield` — the instructions on v1 stakes.
* `processDepositV2` and the ones after it — the instructions on v2 stakes.
-/

namespace Godl

open Lib

/-! ## Version 1 -/

/-- The signer's v1 stake. -/
abbrev loadStake (stakeInfo signerInfo : AccountInfo) (s : State) : Result Stake := do
  checkSeeds stakeInfo (.stakePda signerInfo.key)
  let stake ← s.load s.stakes stakeInfo.key
  require (stake.authority = signerInfo.key) .invalidAccountData
  return stake

/-- Deposits into v1 stakes are disabled. -/
def processDeposit : Result State := .error (.custom .stakeV1Deprecated)

/-- Withdraw from a v1 stake. -/
def processWithdraw (clock : Clock) (amount : ℕ) (signerInfo mintInfo recipientInfo stakeInfo
    stakeTokensInfo treasuryInfo systemProgram tokenProgram associatedTokenProgram : AccountInfo)
    (s : State) : Result State := do
  checkSigner signerInfo
  checkAddress mintInfo mintAddress
  checkWritable recipientInfo
  let stake ← loadStake stakeInfo signerInfo s
  let _ ← s.asAssociatedTokenAccount stakeTokensInfo stakeInfo.key mintInfo.key
  s.asSingleton .treasury treasuryInfo
  checkTokenPrograms systemProgram tokenProgram associatedTokenProgram
  let s ← s.openTokenAccount recipientInfo signerInfo.key mintInfo.key signerInfo
  let (amount, stake, treasury) ← stake.withdraw amount clock s.treasury
  let s := { s with stakes := s.stakes.put stake, treasury := treasury }
  let s ← s.transferTokens stakeTokensInfo.key recipientInfo.key amount
  let stakeTokens ← s.asAssociatedTokenAccount stakeTokensInfo stakeInfo.key mintInfo.key
  require (stake.balance ≤ stakeTokens) (.panic .assertion)
  return s

/-- Claim the rewards of a v1 stake. -/
def processClaimYield (clock : Clock) (amount : ℕ) (signerInfo mintInfo recipientInfo stakeInfo
    treasuryInfo treasuryTokensInfo systemProgram tokenProgram
    associatedTokenProgram : AccountInfo) (s : State) : Result State := do
  checkSigner signerInfo
  checkAddress mintInfo mintAddress
  checkWritable recipientInfo
  let stake ← loadStake stakeInfo signerInfo s
  s.asSingleton .treasury treasuryInfo
  checkWritable treasuryTokensInfo
  let _ ← s.asAssociatedTokenAccount treasuryTokensInfo treasuryInfo.key mintInfo.key
  checkTokenPrograms systemProgram tokenProgram associatedTokenProgram
  let s ← s.openTokenAccount recipientInfo signerInfo.key mintInfo.key signerInfo
  let (amount, stake) ← stake.claim amount clock s.treasury
  let s := { s with stakes := s.stakes.put stake }
  s.transferTokens treasuryTokensInfo.key recipientInfo.key amount

/-! ## Version 2 -/

/-- The multiplier of a lock: linear from one up to the largest, in fixed point. -/
def stakeMultiplier (lockDuration : ℤ) : ℕ :=
  let d := (min (max lockDuration 0) maxLockDuration).toNat
  stakeMultiplierScale +
    (maxStakeMultiplier - 1) * d * stakeMultiplierScale / maxLockDuration.toNat

/-- Write a v2 stake back to the account it was read from. -/
def State.putStakeV2 (s : State) (account : StakeV2Account) (stake : StakeV2) : State :=
  { s with stakesV2 := s.stakesV2.put { account with stake := stake } }

/-- The v2 stake at an address, wherever it lives. -/
abbrev State.asStakeV2 (s : State) (stakeInfo : AccountInfo) : Result StakeV2Account :=
  s.load s.stakesV2 stakeInfo.key

/-- The signer's canonical v2 stake with an id. -/
abbrev loadStakeV2 (stakeInfo signerInfo : AccountInfo) (id : ℕ) (s : State) :
    Result StakeV2Account := do
  checkSeeds stakeInfo (.stakeV2Pda signerInfo.key id)
  let account ← s.asStakeV2 stakeInfo
  require (account.stake.authority = signerInfo.key) .invalidAccountData
  require (account.stake.id = id) .invalidAccountData
  return account

/-- The content of a new stake: on the square-root curve, with the factor as of now. -/
def StakeV2.create (id : ℕ) (authority executor : Pubkey) (lockDuration : ℤ) (clock : Clock)
    (treasury : Treasury) : StakeV2 :=
  { StakeV2.zeroed with
    id := id
    authority := authority
    rewardsFactor := treasury.stakeRewardsFactor
    multiplier := stakeMultiplier lockDuration
    lockDuration := lockDuration
    executor := executor
    createdAt := clock.unixTimestamp
    weightVersion := 1 }

/-- Open a new locked stake and fill it. -/
def processDepositV2 (clock : Clock) (id amount : ℕ) (lockDuration : ℤ) (signerInfo mintInfo
    senderInfo stakeInfo stakeTokensInfo treasuryInfo executorInfo systemProgram tokenProgram
    associatedTokenProgram : AccountInfo) (s : State) : Result State := do
  checkSigner signerInfo
  checkAddress mintInfo mintAddress
  checkWritable senderInfo
  let sender ← s.asAssociatedTokenAccount senderInfo signerInfo.key mintAddress
  checkWritable stakeInfo
  s.asSingleton .treasury treasuryInfo
  checkTokenPrograms systemProgram tokenProgram associatedTokenProgram
  require (0 ≤ lockDuration ∧ lockDuration ≤ maxLockDuration) (.custom .invalidLockDuration)
  require (amount ≠ 0) (.custom .amountTooSmall)
  require (s.dataIsEmpty stakeInfo.key = true) (.custom .stakeAlreadyExists)
  checkSeeds stakeInfo (.stakeV2Pda signerInfo.key id)
  let s ← s.createAccount stakeInfo stakeV2Size signerInfo
  let stake := StakeV2.create id signerInfo.key executorInfo.key lockDuration clock s.treasury
  let stake ← stake.updateRewards s.treasury
  let account := StakeV2Account.derived signerInfo.key id stake
  let s := { s with stakesV2 := s.stakesV2.put account }
  let s ← s.openTokenAccount stakeTokensInfo stakeInfo.key mintInfo.key signerInfo
  let (deposited, stake, treasury) ← stake.deposit amount clock s.treasury sender
  require (deposited = amount) (.custom .amountTooSmall)
  let s := { s.putStakeV2 account stake with treasury := treasury }
  let s ← s.transferTokensFrom signerInfo senderInfo.key stakeTokensInfo.key deposited
  let stakeTokens ← s.asAssociatedTokenAccount stakeTokensInfo stakeInfo.key mintInfo.key
  require (stake.balance ≤ stakeTokens) (.panic .assertion)
  return s

/-- Withdraw from a stake whose lock is over. -/
def processWithdrawV2 (clock : Clock) (id amount : ℕ) (signerInfo mintInfo recipientInfo
    stakeInfo stakeTokensInfo treasuryInfo systemProgram tokenProgram
    associatedTokenProgram : AccountInfo) (s : State) : Result State := do
  checkSigner signerInfo
  checkAddress mintInfo mintAddress
  checkWritable recipientInfo
  let account ← loadStakeV2 stakeInfo signerInfo id s
  let stake := account.stake
  let _ ← s.asAssociatedTokenAccount stakeTokensInfo stakeInfo.key mintInfo.key
  s.asSingleton .treasury treasuryInfo
  checkTokenPrograms systemProgram tokenProgram associatedTokenProgram
  let (stake, treasury) ← stake.migrateWeight s.treasury
  require (min (stake.createdAt + max stake.lockDuration 0) (2 ^ 63 - 1) ≤ clock.unixTimestamp)
    (.custom .stakeLocked)
  require (amount ≠ 0) (.custom .amountTooSmall)
  let s ← s.openTokenAccount recipientInfo signerInfo.key mintInfo.key signerInfo
  let (amount, stake, treasury) ← stake.withdraw amount clock treasury
  let s := { s.putStakeV2 account stake with treasury := treasury }
  let s ← s.transferTokens stakeTokensInfo.key recipientInfo.key amount
  let stakeTokens ← s.asAssociatedTokenAccount stakeTokensInfo stakeInfo.key mintInfo.key
  require (stake.balance ≤ stakeTokens) (.panic .assertion)
  return s

/-- Claim the rewards of a stake. -/
def processClaimYieldV2 (clock : Clock) (id amount : ℕ) (signerInfo mintInfo recipientInfo
    stakeInfo treasuryInfo treasuryTokensInfo systemProgram tokenProgram
    associatedTokenProgram : AccountInfo) (s : State) : Result State := do
  checkSigner signerInfo
  checkAddress mintInfo mintAddress
  checkWritable recipientInfo
  let account ← loadStakeV2 stakeInfo signerInfo id s
  let stake := account.stake
  s.asSingleton .treasury treasuryInfo
  checkWritable treasuryTokensInfo
  let _ ← s.asAssociatedTokenAccount treasuryTokensInfo treasuryInfo.key mintInfo.key
  checkTokenPrograms systemProgram tokenProgram associatedTokenProgram
  let s ← s.openTokenAccount recipientInfo signerInfo.key mintInfo.key signerInfo
  let (amount, stake) ← stake.claim amount clock s.treasury
  let s := s.putStakeV2 account stake
  s.transferTokens treasuryTokensInfo.key recipientInfo.key amount

/-- Put the rewards of a stake into its balance, less one percent that is burned.  The error of
the check of the vault at the end is a parameter. -/
def compoundYieldV2 (vaultError : ProgramError) (clock : Clock) (id : ℕ) (signerInfo mintInfo
    stakeInfo stakeTokensInfo treasuryInfo treasuryTokensInfo systemProgram tokenProgram
    associatedTokenProgram : AccountInfo) (s : State) : Result State := do
  checkSigner signerInfo
  checkWritable stakeInfo
  checkWritable stakeTokensInfo
  checkWritable treasuryTokensInfo
  checkAddress mintInfo mintAddress
  checkWritable mintInfo
  checkWritable treasuryInfo
  s.asSingleton .treasury treasuryInfo
  checkTokenPrograms systemProgram tokenProgram associatedTokenProgram
  let account ← s.asStakeV2 stakeInfo
  let stake := account.stake
  require (stake.id = id) .invalidAccountData
  require (stake.authority = signerInfo.key ∨ stake.executor = signerInfo.key)
    (.custom .notAuthorized)
  checkSeeds stakeInfo (.stakeV2Pda stake.authority id)
  let _ ← s.asAssociatedTokenAccount stakeTokensInfo stakeInfo.key mintInfo.key
  let _ ← s.asAssociatedTokenAccount treasuryTokensInfo treasuryInfo.key mintInfo.key
  let (stake, treasury) ← stake.migrateWeight s.treasury
  let (compounded, stake) ← stake.claim u64Max clock treasury
  require (compounded ≠ 0) (.custom .amountTooSmall)
  let fee := compounded / 100
  let s ← if 0 < fee then s.burnTokens treasuryTokensInfo.key fee else pure s
  let amount := compounded - fee
  let s ← s.transferTokens treasuryTokensInfo.key stakeTokensInfo.key amount
  let stakeTokens ← s.asAssociatedTokenAccount stakeTokensInfo stakeInfo.key mintInfo.key
  let (_, stake, treasury) ← stake.deposit amount clock treasury stakeTokens
  let s := { s.putStakeV2 account stake with treasury := treasury }
  require (stake.balance ≤ stakeTokens) vaultError
  return s

/-- Compound the rewards of a stake. -/
def processCompoundYieldV2 (clock : Clock) (id : ℕ) (signerInfo mintInfo stakeInfo
    stakeTokensInfo treasuryInfo treasuryTokensInfo systemProgram tokenProgram
    associatedTokenProgram : AccountInfo) (s : State) : Result State :=
  compoundYieldV2 .invalidAccountData clock id signerInfo mintInfo stakeInfo stakeTokensInfo
    treasuryInfo treasuryTokensInfo systemProgram tokenProgram associatedTokenProgram s

/-- Let the owner name an executor. -/
def processSetStakeExecutorV2 (id : ℕ) (executor : Pubkey) (signerInfo stakeInfo : AccountInfo)
    (s : State) : Result State := do
  checkSigner signerInfo
  checkWritable stakeInfo
  let account ← s.asStakeV2 stakeInfo
  let stake := account.stake
  require (stake.id = id) .invalidAccountData
  require (stake.authority = signerInfo.key) .invalidAccountData
  return s.putStakeV2 account { stake with executor := executor }

/-- Lower a stake's balance to what its vault really holds; no tokens move. -/
def processReconcileStakeV2 (clock : Clock) (signerInfo configInfo stakeInfo stakeTokensInfo
    mintInfo treasuryInfo : AccountInfo) (s : State) : Result State := do
  checkSigner signerInfo
  s.asConfig configInfo
  require (s.config.admin = signerInfo.key) (.custom .notAuthorized)
  checkAddress mintInfo mintAddress
  checkWritable stakeInfo
  let account ← s.asStakeV2 stakeInfo
  let stake := account.stake
  checkWritable treasuryInfo
  s.asSingleton .treasury treasuryInfo
  checkAddress stakeTokensInfo (.associatedTokenAddress stakeInfo.key mintAddress)
  let vaultBalance ←
    if s.dataIsEmpty stakeTokensInfo.key then pure 0
    else s.asAssociatedTokenAccount stakeTokensInfo stakeInfo.key mintInfo.key
  let (_, stake, treasury) ← stake.withdraw (stake.balance - vaultBalance) clock s.treasury
  return { s.putStakeV2 account stake with treasury := treasury }

/-- Move a stake to the square-root curve; anyone may ask for it. -/
def processMigrateStakeWeight (signerInfo stakeInfo treasuryInfo : AccountInfo) (s : State) :
    Result State := do
  checkSigner signerInfo
  checkWritable stakeInfo
  let account ← s.asStakeV2 stakeInfo
  let stake := account.stake
  checkWritable treasuryInfo
  s.asSingleton .treasury treasuryInfo
  if stake.weightVersion ≠ 0 then
    return s
  else
    let _ ← stake.weightedUnits
    let (stake, treasury) ← stake.migrateWeight s.treasury
    let _ ← stake.weightedUnits
    return { s.putStakeV2 account stake with treasury := treasury }

/-- Delete the account of a stake, its lamports going to `dest`. -/
def closeStakeV2Account (stakeInfo : AccountInfo) (dest : Pubkey) (s : State) : State :=
  let s := s.releaseLamports stakeInfo.key dest
  { s with stakesV2 := s.stakesV2.erase stakeInfo.key }

/-- Close an empty stake, paying out its rewards and what is left in its vault. -/
def processCloseStakeV2 (clock : Clock) (id : ℕ) (signerInfo mintInfo recipientInfo stakeInfo
    stakeTokensInfo treasuryInfo treasuryTokensInfo systemProgram tokenProgram
    associatedTokenProgram : AccountInfo) (s : State) : Result State := do
  checkSigner signerInfo
  checkAddress mintInfo mintAddress
  checkWritable recipientInfo
  checkWritable stakeInfo
  let account ← loadStakeV2 stakeInfo signerInfo id s
  let stake := account.stake
  s.asSingleton .treasury treasuryInfo
  checkWritable treasuryTokensInfo
  let _ ← s.asAssociatedTokenAccount treasuryTokensInfo treasuryInfo.key mintInfo.key
  checkTokenPrograms systemProgram tokenProgram associatedTokenProgram
  require (stake.balance = 0) (.custom .stakeNotEmpty)
  require (stake.isNftStaked = 0) (.custom .nftAlreadyStaked)
  let residual ← s.asAssociatedTokenAccount stakeTokensInfo stakeInfo.key mintInfo.key
  let (rewards, _) ← stake.claim u64Max clock s.treasury
  let totalOut ← addU64 (.custom .stakeOverflow) rewards residual
  let s ← if 0 < totalOut then
      s.openTokenAccount recipientInfo signerInfo.key mintInfo.key signerInfo
    else pure s
  let s ← if 0 < rewards then s.transferTokens treasuryTokensInfo.key recipientInfo.key rewards
    else pure s
  let s ← if 0 < residual then s.transferTokens stakeTokensInfo.key recipientInfo.key residual
    else pure s
  let s ← s.closeTokenAccount stakeTokensInfo.key signerInfo.key
  return closeStakeV2Account stakeInfo signerInfo.key s

/-- Sweep an empty stake that does not live at its canonical address. -/
def processClosePhantomStakeV2 (signerInfo configInfo stakeInfo treasuryInfo : AccountInfo)
    (s : State) : Result State := do
  checkSigner signerInfo
  s.asConfig configInfo
  require (s.config.admin = signerInfo.key) (.custom .notAuthorized)
  checkWritable stakeInfo
  let account ← s.asStakeV2 stakeInfo
  let stake := account.stake
  require (stakeInfo.key ≠ stake.pda) (.custom .stakeNotPhantom)
  require (stake.balance = 0) (.custom .stakeNotEmpty)
  checkWritable treasuryInfo
  s.asSingleton .treasury treasuryInfo
  let lamports := s.lamports stakeInfo.key
  let s := closeStakeV2Account stakeInfo treasuryInfo.key s
  let balance ← addU64 overflow s.treasury.balance lamports
  return { s with treasury := { s.treasury with balance := balance } }

/-- Add to a stake; its lock starts over.  The error of the check of the vault at the end is a
parameter. -/
def topUpStakeV2 (vaultError : ProgramError) (clock : Clock) (id amount : ℕ) (signerInfo mintInfo
    senderInfo stakeInfo stakeTokensInfo treasuryInfo systemProgram tokenProgram
    associatedTokenProgram : AccountInfo) (s : State) : Result State := do
  checkSigner signerInfo
  checkAddress mintInfo mintAddress
  checkWritable senderInfo
  let sender ← s.asAssociatedTokenAccount senderInfo signerInfo.key mintAddress
  checkWritable stakeInfo
  checkSeeds stakeInfo (.stakeV2Pda signerInfo.key id)
  require (s.dataIsEmpty stakeInfo.key = false) .uninitializedAccount
  let account ← loadStakeV2 stakeInfo signerInfo id s
  let stake := account.stake
  s.asSingleton .treasury treasuryInfo
  checkTokenPrograms systemProgram tokenProgram associatedTokenProgram
  require (amount ≠ 0) (.custom .amountTooSmall)
  let (stake, treasury) ← stake.migrateWeight s.treasury
  let _ ← s.asAssociatedTokenAccount stakeTokensInfo stakeInfo.key mintInfo.key
  let (deposited, stake, treasury) ← stake.deposit amount clock treasury sender
  require (deposited = amount) (.custom .amountTooSmall)
  let stake := { stake with createdAt := clock.unixTimestamp }
  let s := { s.putStakeV2 account stake with treasury := treasury }
  let s ← s.transferTokensFrom signerInfo senderInfo.key stakeTokensInfo.key deposited
  let stakeTokens ← s.asAssociatedTokenAccount stakeTokensInfo stakeInfo.key mintInfo.key
  require (stake.balance ≤ stakeTokens) vaultError
  return s

/-- Top a stake up. -/
def processTopUpStakeV2 (clock : Clock) (id amount : ℕ) (signerInfo mintInfo senderInfo stakeInfo
    stakeTokensInfo treasuryInfo systemProgram tokenProgram
    associatedTokenProgram : AccountInfo) (s : State) : Result State :=
  topUpStakeV2 .invalidAccountData clock id amount signerInfo mintInfo senderInfo stakeInfo
    stakeTokensInfo treasuryInfo systemProgram tokenProgram associatedTokenProgram s

/-- Fold the source stake into the target: the sum of both, on the terms of a fresh
deposit with the longer lock.  Both are settled already. -/
def StakeV2.merge (target source : StakeV2) (clock : Clock) : Result StakeV2 := do
  let balance ← addU64 (.custom .stakeOverflow) target.balance source.balance
  let rewards ← addU64 (.custom .stakeOverflow) target.rewards source.rewards
  let lifetime ← addU64 (.custom .stakeOverflow) target.lifetimeRewards source.lifetimeRewards
  let lockDuration := max target.lockDuration source.lockDuration
  return { target with
    balance := balance
    rewards := rewards
    lifetimeRewards := lifetime
    lockDuration := lockDuration
    createdAt := clock.unixTimestamp
    multiplier := stakeMultiplier lockDuration
    lastDepositAt := clock.unixTimestamp }

/-- Merge one stake of the signer into another and close the source.  The error of the three
checks of the vaults is a parameter. -/
def mergeStakeV2 (vaultError : ProgramError) (clock : Clock) (targetId sourceId : ℕ) (signerInfo
    mintInfo targetStakeInfo targetTokensInfo sourceStakeInfo sourceTokensInfo treasuryInfo
    systemProgram tokenProgram associatedTokenProgram : AccountInfo) (s : State) :
    Result State := do
  require (targetId ≠ sourceId) (.custom .mergeSameStake)
  checkSigner signerInfo
  checkAddress mintInfo mintAddress
  checkWritable targetStakeInfo
  checkSeeds targetStakeInfo (.stakeV2Pda signerInfo.key targetId)
  checkWritable sourceStakeInfo
  checkSeeds sourceStakeInfo (.stakeV2Pda signerInfo.key sourceId)
  let targetAccount ← loadStakeV2 targetStakeInfo signerInfo targetId s
  let target := targetAccount.stake
  let sourceAccount ← loadStakeV2 sourceStakeInfo signerInfo sourceId s
  let source := sourceAccount.stake
  s.asSingleton .treasury treasuryInfo
  let sourceVaultAmount ←
    s.asAssociatedTokenAccount sourceTokensInfo sourceStakeInfo.key mintInfo.key
  let targetVaultAmount ←
    s.asAssociatedTokenAccount targetTokensInfo targetStakeInfo.key mintInfo.key
  checkTokenPrograms systemProgram tokenProgram associatedTokenProgram
  require (target.isNftStaked = 0 ∧ source.isNftStaked = 0) (.custom .nftAlreadyStaked)
  require (target.balance ≤ targetVaultAmount) vaultError
  require (source.balance ≤ sourceVaultAmount) vaultError
  let (target, treasury) ← target.migrateWeight s.treasury
  let (source, treasury) ← source.migrateWeight treasury
  let target ← target.updateRewards treasury
  let source ← source.updateRewards treasury
  let targetUnits ← target.weightedUnits
  let sourceUnits ← source.weightedUnits
  let prevUnits ← addU64 (.custom .stakeOverflow) targetUnits sourceUnits
  let target ← target.merge source clock
  let newUnits ← target.weightedUnits
  let treasury ← moveTotalStaked treasury prevUnits newUnits
  let s := { s.putStakeV2 targetAccount target with treasury := treasury }
  let s ← if 0 < sourceVaultAmount then
      s.transferTokens sourceTokensInfo.key targetTokensInfo.key sourceVaultAmount
    else pure s
  let s ← s.closeTokenAccount sourceTokensInfo.key signerInfo.key
  let s := closeStakeV2Account sourceStakeInfo signerInfo.key s
  let targetTokens ←
    s.asAssociatedTokenAccount targetTokensInfo targetStakeInfo.key mintInfo.key
  require (target.balance ≤ targetTokens) vaultError
  return s

/-- Merge two stakes of the signer. -/
def processMergeStakeV2 (clock : Clock) (targetId sourceId : ℕ) (signerInfo mintInfo
    targetStakeInfo targetTokensInfo sourceStakeInfo sourceTokensInfo treasuryInfo systemProgram
    tokenProgram associatedTokenProgram : AccountInfo) (s : State) : Result State :=
  mergeStakeV2 .invalidAccountData clock targetId sourceId signerInfo mintInfo targetStakeInfo
    targetTokensInfo sourceStakeInfo sourceTokensInfo treasuryInfo systemProgram tokenProgram
    associatedTokenProgram s

/-- Move an NFT of the boost collection; its owner must have signed. -/
def transferAsset (asset owner newOwner : Pubkey) (s : State) : Result State := do
  require (s.assets asset = some owner) .invalidAccountData
  return { s with assets := Function.update s.assets asset (some newOwner) }

/-- The checks of the two NFT instructions. -/
abbrev checkNftAccounts (signerInfo collectionInfo mplCoreInfo systemProgram : AccountInfo) :
    Result Unit := do
  checkSigner signerInfo
  checkAddress collectionInfo nftBoostCollection
  checkAddress mplCoreInfo mplCoreProgram
  checkProgram systemProgram systemProgramId

/-- Stake an NFT to boost a stake. -/
def processStakeNft (id : ℕ) (signerInfo assetInfo collectionInfo stakeInfo treasuryInfo
    mplCoreInfo systemProgram : AccountInfo) (s : State) : Result State := do
  checkNftAccounts signerInfo collectionInfo mplCoreInfo systemProgram
  let account ← loadStakeV2 stakeInfo signerInfo id s
  let stake := account.stake
  s.asSingleton .treasury treasuryInfo
  let (stake, treasury) ← stake.migrateWeight s.treasury
  let (stake, treasury) ← stake.stakeNft treasury
  let s := { s.putStakeV2 account stake with treasury := treasury }
  transferAsset assetInfo.key signerInfo.key stakeInfo.key s

/-- Take the NFT of a stake back. -/
def processUnstakeNft (id : ℕ) (signerInfo assetInfo collectionInfo stakeInfo treasuryInfo
    mplCoreInfo systemProgram : AccountInfo) (s : State) : Result State := do
  checkNftAccounts signerInfo collectionInfo mplCoreInfo systemProgram
  let account ← loadStakeV2 stakeInfo signerInfo id s
  let stake := account.stake
  s.asSingleton .treasury treasuryInfo
  let (stake, treasury) ← stake.migrateWeight s.treasury
  let (stake, treasury) ← stake.unstakeNft treasury
  let s := { s.putStakeV2 account stake with treasury := treasury }
  transferAsset assetInfo.key stakeInfo.key signerInfo.key s

end Godl
