import Godl.Program.Stake

/-!
# The OTC desk

A buyer pays SOL, at a price its oracle signed, for GODL that comes as a locked
stake, with a bonus that comes as unrefined GODL.

## Main definitions

* `processExecuteOtcTrade` — the trade.
* `processInjectUnrefinedRewards` — the bonus without a trade.
-/

namespace Godl

open Lib

/-- Create the desk's accounts. -/
def processInitializeOtcTreasury (signerInfo mintInfo otcTreasuryInfo otcTreasuryTokensInfo
    systemProgram tokenProgram associatedTokenProgram : AccountInfo) (s : State) :
    Result State := do
  checkSigner signerInfo
  checkAddress signerInfo otcOracleSigner
  checkAddress mintInfo mintAddress
  s.checkEmpty otcTreasuryInfo
  checkWritable otcTreasuryInfo
  checkSeeds otcTreasuryInfo .otcTreasuryPda
  checkWritable otcTreasuryTokensInfo
  checkTokenPrograms systemProgram tokenProgram associatedTokenProgram
  let s ← s.createAccount otcTreasuryInfo otcTreasurySize signerInfo
  let s := { s with
    opened := Function.update s.opened .otcTreasury true
    otcTreasury := ⟨0, 0⟩ }
  s.openTokenAccount otcTreasuryTokensInfo otcTreasuryInfo.key mintInfo.key signerInfo

/-- Fund the desk with GODL. -/
def processFundGodlOtc (amount : ℕ) (signerInfo mintInfo signerTokensInfo otcTreasuryInfo
    otcTreasuryTokensInfo tokenProgram : AccountInfo) (s : State) : Result State := do
  checkSigner signerInfo
  checkAddress mintInfo mintAddress
  checkWritable signerTokensInfo
  let _ ← s.asAssociatedTokenAccount signerTokensInfo signerInfo.key mintAddress
  checkWritable otcTreasuryInfo
  checkSeeds otcTreasuryInfo .otcTreasuryPda
  s.asSingleton .otcTreasury otcTreasuryInfo
  checkWritable otcTreasuryTokensInfo
  let _ ← s.asAssociatedTokenAccount otcTreasuryTokensInfo otcTreasuryInfo.key mintAddress
  checkProgram tokenProgram splTokenId
  require (amount ≠ 0) (.custom .amountTooSmall)
  let s ← s.transferTokensFrom signerInfo signerTokensInfo.key otcTreasuryTokensInfo.key amount
  let balance ← addU64 .arithmeticOverflow s.otcTreasury.godlBalance amount
  return { s with otcTreasury := { s.otcTreasury with godlBalance := balance } }

/-- Withdraw the desk's SOL to the chest; anyone may ask for it. -/
def processWithdrawSolOtc (signerInfo otcTreasuryInfo chestInfo systemProgram : AccountInfo)
    (s : State) : Result State := do
  checkSigner signerInfo
  checkWritable otcTreasuryInfo
  checkSeeds otcTreasuryInfo .otcTreasuryPda
  s.asSingleton .otcTreasury otcTreasuryInfo
  checkWritable chestInfo
  checkAddress chestInfo chestAddress
  checkProgram systemProgram systemProgramId
  let amount := s.otcTreasury.solBalance
  if amount = 0 then
    return s
  else
    let s := { s with otcTreasury := { s.otcTreasury with solBalance := 0 } }
    s.send otcTreasuryInfo.key chestInfo.key amount

/-- Credit unrefined GODL that was just brought in: settle the miner and its gold first. -/
def creditUnrefined (e : ProgramError) (amount : ℕ) (minerExtendedInfo payer : AccountInfo)
    (authority : Pubkey) (miner : Miner) (s : State) : Result (Miner × State) := do
  let (extended, s) ← loadOrCreateMinerExtended minerExtendedInfo authority payer true s
  let miner ← miner.updateRewards s.treasury
  let s ← syncGoldRewards extended miner s
  let rewards ← addU64 e miner.rewardsGodl amount
  let lifetime ← addU64 e miner.lifetimeRewardsGodl amount
  let totalUnclaimed ← addU64 e s.treasury.totalUnclaimed amount
  return ({ miner with rewardsGodl := rewards, lifetimeRewardsGodl := lifetime },
    { s with treasury := { s.treasury with totalUnclaimed := totalUnclaimed } })

/-- Give a miner unrefined GODL out of the bury authority's account. -/
def processInjectUnrefinedRewards (amount : ℕ) (signerInfo configInfo minerInfo treasuryInfo
    signerTokensInfo treasuryTokensInfo tokenProgram goldVaultInfo minerExtendedInfo
    systemProgram : AccountInfo) (s : State) : Result State := do
  checkSigner signerInfo
  s.asConfig configInfo
  require (s.config.buryAuthority = signerInfo.key) .invalidAccountData
  checkWritable minerInfo
  let miner ← s.load s.miners minerInfo.key
  checkSeeds minerInfo (.minerPda miner.authority)
  checkWritable treasuryInfo
  s.asSingleton .treasury treasuryInfo
  checkWritable signerTokensInfo
  let _ ← s.asAssociatedTokenAccount signerTokensInfo signerInfo.key mintAddress
  checkWritable treasuryTokensInfo
  let _ ← s.asAssociatedTokenAccount treasuryTokensInfo treasuryInfo.key mintAddress
  checkProgram tokenProgram splTokenId
  checkGoldVault goldVaultInfo s
  checkProgram systemProgram systemProgramId
  require (amount ≠ 0) (.custom .amountTooSmall)
  let s ← s.transferTokensFrom signerInfo signerTokensInfo.key treasuryTokensInfo.key amount
  let (miner, s) ← creditUnrefined .invalidInstructionData amount minerExtendedInfo signerInfo
    miner.authority miner s
  return { s with miners := s.miners.put miner }

/-- The arguments of a trade. -/
structure OtcTradeArgs where
  stakeId : ℕ
  solIn : ℕ
  godlOut : ℕ
  godlBonus : ℕ
  expirySlot : ℕ
  lockDuration : ℤ

/-- The accounts of a trade. -/
structure OtcTradeAccounts where
  buyerInfo : AccountInfo
  oracleInfo : AccountInfo
  mintInfo : AccountInfo
  minerInfo : AccountInfo
  otcUserInfo : AccountInfo
  otcTreasuryInfo : AccountInfo
  otcTreasuryTokensInfo : AccountInfo
  treasuryInfo : AccountInfo
  treasuryTokensInfo : AccountInfo
  stakeInfo : AccountInfo
  stakeTokensInfo : AccountInfo
  systemProgram : AccountInfo
  tokenProgram : AccountInfo
  associatedTokenProgram : AccountInfo
  goldVaultInfo : AccountInfo
  minerExtendedInfo : AccountInfo

/-- The shortest lock of a bought stake, in seconds. -/
abbrev oneMonth : ℤ := 30 * oneDay

/-- Check the accounts and arguments of a trade; returns what the desk's token account
holds. -/
def checkOtcTrade (clock : Clock) (args : OtcTradeArgs) (a : OtcTradeAccounts) (s : State) :
    Result ℕ := do
  checkSigner a.buyerInfo
  checkSigner a.oracleInfo
  checkAddress a.oracleInfo otcOracleSigner
  checkAddress a.mintInfo mintAddress
  checkWritable a.minerInfo
  checkSeeds a.minerInfo (.minerPda a.buyerInfo.key)
  checkWritable a.otcUserInfo
  checkSeeds a.otcUserInfo (.otcUserPda a.buyerInfo.key)
  checkWritable a.otcTreasuryInfo
  checkSeeds a.otcTreasuryInfo .otcTreasuryPda
  checkWritable a.otcTreasuryTokensInfo
  let otcTreasuryTokens ←
    s.asAssociatedTokenAccount a.otcTreasuryTokensInfo a.otcTreasuryInfo.key mintAddress
  checkWritable a.treasuryInfo
  checkSeeds a.treasuryInfo .treasuryPda
  checkWritable a.treasuryTokensInfo
  let _ ← s.asAssociatedTokenAccount a.treasuryTokensInfo a.treasuryInfo.key mintAddress
  checkWritable a.stakeInfo
  checkSeeds a.stakeInfo (.stakeV2Pda a.buyerInfo.key args.stakeId)
  checkWritable a.stakeTokensInfo
  checkTokenPrograms a.systemProgram a.tokenProgram a.associatedTokenProgram
  checkGoldVault a.goldVaultInfo s
  checkSeeds a.minerExtendedInfo (.minerExtendedPda a.buyerInfo.key)
  require (clock.slot ≤ args.expirySlot) (.custom .otcQuoteExpired)
  require (args.solIn ≠ 0 ∧ args.godlOut ≠ 0) (.custom .amountTooSmall)
  require (oneMonth ≤ args.lockDuration ∧ args.lockDuration ≤ maxLockDuration)
    (.custom .invalidLockDuration)
  require (s.dataIsEmpty a.stakeInfo.key = true) (.custom .stakeAlreadyExists)
  return otcTreasuryTokens

/-- Book the trade with the desk and collect the buyer's SOL. -/
def bookOtcTrade (args : OtcTradeArgs) (a : OtcTradeAccounts) (otcTreasuryTokens : ℕ)
    (s : State) : Result State := do
  let required ← addU64 .arithmeticOverflow args.godlOut args.godlBonus
  require (required ≤ otcTreasuryTokens) (.custom .insufficientOtcGodlBalance)
  s.asSingleton .otcTreasury a.otcTreasuryInfo
  require (required ≤ s.otcTreasury.godlBalance) (.custom .insufficientOtcGodlBalance)
  let solBalance ← addU64 .arithmeticOverflow s.otcTreasury.solBalance args.solIn
  let s := { s with otcTreasury := ⟨solBalance, s.otcTreasury.godlBalance - required⟩ }
  s.collect a.otcTreasuryInfo.key args.solIn a.buyerInfo

/-- The buyer's record with the desk, created when it is missing. -/
def openOtcUser (a : OtcTradeAccounts) (s : State) : Result (OtcUser × State) :=
  if s.dataIsEmpty a.otcUserInfo.key then do
    let s ← s.createAccount a.otcUserInfo otcUserSize a.buyerInfo
    return (⟨a.buyerInfo.key, 0, 0, 0⟩, s)
  else do
    let otcUser ← s.load s.otcUsers a.otcUserInfo.key
    require (otcUser.authority = a.buyerInfo.key) .invalidAccountData
    return (otcUser, s)

/-- Open the buyer's stake and fill it from the desk. -/
def openOtcStake (clock : Clock) (args : OtcTradeArgs) (a : OtcTradeAccounts)
    (otcTreasuryTokens : ℕ) (s : State) : Result (StakeV2 × State) := do
  let s ← s.createAccount a.stakeInfo stakeV2Size a.buyerInfo
  s.asSingleton .treasury a.treasuryInfo
  let stake := StakeV2.create args.stakeId a.buyerInfo.key a.buyerInfo.key args.lockDuration
    clock s.treasury
  let stake ← stake.updateRewards s.treasury
  let account := StakeV2Account.derived a.buyerInfo.key args.stakeId stake
  let s := { s with stakesV2 := s.stakesV2.put account }
  let s ← s.openTokenAccount a.stakeTokensInfo a.stakeInfo.key a.mintInfo.key a.buyerInfo
  let (deposited, stake, treasury) ←
    stake.deposit args.godlOut clock s.treasury otcTreasuryTokens
  require (deposited = args.godlOut) (.custom .insufficientOtcGodlBalance)
  let s := { s.putStakeV2 account stake with treasury := treasury }
  let s ← s.transferTokens a.otcTreasuryTokensInfo.key a.stakeTokensInfo.key deposited
  return (stake, s)

/-- Pay the bonus into the treasury and credit it to the buyer's miner. -/
def payOtcBonus (args : OtcTradeArgs) (a : OtcTradeAccounts) (miner : Miner) (s : State) :
    Result (Miner × State) :=
  if 0 < args.godlBonus then do
    let s ←
      s.transferTokens a.otcTreasuryTokensInfo.key a.treasuryTokensInfo.key args.godlBonus
    creditUnrefined .arithmeticOverflow args.godlBonus a.minerExtendedInfo a.buyerInfo
      a.buyerInfo.key miner s
  else
    return (miner, s)

/-- Trade with the desk. -/
def processExecuteOtcTrade (clock : Clock) (args : OtcTradeArgs) (a : OtcTradeAccounts)
    (s : State) : Result State := do
  let otcTreasuryTokens ← checkOtcTrade clock args a s
  let s ← bookOtcTrade args a otcTreasuryTokens s
  let (miner, s) ←
    openMiner .invalidAccountData a.minerInfo a.buyerInfo.key a.buyerInfo s
  let (otcUser, s) ← openOtcUser a s
  let (stake, s) ← openOtcStake clock args a otcTreasuryTokens s
  let (miner, s) ← payOtcBonus args a miner s
  let solIn ← addU64 .arithmeticOverflow otcUser.totalSolIn args.solIn
  let godlOut ← addU64 .arithmeticOverflow otcUser.totalGodlOut args.godlOut
  let godlBonus ← addU64 .arithmeticOverflow otcUser.totalGodlBonus args.godlBonus
  let s := { s with
    miners := s.miners.put miner
    otcUsers := s.otcUsers.put ⟨otcUser.authority, solIn, godlOut, godlBonus⟩ }
  let stakeTokens ← s.asAssociatedTokenAccount a.stakeTokensInfo a.stakeInfo.key a.mintInfo.key
  require (stake.balance ≤ stakeTokens) (.panic .assertion)
  return s

end Godl
