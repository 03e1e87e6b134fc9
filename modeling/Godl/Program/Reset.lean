import Godl.Chain

/-!
# Resetting the round

A reset reads the random value of the round from the entropy program, pays the fees,
latches how the reward will be paid, mints it, and opens the next round.  The crank
bot's reset and the permissionless one share one body; they differ in who may sign, in
what they ask of the top miner, and in the reward that the permissionless caller takes
out of the admin fee.

## Main definitions

* `ResetAccounts` — the accounts.
* `latchLenient`, `latchStrict` — how the two variants find out whether the pool won.
* `resetBody` — what they share.
* `processReset`, `processResetPermissionless` — the instructions.
-/

namespace Godl

open Lib

/-- The accounts of a reset; `mintAccounts` are those that follow the accounts of the entropy
program. -/
structure ResetAccounts where
  signerInfo : AccountInfo
  boardInfo : AccountInfo
  configInfo : AccountInfo
  feeCollectorInfo : AccountInfo
  mintInfo : AccountInfo
  roundInfo : AccountInfo
  roundNextInfo : AccountInfo
  poolRoundNextInfo : AccountInfo
  topMinerInfo : AccountInfo
  topMinerPoolMemberInfo : AccountInfo
  solMotherlodeInfo : AccountInfo
  rushSolVaultInfo : AccountInfo
  treasuryInfo : AccountInfo
  treasuryTokensInfo : AccountInfo
  systemProgram : AccountInfo
  tokenProgram : AccountInfo
  godlProgram : AccountInfo
  slotHashesSysvar : AccountInfo
  varInfo : AccountInfo
  entropyProgram : AccountInfo
  mintAccounts : List AccountInfo

/-- The two variants. -/
inductive ResetVariant
  | lenient
  | permissionless
deriving DecidableEq

/-- A round that waits for its first deployment. -/
def Round.fresh (id : ℕ) (rentPayer : Pubkey) : Round where
  id := id
  deployed _ := 0
  slotHash := 0
  count _ := 0
  expiresAt := u64Max
  motherlode := 0
  rentPayer := rentPayer
  topMiner := Pubkey.default
  topMinerReward := 0
  totalDeployed := 0
  totalVaulted := 0
  totalWinnings := 0

/-- A pool round without deployments. -/
def PoolRound.fresh (id : ℕ) (rentPayer : Pubkey) : PoolRound where
  id := id
  deployed _ := 0
  count _ := 0
  totalDeployed := 0
  rentPayer := rentPayer

/-- Check the accounts of a reset; returns the current round. -/
def checkResetAccounts (clock : Clock) (variant : ResetVariant) (a : ResetAccounts) (s : State) :
    Result Round := do
  checkSigner a.signerInfo
  match variant with
  | .lenient => checkAddress a.signerInfo crankBot
  | .permissionless => pure ()
  s.asConfig a.configInfo
  s.asSingleton .board a.boardInfo
  require (saturatingAddU64 s.board.endSlot s.config.getIntermissionSlots ≤ clock.slot)
    .invalidAccountData
  checkWritable a.feeCollectorInfo
  checkAddress a.feeCollectorInfo s.config.feeCollector
  let round ← s.load s.rounds a.roundInfo.key
  require (round.id = s.board.roundId) .invalidAccountData
  let nextId ← addU64 overflow s.board.roundId 1
  s.checkEmpty a.roundNextInfo
  checkWritable a.roundNextInfo
  checkSeeds a.roundNextInfo (.roundPda nextId)
  s.checkEmpty a.poolRoundNextInfo
  checkWritable a.poolRoundNextInfo
  checkSeeds a.poolRoundNextInfo (.poolRoundPda nextId)
  checkAddress a.mintInfo mintAddress
  checkWritable a.solMotherlodeInfo
  checkSeeds a.solMotherlodeInfo .solMotherlodePda
  s.asSingleton .solMotherlode a.solMotherlodeInfo
  checkWritable a.rushSolVaultInfo
  checkAddress a.rushSolVaultInfo rushSolVault
  s.asSingleton .treasury a.treasuryInfo
  let _ ← s.asAssociatedTokenAccount a.treasuryTokensInfo a.treasuryInfo.key a.mintInfo.key
  checkProgram a.systemProgram systemProgramId
  checkProgram a.tokenProgram splTokenId
  checkProgram a.godlProgram godlApiId
  checkAddress a.slotHashesSysvar slotHashesId
  return round

/-- Open the accounts of the next round. -/
def openNextRound (a : ResetAccounts) (nextId : ℕ) (s : State) : Result State := do
  let s ← s.createAccount a.roundNextInfo roundSize a.signerInfo
  let s := { s with rounds := s.rounds.put (Round.fresh nextId a.signerInfo.key) }
  let s ← s.createAccount a.poolRoundNextInfo poolRoundSize a.signerInfo
  return { s with poolRounds := s.poolRounds.put (PoolRound.fresh nextId a.signerInfo.key) }

/-- The finalized value of the round's entropy variable. -/
def readEntropy (env : Env) (a : ResetAccounts) (s : State) : Result Hash := do
  checkAddress a.varInfo s.config.varAddress
  let var ← fromOption (s.vars a.varInfo.key) .invalidAccountOwner
  require (var.authority = a.boardInfo.key) .invalidAccountData
  require (var.slotHash ≠ 0) .invalidAccountData
  require (var.seed ≠ 0) .invalidAccountData
  require (var.value ≠ 0) .invalidAccountData
  checkProgram a.entropyProgram env.entropyId
  return var.value

/-- The board moves on to the next round, whose clock the first deployment will start. -/
def advanceBoard (clock : Clock) (s : State) : Result State := do
  let roundId ← addU64 overflow s.board.roundId 1
  return { s with board := ⟨roundId, clock.slot, u64Max⟩ }

/-- Whether a candidate's interval on the winning square contains the sample. -/
def isWinner (round : Round) (candidate : Miner) (r : BitVec 64) (ws : Square) :
    Result Bool := do
  let sample := round.topMinerSample r ws
  let upper ← addU64 .invalidInstructionData (candidate.cumulative ws) (candidate.deployed ws)
  return candidate.cumulative ws ≤ sample ∧ sample < upper

/-- The crank bot's latch: a candidate that does not check out leaves the round solo, and
so does a missing account. -/
def latchLenient (a : ResetAccounts) (round : Round) (r : BitVec 64) (ws : Square) (s : State) :
    Result Pubkey :=
  if s.dataIsEmpty a.topMinerInfo.key = false ∧
      s.dataIsEmpty a.topMinerPoolMemberInfo.key = false then do
    let candidate ← s.load s.miners a.topMinerInfo.key
    require (candidate.roundId = round.id) .invalidAccountData
    let poolMember ← s.load s.poolMembers a.topMinerPoolMemberInfo.key
    require (poolMember.authority = candidate.authority) .invalidAccountData
    require (poolMember.roundId = round.id) .invalidAccountData
    if 0 < candidate.deployed ws ∧ 0 < poolMember.deployed ws then
      let winner ← isWinner round candidate r ws
      return if winner then poolAddress else round.topMiner
    else
      return round.topMiner
  else
    return round.topMiner

/-- The permissionless latch: the caller must supply the winner and its pool member
account; the latter decides. -/
def latchStrict (a : ResetAccounts) (round : Round) (r : BitVec 64) (ws : Square) (s : State) :
    Result Pubkey := do
  let candidate ← s.load s.miners a.topMinerInfo.key
  require (candidate.roundId = round.id) .invalidAccountData
  checkSeeds a.topMinerPoolMemberInfo (.poolMemberPda candidate.authority)
  let winner ← isWinner round candidate r ws
  require (0 < candidate.deployed ws ∧ winner = true) .invalidInstructionData
  if s.dataIsEmpty a.topMinerPoolMemberInfo.key then
    return round.topMiner
  else
    let poolMember ← s.load s.poolMembers a.topMinerPoolMemberInfo.key
    require (poolMember.authority = candidate.authority) .invalidAccountData
    return if poolMember.roundId = round.id ∧ 0 < poolMember.deployed ws then poolAddress
      else round.topMiner

/-- How the reward of the round will be paid: one out of two rounds splits it. -/
def latchTopMiner (variant : ResetVariant) (a : ResetAccounts) (round : Round) (r : BitVec 64)
    (ws : Square) (s : State) : Result Pubkey :=
  if Round.isSplitReward r then return splitAddress
  else match variant with
    | .lenient => latchLenient a round r ws s
    | .permissionless => latchStrict a round r ws s

/-- How much GODL the round mints: the block reward and the motherlode's, both cut off at
the maximum supply. -/
def mintAmounts (s : State) : Result (ℕ × ℕ) := do
  let mintAmount := min (maxSupply - s.mintSupply) s.config.godlPerRound
  let mintSupply ← addU64 overflow s.mintSupply mintAmount
  require (s.config.motherlodeDenominator ≠ 0) (.panic .divisionByZero)
  let motherlodeMintAmount :=
    min (maxSupply - mintSupply) (s.config.godlPerRound / s.config.motherlodeDenominator)
  let _ ← addU64 overflow mintAmount motherlodeMintAmount
  return (mintAmount, motherlodeMintAmount)

/-- Ask the GODL mint program for new GODL. -/
def mintRound (env : Env) (a : ResetAccounts) (amount : ℕ) (s : State) : Result State :=
  if 0 < amount then
    match a.mintAccounts with
    | [godlMintAuthorityInfo, godlMintProgram] => do
        require (env.isMintAuthority godlMintAuthorityInfo.key = true) .invalidAccountData
        checkProgram godlMintProgram env.godlMintId
        s.mintGodl a.treasuryTokensInfo.key amount
    | _ => throw .notEnoughAccountKeys
  else return s

/-- The admin fee, out of which the permissionless caller is rewarded. -/
def payAdminFee (variant : ResetVariant) (a : ResetAccounts) (totalAdminFee : ℕ) (s : State) :
    Result State :=
  match variant with
  | .lenient => s.send a.roundInfo.key a.feeCollectorInfo.key totalAdminFee
  | .permissionless => do
      let crankReward := min crankRewardLamports totalAdminFee
      let s ← s.send a.roundInfo.key a.feeCollectorInfo.key (totalAdminFee - crankReward)
      s.send a.roundInfo.key a.signerInfo.key crankReward

/-- Without a random number everything will be refunded. -/
def resetRefund (clock : Clock) (round : Round) (s : State) : Result State := do
  let round := { round with totalVaulted := 0, totalWinnings := 0, totalDeployed := 0 }
  let s := { s with rounds := s.rounds.put round }
  let s := s.programLog (.reset round.id s.board.startSlot s.board.endSlot u64Max
    Pubkey.default 0 0 0 0 0 0 clock.unixTimestamp)
  advanceBoard clock s

/-- Nobody deployed on the winning square: everything but the fees is vaulted. -/
def resetVault (clock : Clock) (variant : ResetVariant) (a : ResetAccounts) (round : Round)
    (ws : Square) (totalAdminFee solMotherlodeAmount : ℕ) (s : State) : Result State := do
  let afterAdmin ← subU64 overflow round.totalDeployed totalAdminFee
  let vaulted ← subU64 overflow afterAdmin solMotherlodeAmount
  let round := { round with totalVaulted := vaulted }
  let balance ← addU64 overflow s.treasury.balance vaulted
  let solMotherlode ← addU64 overflow s.solMotherlode.amount solMotherlodeAmount
  let s := { s with
    rounds := s.rounds.put round
    treasury := { s.treasury with balance := balance }
    solMotherlode := ⟨solMotherlode⟩ }
  let s := s.programLog (.reset round.id s.board.startSlot s.board.endSlot ws.val
    Pubkey.default 0 0 round.totalDeployed round.totalVaulted round.totalWinnings 0
    clock.unixTimestamp)
  let s ← advanceBoard clock s
  let s ← payAdminFee variant a totalAdminFee s
  let s ← s.send a.roundInfo.key a.solMotherlodeInfo.key solMotherlodeAmount
  s.send a.roundInfo.key a.treasuryInfo.key vaulted

/-- The winnings: what lies on the losing squares, less the fees and a tenth for the vault. -/
def splitWinnings (round : Round) (ws : Square) : Result (ℕ × ℕ × ℕ) := do
  let winnings ← round.calculateTotalWinnings ws
  let fees ← mulU64 .invalidInstructionData winnings (adminFeeBps + solMotherlodeBps)
  let winningsFees := fees / denominatorBps
  let winnings ← subU64 overflow winnings winningsFees
  let vaultAmount := winnings / 10
  let winnings ← subU64 .invalidInstructionData winnings vaultAmount
  return (winnings, vaultAmount, winningsFees)

/-- The sanity check of the reset: tracked outflows do not exceed what was deployed. -/
def checkOutflows (round : Round) (ws : Square) (winningsFees : ℕ) : Result Unit := do
  let out ← addU64 overflow round.totalVaulted round.totalWinnings
  let out ← addU64 overflow out (round.deployed ws)
  let out ← addU64 overflow out winningsFees
  require (out ≤ round.totalDeployed) (.panic .outflowsExceedDeployed)

/-- The motherlode that a hit moves from the treasury to the round; a tenth rolls over. -/
def payMotherlode (r : BitVec 64) (round : Round) (treasury : Treasury) : Round × Treasury :=
  if Round.didHitMotherlode r then
    ({ round with motherlode := treasury.motherlode - treasury.motherlode / 10 },
      { treasury with motherlode := treasury.motherlode / 10 })
  else (round, treasury)

/-- There are winners: latch the mode, mint the reward and vault a part of the winnings. -/
def resetWinners (clock : Clock) (env : Env) (variant : ResetVariant) (a : ResetAccounts)
    (round : Round) (r : BitVec 64) (ws : Square) (totalAdminFee solMotherlodeAmount : ℕ)
    (s : State) : Result State := do
  let (winnings, vaultAmount, winningsFees) ← splitWinnings round ws
  let round := { round with totalWinnings := winnings, totalVaulted := vaultAmount }
  let balance ← addU64 overflow s.treasury.balance vaultAmount
  checkOutflows round ws winningsFees
  let (mintAmount, motherlodeMintAmount) ← mintAmounts s
  let topMiner ← latchTopMiner variant a round r ws s
  let round := { round with topMinerReward := mintAmount, topMiner := topMiner }
  let (round, treasury) := payMotherlode r round { s.treasury with balance := balance }
  let motherlode ← addU64 overflow treasury.motherlode motherlodeMintAmount
  let s := { s with
    rounds := s.rounds.put round
    treasury := { treasury with motherlode := motherlode } }
  let s ← mintRound env a (mintAmount + motherlodeMintAmount) s
  let s ← s.send a.roundInfo.key a.solMotherlodeInfo.key solMotherlodeAmount
  let solMotherlode ← addU64 overflow s.solMotherlode.amount solMotherlodeAmount
  let s := { s with solMotherlode := ⟨solMotherlode⟩ }
  let s := s.programLog (.reset round.id s.board.startSlot s.board.endSlot ws.val round.topMiner
    (round.count ws) round.motherlode round.totalDeployed round.totalVaulted
    round.totalWinnings (mintAmount + motherlodeMintAmount) clock.unixTimestamp)
  let s ← advanceBoard clock s
  let s ← payAdminFee variant a totalAdminFee s
  s.send a.roundInfo.key a.treasuryInfo.key vaultAmount

/-- Settle the round, whose hash is known by now. -/
def settleRound (clock : Clock) (env : Env) (variant : ResetVariant) (a : ResetAccounts)
    (round : Round) (s : State) : Result State :=
  match round.rng with
  | none => resetRefund clock round s
  | some r => do
      let adminFee ← mulU64 .invalidInstructionData round.totalDeployed adminFeeBps
      let totalAdminFee := adminFee / denominatorBps
      let motherlodeFee ← mulU64 .invalidInstructionData round.totalDeployed solMotherlodeBps
      let solMotherlodeAmount := motherlodeFee / denominatorBps
      let ws := Round.winningSquare r
      if round.deployed ws = 0 then
        resetVault clock variant a round ws totalAdminFee solMotherlodeAmount s
      else
        resetWinners clock env variant a round r ws totalAdminFee solMotherlodeAmount s

/-- The common body of the reset instructions. -/
def resetBody (clock : Clock) (env : Env) (variant : ResetVariant) (a : ResetAccounts)
    (s : State) : Result State := do
  let round ← checkResetAccounts clock variant a s
  let s ← openNextRound a (s.board.roundId + 1) s
  let value ← readEntropy env a s
  settleRound clock env variant a { round with slotHash := value } s

/-- Reset the round; for the crank bot only. -/
def processReset (clock : Clock) (env : Env) (a : ResetAccounts) (s : State) : Result State :=
  resetBody clock env .lenient a s

/-- Reset the round; for anyone who supplies the winner. -/
def processResetPermissionless (clock : Clock) (env : Env) (a : ResetAccounts) (s : State) :
    Result State :=
  resetBody clock env .permissionless a s

end Godl
