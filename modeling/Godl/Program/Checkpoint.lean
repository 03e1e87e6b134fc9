import Godl.Program.Open

/-!
# Checkpointing a miner

A checkpoint credits a miner with what it won in the last round it played, once that
round is reset and before it expires.  Anyone may sign it.  The two checkpoint
instructions share one body; the newer one also settles the miner's gold rewards.

## Main definitions

* `winnerSol`, `winnerGodl`, `motherlodeShare` — the parts of a winner's reward.
* `checkpointRewards` — the reward, by the outcome of the round.
* `checkpointMiner` — whether a miner is credited or forfeits.
* `processCheckpoint`, `processCheckpointWithMinerExtended` — the instructions.
-/

namespace Godl

open Lib

/-- The accounts that both checkpoint instructions take. -/
structure CheckpointAccounts where
  signerInfo : AccountInfo
  boardInfo : AccountInfo
  minerInfo : AccountInfo
  roundInfo : AccountInfo
  treasuryInfo : AccountInfo
  poolRoundInfo : AccountInfo
  poolMemberInfo : AccountInfo
  systemProgram : AccountInfo

/-- `reward * part / whole`, computed in 128 bits and cast back to 64. -/
def proRata (reward part whole : ℕ) : ℕ := reward * part / whole % u64Bound

/-- What a winning deployment pays back: itself less the fee, which is at least one
lamport, and its share of the winnings. -/
def winnerSol (round : Round) (miner : Miner) (ws : Square) : Result ℕ := do
  let deployment := miner.deployed ws
  let fee ← mulU64 .invalidInstructionData deployment (adminFeeBps + solMotherlodeBps)
  let fee := max (fee / denominatorBps) 1
  let back ← subU64 .invalidInstructionData deployment fee
  addU64 overflow back (proRata round.totalWinnings deployment (round.deployed ws))

/-- The pool share of a member, read from the pool round account the caller passed. -/
def poolShare (a : CheckpointAccounts) (round : Round) (miner : Miner)
    (poolMember : Option PoolMember) (ws : Square) (s : State) : Result ℕ :=
  match poolMember with
  | none => return 0
  | some poolMember =>
      if poolMember.roundId = miner.roundId ∧ 0 < poolMember.deployed ws ∧
          s.dataIsEmpty a.poolRoundInfo.key = false then do
        checkWritable a.poolRoundInfo
        checkSeeds a.poolRoundInfo (.poolRoundPda round.id)
        let poolRound ← s.load s.poolRounds a.poolRoundInfo.key
        require (poolRound.id = round.id) .invalidAccountData
        if 0 < poolRound.deployed ws then
          return proRata round.topMinerReward (poolMember.deployed ws) (poolRound.deployed ws)
        else
          return 0
      else
        return 0

/-- Whether the sample of the round falls into the miner's interval. -/
def isTopMiner (round : Round) (miner : Miner) (r : BitVec 64) (ws : Square) : Result Bool := do
  let sample := round.topMinerSample r ws
  if miner.cumulative ws ≤ sample then
    let upper ← addU64 overflow (miner.cumulative ws) (miner.deployed ws)
    return sample < upper
  else
    return false

/-- The GODL of a winner before the motherlode, by the mode that the reset latched: split
between all winners, shared by the pool, or paid to the top miner, who is then recorded. -/
def winnerGodl (a : CheckpointAccounts) (round : Round) (miner : Miner)
    (poolMember : Option PoolMember) (r : BitVec 64) (ws : Square) (s : State) :
    Result (ℕ × Round) := do
  if round.topMiner = splitAddress then
    return (proRata round.topMinerReward (miner.deployed ws) (round.deployed ws), round)
  else if round.topMiner = poolAddress then
    let share ← poolShare a round miner poolMember ws s
    return (share, round)
  else
    let top ← isTopMiner round miner r ws
    if top then return (round.topMinerReward, { round with topMiner := miner.authority })
    else return (0, round)

/-- A winner's share of the motherlode. -/
def motherlodeShare (round : Round) (miner : Miner) (ws : Square) : ℕ :=
  if 0 < round.motherlode then
    proRata round.motherlode (miner.deployed ws) (round.deployed ws)
  else 0

/-- What a miner gets out of its round, in SOL and GODL. -/
def checkpointRewards (a : CheckpointAccounts) (round : Round) (miner : Miner)
    (poolMember : Option PoolMember) (s : State) : Result (ℕ × ℕ × Round) :=
  match round.rng with
  | some r => do
      let ws := Round.winningSquare r
      if 0 < miner.deployed ws then
        require (miner.deployed ws ≤ round.deployed ws) (.panic .invalidRoundDeployedAmount)
        let rewardsSol ← winnerSol round miner ws
        let (godl, round) ← winnerGodl a round miner poolMember r ws s
        let rewardsGodl ← addU64 overflow godl (motherlodeShare round miner ws)
        return (rewardsSol, rewardsGodl, round)
      else
        return (0, 0, round)
  | none => do
      -- The reset found no random number and set the total to zero: all SOL goes back.
      require (round.totalDeployed = 0) (.panic .roundTotalDeployedNotZero)
      let refund ← sumU64 overflow (squareList.map miner.deployed)
      return (refund, 0, round)

/-- The pool member account, when the caller passed one that exists. -/
def loadPoolMember (a : CheckpointAccounts) (miner : Miner) (s : State) :
    Result (Option PoolMember) :=
  if s.dataIsEmpty a.poolMemberInfo.key then return none
  else do
    checkWritable a.poolMemberInfo
    checkSeeds a.poolMemberInfo (.poolMemberPda miner.authority)
    let poolMember ← s.load s.poolMembers a.poolMemberInfo.key
    require (poolMember.authority = miner.authority) .invalidAccountData
    return some poolMember

/-- Settle the miner's gold before `rewardsGodl` is credited; the extended account has to
exist as soon as there is unrefined GODL. -/
def settleGold (gold : Option (AccountInfo × AccountInfo)) (signerInfo : AccountInfo)
    (miner : Miner) (rewardsGodl : ℕ) (s : State) : Result State :=
  match gold with
  | none => return s
  | some (_, minerExtendedInfo) => do
      let (extended, s) ←
        loadOrCreateMinerExtended minerExtendedInfo miner.authority signerInfo false s
      require (extended.isSome = true ∨ (miner.rewardsGodl = 0 ∧ rewardsGodl = 0))
        (.custom .minerExtendedMissing)
      syncGoldRewards extended miner s

/-- The late checkpointer's fee: within the last twelve hours before the round expires it
is the fee the miner set aside. -/
def botFee (clock : Clock) (round : Round) (miner : Miner) : Result (ℕ × Miner) := do
  let from_ ← subU64 overflow round.expiresAt twelveHoursSlots
  if from_ ≤ clock.slot then return (miner.checkpointFee, { miner with checkpointFee := 0 })
  else return (0, miner)

/-- Book the rewards with the miner and the treasury. -/
def creditMiner (round : Round) (miner : Miner) (rewardsSol rewardsGodl : ℕ) (s : State) :
    Result State := do
  let godl ← addU64 overflow miner.rewardsGodl rewardsGodl
  let lifetimeGodl ← addU64 overflow miner.lifetimeRewardsGodl rewardsGodl
  let sol ← addU64 overflow miner.rewardsSol rewardsSol
  let lifetimeSol ← addU64 overflow miner.lifetimeRewardsSol rewardsSol
  let totalUnclaimed ← addU64 overflow s.treasury.totalUnclaimed rewardsGodl
  return { s with
    rounds := s.rounds.put round
    miners := s.miners.put { miner with
      checkpointId := round.id
      rewardsGodl := godl
      lifetimeRewardsGodl := lifetimeGodl
      rewardsSol := sol
      lifetimeRewardsSol := lifetimeSol }
    treasury := { s.treasury with totalUnclaimed := totalUnclaimed } }

/-- Pay the SOL out of the round and the fee out of the miner; what is left must cover
the miner's rent, fee and rewards. -/
def payCheckpoint (a : CheckpointAccounts) (miner : Miner) (rewardsSol fee : ℕ) (s : State) :
    Result State := do
  let s ← if 0 < rewardsSol then s.send a.roundInfo.key a.minerInfo.key rewardsSol else pure s
  let s ← if 0 < fee then s.send a.minerInfo.key a.signerInfo.key fee else pure s
  require (minimumBalance minerSize + miner.checkpointFee + (miner.rewardsSol + rewardsSol) ≤
    s.lamports a.minerInfo.key) (.panic .minerInsufficientFunds)
  return s

/-- Credit the miner with its reward in a round that is reset and not expired. -/
def creditRound (clock : Clock) (a : CheckpointAccounts)
    (gold : Option (AccountInfo × AccountInfo)) (round : Round) (miner : Miner)
    (poolMember : Option PoolMember) (s : State) : Result State := do
  let (fee, miner) ← botFee clock round miner
  let (rewardsSol, rewardsGodl, round) ← checkpointRewards a round miner poolMember s
  let miner ← miner.updateRewards s.treasury
  let s ← settleGold gold a.signerInfo miner rewardsGodl s
  let s ← creditMiner round miner rewardsSol rewardsGodl s
  payCheckpoint a miner rewardsSol fee s

/-- The miner forfeits its round. -/
def forfeit (miner : Miner) (s : State) : State :=
  { s with miners := s.miners.put { miner with checkpointId := miner.roundId } }

/-- Settle the last round of a miner, if there is something to settle and the round is reset:
it is forfeited when it is closed or expired, and credited otherwise. -/
def checkpointMiner (clock : Clock) (a : CheckpointAccounts)
    (gold : Option (AccountInfo × AccountInfo)) (miner : Miner) (s : State) : Result State := do
  if miner.checkpointId = miner.roundId then
    return s
  else if s.dataIsEmpty a.roundInfo.key then
    checkSeeds a.roundInfo (.roundPda miner.roundId)
    return forfeit miner s
  else
    let round ← s.load s.rounds a.roundInfo.key
    if round.id = s.board.roundId ∨ round.id ≠ miner.roundId ∨ round.slotHash = 0 then
      return s
    else
      let poolMember ← loadPoolMember a miner s
      if round.expiresAt ≤ clock.slot then
        return forfeit miner s
      else
        creditRound clock a gold round miner poolMember s

/-- The common body of the checkpoint instructions. -/
def checkpointBody (clock : Clock) (a : CheckpointAccounts)
    (gold : Option (AccountInfo × AccountInfo)) (s : State) : Result State := do
  checkSigner a.signerInfo
  s.asSingleton .board a.boardInfo
  let miner ← s.load s.miners a.minerInfo.key
  s.asSingleton .treasury a.treasuryInfo
  checkProgram a.systemProgram systemProgramId
  match gold with
  | some (goldVaultInfo, minerExtendedInfo) => do
      checkGoldVault goldVaultInfo s
      checkSeeds minerExtendedInfo (.minerExtendedPda miner.authority)
  | none => pure ()
  checkpointMiner clock a gold miner s

/-- Checkpoint a miner, in the layout without gold accounts. -/
def processCheckpoint (clock : Clock) (a : CheckpointAccounts) (s : State) : Result State := do
  require (clock.unixTimestamp < legacyInstructionExpiryTs) (.custom .legacyCheckpointExpired)
  checkpointBody clock a none s

/-- Checkpoint a miner and settle its gold rewards. -/
def processCheckpointWithMinerExtended (clock : Clock) (a : CheckpointAccounts)
    (goldVaultInfo minerExtendedInfo : AccountInfo) (s : State) : Result State :=
  checkpointBody clock a (some (goldVaultInfo, minerExtendedInfo)) s

end Godl
