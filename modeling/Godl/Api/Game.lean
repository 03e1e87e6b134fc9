import Godl.Api.Address
import Godl.Api.Consts
import Godl.Api.Error

/-!
# The accounts of the mining game

Rounds of twenty-five squares, the miners and pool members that deploy on them,
and the treasury their rewards are booked in.  Fields follow the account layouts;
reserved buffers, which nothing reads, are left out.

A hash is 256 bits, its first byte lowest.

## Main definitions

* `Board`, `Config`, `Round`, `PoolRound`, `PoolMember`, `Miner`, `AutomationV2`,
  `Referrer`, `Treasury`, `SolMotherlode` — the accounts.
* `Round.rng`, `Round.winningSquare`, `Round.topMinerSample` — what a round's hash decides.
* `Miner.updateRewards`, `Miner.claimGodl` — the lazy share in other miners' claim fees.
-/

namespace Godl

open Lib

/-- One of the twenty-five squares of the board. -/
abbrev Square := Fin 25

/-- All squares, in order. -/
abbrev squareList : List Square := List.finRange 25

/-- A 32-byte hash. -/
abbrev Hash := BitVec 256

/-- The time an instruction sees. -/
structure Clock where
  slot : ℕ
  unixTimestamp : ℤ
deriving DecidableEq

/-- The singleton that names the current round. -/
structure Board where
  roundId : ℕ
  startSlot : ℕ
  endSlot : ℕ
deriving DecidableEq, Inhabited

/-- The singleton with the protocol's settings. -/
structure Config where
  admin : Pubkey
  godlPerRound : ℕ
  buryAuthority : Pubkey
  feeCollector : Pubkey
  swapProgram : Pubkey
  varAddress : Pubkey
  motherlodeDenominator : ℕ
  roundSlots : ℕ
  intermissionSlots : ℕ
deriving DecidableEq, Inhabited

namespace Config

/-- Mining slots per round; zero means unset. -/
def getRoundSlots (c : Config) : ℕ :=
  if c.roundSlots = 0 then roundSlotsDefault else c.roundSlots

/-- Slots between a round's end and its earliest reset; zero means unset. -/
def getIntermissionSlots (c : Config) : ℕ :=
  if c.intermissionSlots = 0 then intermissionSlotsDefault else c.intermissionSlots

end Config

/-- One round of the game. -/
structure Round where
  id : ℕ
  deployed : Square → ℕ
  slotHash : Hash
  count : Square → ℕ
  expiresAt : ℕ
  motherlode : ℕ
  rentPayer : Pubkey
  topMiner : Pubkey
  topMinerReward : ℕ
  totalDeployed : ℕ
  totalVaulted : ℕ
  totalWinnings : ℕ
deriving DecidableEq

namespace Round

/-- The address of the round account. -/
def pda (r : Round) : Pubkey := .roundPda r.id

/-- The `i`-th 64-bit word of a hash. -/
def hashWord (h : Hash) (i : ℕ) : BitVec 64 := h.extractLsb' (64 * i) 64

/-- The random number of the round; a hash of zeros or of ones means there is none. -/
def rng (r : Round) : Option (BitVec 64) :=
  if r.slotHash = 0 ∨ r.slotHash = BitVec.allOnes 256 then none
  else some (hashWord r.slotHash 0 ^^^ hashWord r.slotHash 1 ^^^ hashWord r.slotHash 2 ^^^
    hashWord r.slotHash 3)

/-- The square that wins. -/
def winningSquare (rng : BitVec 64) : Square := ⟨rng.toNat % 25, Nat.mod_lt _ (by decide)⟩

/-- The point of the winning square's interval that picks the top miner. -/
def topMinerSample (r : Round) (rng : BitVec 64) (ws : Square) : ℕ :=
  if r.deployed ws = 0 then 0 else rng.reverse.toNat % r.deployed ws

/-- The amount deployed on all losing squares, added up in order. -/
def calculateTotalWinnings (r : Round) (ws : Square) : Result ℕ :=
  sumU64 overflow ((squareList.filter (· ≠ ws)).map r.deployed)

/-- One out of two rounds splits its reward. -/
def isSplitReward (rng : BitVec 64) : Bool :=
  let word (i : ℕ) : BitVec 16 := rng.reverse.extractLsb' (16 * i) 16
  (word 0 ^^^ word 1 ^^^ word 2 ^^^ word 3).toNat % 2 = 0

/-- One out of 625 rounds pays the motherlode. -/
def didHitMotherlode (rng : BitVec 64) : Bool := rng.reverse.toNat % 625 = 0

end Round

/-- What the pool deployed in one round. -/
structure PoolRound where
  id : ℕ
  deployed : Square → ℕ
  count : Square → ℕ
  totalDeployed : ℕ
  rentPayer : Pubkey
deriving DecidableEq

namespace PoolRound

/-- The address of the pool round account. -/
def pda (p : PoolRound) : Pubkey := .poolRoundPda p.id

/-- Add one deployment to the aggregates. -/
def recordDeploy (p : PoolRound) (square : Square) (amount : ℕ) (isNewMember : Bool) :
    PoolRound :=
  { p with
    deployed := Function.update p.deployed square (saturatingAddU64 (p.deployed square) amount)
    count := if isNewMember then
      Function.update p.count square (saturatingAddU64 (p.count square) 1) else p.count
    totalDeployed := saturatingAddU64 p.totalDeployed amount }

end PoolRound

/-- What one authority deployed through the pool. -/
structure PoolMember where
  authority : Pubkey
  roundId : ℕ
  deployed : Square → ℕ
  totalDeployed : ℕ
deriving DecidableEq

namespace PoolMember

/-- The address of the pool member account. -/
def pda (p : PoolMember) : Pubkey := .poolMemberPda p.authority

/-- Start over for a new round. -/
def resetForRound (p : PoolMember) (roundId : ℕ) : PoolMember :=
  { p with roundId := roundId, deployed := fun _ => 0, totalDeployed := 0 }

/-- Add one deployment. -/
def recordDeploy (p : PoolMember) (square : Square) (amount : ℕ) : PoolMember :=
  { p with
    deployed := Function.update p.deployed square (saturatingAddU64 (p.deployed square) amount)
    totalDeployed := saturatingAddU64 p.totalDeployed amount }

end PoolMember

/-- The singleton that books what the program owes. -/
structure Treasury where
  balance : ℕ
  motherlode : ℕ
  minerRewardsFactor : Numeric
  stakeRewardsFactor : Numeric
  totalStaked : ℕ
  totalUnclaimed : ℕ
  totalRefined : ℕ
deriving DecidableEq

/-- A player. -/
structure Miner where
  authority : Pubkey
  referrer : Pubkey
  deployed : Square → ℕ
  cumulative : Square → ℕ
  checkpointFee : ℕ
  checkpointId : ℕ
  lastClaimGodlAt : ℤ
  lastClaimSolAt : ℤ
  rewardsFactor : Numeric
  rewardsSol : ℕ
  rewardsGodl : ℕ
  refinedGodl : ℕ
  roundId : ℕ
  lifetimeDeployed : ℕ
  lifetimeRewardsSol : ℕ
  lifetimeRewardsGodl : ℕ
deriving DecidableEq

namespace Miner

/-- The address of the miner account. -/
def pda (m : Miner) : Pubkey := .minerPda m.authority

/-- The content of a freshly created miner account. -/
def zeroed : Miner where
  authority := Pubkey.default
  referrer := Pubkey.default
  deployed _ := 0
  cumulative _ := 0
  checkpointFee := 0
  checkpointId := 0
  lastClaimGodlAt := 0
  lastClaimSolAt := 0
  rewardsFactor := Fixed.zero
  rewardsSol := 0
  rewardsGodl := 0
  refinedGodl := 0
  roundId := 0
  lifetimeDeployed := 0
  lifetimeRewardsSol := 0
  lifetimeRewardsGodl := 0

/-- The referrer account, when there is one. -/
def referrerAccount (m : Miner) : Option Pubkey :=
  if m.referrer = Pubkey.default ∨ m.referrer = referrerLockedSentinel then none
  else some m.referrer

/-- Settle the miner's share in the claim fees distributed since the last update,
weighted by its unrefined GODL.  The factor seen last is overwritten even where
nothing accrued. -/
def updateRewards (m : Miner) (treasury : Treasury) : Result Miner := do
  if m.rewardsFactor < treasury.minerRewardsFactor then
    let accumulated := Fixed.sub treasury.minerRewardsFactor m.rewardsFactor
    let personal ← Fixed.mul overflow accumulated (Fixed.ofNat m.rewardsGodl)
    let personal ← Fixed.floor overflow personal
    let refinedGodl ← addU64 overflow m.refinedGodl personal
    let lifetime ← addU64 overflow m.lifetimeRewardsGodl personal
    return { m with
      refinedGodl := refinedGodl
      lifetimeRewardsGodl := lifetime
      rewardsFactor := treasury.minerRewardsFactor }
  else
    return { m with rewardsFactor := treasury.minerRewardsFactor }

/-- Take the miner's refined and unrefined GODL.  When other miners still hold
unrefined GODL, a tenth of the unrefined part stays behind as their fee. -/
def claimGodl (m : Miner) (clock : Clock) (treasury : Treasury) :
    Result (ℕ × Miner × Treasury) := do
  let m ← m.updateRewards treasury
  let amount ← addU64 overflow m.refinedGodl m.rewardsGodl
  let totalUnclaimed ← subU64 overflow treasury.totalUnclaimed m.rewardsGodl
  let totalRefined ← subU64 overflow treasury.totalRefined m.refinedGodl
  let t := { treasury with totalUnclaimed := totalUnclaimed, totalRefined := totalRefined }
  let m' := { m with refinedGodl := 0, rewardsGodl := 0, lastClaimGodlAt := clock.unixTimestamp }
  if 0 < totalUnclaimed then
    let fee := m.rewardsGodl / 10
    let amount ← subU64 overflow amount fee
    let share ← Fixed.ofFraction (.panic .divisionByZero) fee totalUnclaimed
    let factor ← Fixed.add overflow t.minerRewardsFactor share
    let totalRefined ← addU64 overflow totalRefined fee
    let lifetime ← subU64 overflow m'.lifetimeRewardsGodl fee
    return (amount, { m' with lifetimeRewardsGodl := lifetime },
      { t with minerRewardsFactor := factor, totalRefined := totalRefined })
  else
    return (amount, m', t)

/-- Take the miner's SOL. -/
def claimSol (m : Miner) (clock : Clock) : ℕ × Miner :=
  (m.rewardsSol, { m with rewardsSol := 0, lastClaimSolAt := clock.unixTimestamp })

end Miner

/-- How an automation picks its squares. -/
inductive AutomationV2Strategy
  | random
  | preferred
deriving DecidableEq

/-- A standing order to deploy, funded in advance. -/
structure AutomationV2 where
  amount : ℕ
  authority : Pubkey
  balance : ℕ
  executor : Pubkey
  fee : ℕ
  config : ℕ
  mask : ℕ
deriving DecidableEq

namespace AutomationV2

/-- The address of the automation account. -/
def pda (a : AutomationV2) : Pubkey := .automationV2Pda a.authority

/-- An 8-bit slot of the config. -/
def configByte (config index : ℕ) : ℕ := config / 2 ^ (8 * index) % 256

/-- Write an 8-bit slot of the config. -/
def setConfigByte (config index value : ℕ) : ℕ :=
  config - configByte config index * 2 ^ (8 * index) + value * 2 ^ (8 * index)

/-- The strategy in byte 0; any byte but 0 and 1 aborts. -/
def strategyFromConfig (config : ℕ) : Result AutomationV2Strategy :=
  match configByte config 0 with
  | 0 => .ok .random
  | 1 => .ok .preferred
  | _ => .error (.panic .unwrap)

/-- The number of a strategy. -/
def strategyByte : AutomationV2Strategy → ℕ
  | .random => 0
  | .preferred => 1

/-- The claim-and-fund flag in byte 1. -/
def getClaimAndFund (a : AutomationV2) : Bool := configByte a.config 1 ≠ 0

/-- The pool flag in byte 2. -/
def getIsPooled (a : AutomationV2) : Bool := configByte a.config 2 ≠ 0

/-- The content of a freshly created automation account. -/
def zeroed : AutomationV2 where
  amount := 0
  authority := Pubkey.default
  balance := 0
  executor := Pubkey.default
  fee := 0
  config := 0
  mask := 0

end AutomationV2

/-- Someone who referred miners and shares in their claims. -/
structure Referrer where
  authority : Pubkey
  rewardsSol : ℕ
  rewardsGodl : ℕ
  cumulativeRewardsSol : ℕ
  cumulativeRewardsGodl : ℕ
  referrerCount : ℕ
deriving DecidableEq

/-- The address of the referrer account. -/
def Referrer.pda (r : Referrer) : Pubkey := .referrerPda r.authority

/-- The singleton with the SOL set aside for gold rewards. -/
structure SolMotherlode where
  amount : ℕ
deriving DecidableEq

/-- Split an amount leaving the SOL motherlode into the rush vault's share and the
gold share; `none` on overflow. -/
def SolMotherlode.splitPayout (amount : ℕ) : Option (ℕ × ℕ) :=
  if amount * rushSolMotherlodeBps < u64Bound then
    some (amount * rushSolMotherlodeBps / denominatorBps,
      amount - amount * rushSolMotherlodeBps / denominatorBps)
  else none

end Godl
