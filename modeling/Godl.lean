import Godl.Program.Processor
import Godl.Proof.BuryHandlers
import Godl.Proof.Effect
import Godl.Proof.CheckpointHandler
import Godl.Proof.DeployHandler
import Godl.Proof.ResetHandler
import Godl.Proof.CloseHandler
import Godl.Lib.Run
import Godl.Lib.Returns
import Godl.Lib.Tiling
import Godl.Script
import Godl.Proof.SyncPanics
import Godl.Proof.GameSteps
import Godl.Proof.RoundFunds
import Godl.Proof.CrankReset
import Godl.Theorems.Stakes
import Godl.Theorems.Ledger
import Godl.Theorems.MintCap
import Godl.Theorems.Gold
import Godl.Theorems.Wagers
import Godl.Theorems.Yield
import Godl.Theorems.GoldYield
import Godl.Theorems.StakeTerms
import Godl.Theorems.Rounds
import Godl.Theorems.RoundClock
import Godl.Proof.ResetTiming
import Godl.Theorems.ClaimWindow
import Godl.Theorems.Intervals
import Godl.Theorems.ResetCallers
import Godl.Theorems.CrankReset
import Godl.Theorems.RoundAccounts
import Godl.Proof.PoolBets
import Godl.Proof.BetBook
import Godl.Proof.PoolBook
import Godl.Theorems.PoolBook
import Godl.Theorems.PlayerCounts
import Godl.Lib.Newton
import Godl.Lib.Passes
import Godl.Proof.StakeWeight
import Godl.Proof.Migration
import Godl.Theorems.StakeWeight
import Godl.Proof.Registry
import Godl.Theorems.MintConfig
import Godl.Proof.Referrals
import Godl.Theorems.Referrals
import Godl.Proof.AutomatedDeploy
import Godl.Theorems.AutomatedDeploy
import Godl.Theorems.BuryTokens
import Godl.Proof.Merge
import Godl.Theorems.Merge
import Godl.Proof.Headroom
import Godl.Theorems.Headroom
import Godl.Lib.Selection
import Godl.Theorems.RandomMask
import Godl.Proof.Dues
import Godl.Proof.SoundHandlers
import Godl.Lib.Coverage
import Godl.Proof.Covers
import Godl.Proof.BackedGame
import Godl.Proof.BackedHandlers
import Godl.Theorems.SolLedgers
import Godl.Theorems.ResetArithmetic
import Godl.Theorems.Migration
import Godl.Proof.Payouts
import Godl.Theorems.Solvency
import Godl.Lib.Lockstep
import Godl.Proof.LegacyLayout
import Godl.Theorems.LegacyLayout
import Godl.Policy
import Godl.Proof.PolicyOps
import Godl.Proof.PolicyStakes
import Godl.Proof.PolicyHandlers
import Godl.Proof.PolicyGame
import Godl.Proof.Policy
import Godl.Theorems.Custody
import Godl.Theorems.Accrued
import Godl.Theorems.Privileges
import Godl.Theorems.Conservation
import Godl.Lib.Flow
import Godl.Proof.Untouched
import Godl.Proof.Vaults
import Godl.Proof.VaultHandlers
import Godl.Theorems.Vaults
import Godl.Theorems.Locks
import Godl.Theorems.LockSafety
import Godl.Proof.StandingOrders
import Godl.Theorems.ExecutorFee
import Godl.Proof.GodlRewards
import Godl.Proof.Change
import Godl.Proof.CheckpointPlan
import Godl.Proof.CheckpointOrder
import Godl.Theorems.CheckpointCallers
import Godl.Theorems.CheckpointOrder
import Godl.Theorems.RoundReward
