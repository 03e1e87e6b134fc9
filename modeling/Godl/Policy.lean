import Godl.Program.Processor
import Mathlib.Logic.Relation

/-!
# What a call may do

The policy of the program, apart from how its instructions are written: a call is a sequence of
acts, and each act that takes something away needs a signature.  Lamports leave the wallets of
signers and the accounts of the program; tokens leave the accounts of signers and those that
the program keeps, a user's own ones only when the user signs; a record of a user is written
when the user signs, or the executor that the user named, or when the user loses nothing by it.

## Main definitions

* `Right` — what an instruction may do.
* `signers accounts` — who signed a call.
* `Spends signs R owner` — who may spend the tokens of `owner`.
* `Act signs R` — one act.
* `Acts signs R` — acts in a row.
* `Asset`, `State.holding` — what users hold.
* `Asset.Authorized` — whether those who signed may take it away.
* `GodlInstruction.May` — the rights of each instruction.
-/

namespace Godl

open Lib

/-- What an instruction may do besides moving funds and keeping the program's books. -/
inductive Right
  | swap
  | mint
  | burn
  | config
  | rounds
  | miners
  | automations
  | orders
  | referrals
  | stakes
  | vaults
  | otc
deriving DecidableEq

/-- The keys that signed a call. -/
def signers (accounts : List AccountInfo) (k : Pubkey) : Prop :=
  ∃ info ∈ accounts, info.isSigner = true ∧ info.key = k

/-- Whose tokens may be spent: those of signers, those in vaults of signers, and those that the
program itself keeps. -/
inductive Spends (signs : Pubkey → Prop) (R : Right → Prop) : Pubkey → Prop
  | signer {k : Pubkey} (h : signs k) : Spends signs R k
  | stake {k : Pubkey} (hmay : R .stakes) (h : signs k) : Spends signs R (.stakePda k)
  | stakeV2 {k : Pubkey} {id : ℕ} (hmay : R .vaults) (h : signs k) :
      Spends signs R (.stakeV2Pda k id)
  | referrer {k : Pubkey} (hmay : R .referrals) (h : signs k) :
      Spends signs R (.referrerPda k)
  | treasury : Spends signs R .treasuryPda
  | otcTreasury (hmay : R .otc) : Spends signs R .otcTreasuryPda
  | goldVault : Spends signs R .goldVaultPda

/-- Whose tokens may be spent with some rights. -/
abbrev MaySpend (signs : Pubkey → Prop) (owner : Pubkey) : Prop :=
  Spends signs (fun _ => True) owner

/-- A token account of the treasury or of the gold vault, where swaps take place. -/
def IsSwapAccount (k : Pubkey) : Prop :=
  ∃ mint, k = .associatedTokenAddress .treasuryPda mint ∨
    k = .associatedTokenAddress .goldVaultPda mint

/-- An executor that the user named for its automation signed. -/
def Executes (signs : Pubkey → Prop) (s : State) (user : Pubkey) : Prop :=
  ∃ a, s.automations.get (.automationV2Pda user) = some a ∧ signs a.executor

/-- The user of an automation signed, or its executor, and only its balance changes. -/
def AutomationRuns (signs : Pubkey → Prop) (s : State) (a : AutomationV2) : Prop :=
  ∃ old balance, s.automations.get a.pda = some old ∧
    (signs old.authority ∨ signs old.executor) ∧ a = { old with balance := balance }

/-- The miner loses no SOL and no GODL. -/
def MinerGrows (s : State) (m : Miner) : Prop :=
  s.miners.view 0 Miner.rewardsSol m.pda ≤ m.rewardsSol ∧
    s.miners.view 0 (fun m => m.rewardsGodl + m.refinedGodl) m.pda ≤ m.rewardsGodl + m.refinedGodl

/-- The executor of an automation that may claim for its miner signed, and the miner loses no
GODL. -/
def MinerSwept (signs : Pubkey → Prop) (s : State) (m : Miner) : Prop :=
  (∃ a, s.automations.get (.automationV2Pda m.authority) = some a ∧ signs a.executor ∧
    a.getClaimAndFund = true) ∧
    s.miners.view 0 (fun m => m.rewardsGodl + m.refinedGodl) m.pda ≤ m.rewardsGodl + m.refinedGodl

/-- The referrer loses no SOL and no GODL. -/
def ReferrerGrows (s : State) (r : Referrer) : Prop :=
  s.referrers.view 0 Referrer.rewardsSol r.pda ≤ r.rewardsSol ∧
    s.referrers.view 0 Referrer.rewardsGodl r.pda ≤ r.rewardsGodl

/-- The owner of the address of a v2 stake signed. -/
def OwnsStake (signs : Pubkey → Prop) (k : Pubkey) : Prop :=
  ∃ user id, k = .stakeV2Pda user id ∧ signs user

/-- A stake keeps its executor, and its rewards gain what it is credited with. -/
structure StakeV2.Earns (x x' : StakeV2) : Prop where
  executor : x'.executor = x.executor
  rewards : x.rewards ≤ x'.rewards
  lifetimeRewards : x'.rewards + x.lifetimeRewards = x.rewards + x'.lifetimeRewards

/-- A v2 stake is written without a loss for its owner: its balance falls at most to what its
vault holds, and its rewards gain what it is credited with unless its executor signed. -/
def StakeKept (signs : Pubkey → Prop) (s : State) (a : StakeV2Account) : Prop :=
  ∃ old, s.stakesV2.get a.address = some old ∧ a.stake.pda = old.stake.pda ∧
    min old.stake.balance (s.tokensAt (.associatedTokenAddress a.address mintAddress)) ≤
      a.stake.balance ∧
    (old.stake.Earns a.stake ∨ signs old.stake.executor ∨ signs old.stake.authority)

/-- One act of a call that the keys in `signs` signed, with the rights in `R`. -/
inductive Act (signs : Pubkey → Prop) (R : Right → Prop) (s : State) : State → Prop
  /-- Lamports leave a signer or an account of the program. -/
  | move {source : Pubkey} (dest : Pubkey) {n : ℕ}
      (hsource : signs source ∨ source.isKeypair = false ∨ (s.stakesV2.get source).isSome = true)
      (hn : n ≤ s.lamports source) : Act signs R s (s.moveLamports source dest n)
  /-- Tokens of one mint leave an account whose owner may spend them. -/
  | transfer {owner dest mint : Pubkey} {n : ℕ} {s' : State} (howner : Spends signs R owner)
      (hok : s.transferTokens (.associatedTokenAddress owner mint)
        (.associatedTokenAddress dest mint) n = .ok s') : Act signs R s s'
  /-- The treasury burns GODL. -/
  | burn {n : ℕ} {s' : State} (hmay : R .burn)
      (hok : s.burnTokens (.associatedTokenAddress .treasuryPda mintAddress) n = .ok s') :
      Act signs R s s'
  /-- GODL is minted for the treasury. -/
  | mint {n : ℕ} {s' : State} (hmay : R .mint)
      (hok : s.mintGodl (.associatedTokenAddress .treasuryPda mintAddress) n = .ok s') :
      Act signs R s s'
  /-- An empty token account is opened. -/
  | openTokens {k : Pubkey} (hnone : s.tokens k = none) :
      Act signs R s { s with tokens := Function.update s.tokens k (some 0) }
  /-- An empty token account is closed. -/
  | closeTokens {k : Pubkey} (hzero : s.tokens k = some 0) :
      Act signs R s { s with tokens := Function.update s.tokens k none }
  /-- The bury authority swaps what the treasury or the gold vault holds. -/
  | swap {l : Pubkey → ℕ} {tok : Pubkey → Option ℕ} (hmay : R .swap)
      (hsign : signs s.config.buryAuthority)
      (hl : ∀ k, ¬ IsSwapAccount k → l k = s.lamports k)
      (htok : ∀ k, ¬ IsSwapAccount k → tok k = s.tokens k) :
      Act signs R s { s with lamports := l, tokens := tok }
  /-- The game goes on. -/
  | game (hmay : R .rounds) (r : Store Pubkey Round Round.pda)
      (p : Store Pubkey PoolRound PoolRound.pda) (b : Board) (v : Pubkey → Option Var) :
      Act signs R s { s with rounds := r, poolRounds := p, board := b, vars := v }
  /-- Something is logged. -/
  | log (e : Event) : Act signs R s (s.programLog e)
  /-- The program's own books are written. -/
  | books (t : Treasury) (m : SolMotherlode) (g : GoldVault) :
      Act signs R s { s with treasury := t, solMotherlode := m, goldVault := g }
  /-- The books of the OTC desk are written. -/
  | otcBooks (hmay : R .otc) (o : OtcTreasury) : Act signs R s { s with otcTreasury := o }
  /-- A singleton is opened. -/
  | openSingleton (w : Singleton) :
      Act signs R s { s with opened := Function.update s.opened w true }
  /-- The admin changes the config, or the deployer sets it up. -/
  | config (hmay : R .config) (c : Config) (resized : Bool)
      (hsign : signs s.config.admin ∨ (s.opened .config = false ∧ signs deployerAddress)) :
      Act signs R s { s with config := c, configResized := resized }
  | miner (hmay : R .miners) (m : Miner)
      (h : signs m.authority ∨ MinerSwept signs s m ∨ MinerGrows s m) :
      Act signs R s { s with miners := s.miners.put m }
  | minerExtended (hmay : R .miners) (e : MinerExtended)
      (h : signs e.authority ∨
        s.minersExtended.view 0 MinerExtended.xautRewards e.pda ≤ e.xautRewards) :
      Act signs R s { s with minersExtended := s.minersExtended.put e }
  | poolMember (hmay : R .miners) (p : PoolMember)
      (h : signs p.authority ∨ Executes signs s p.authority) :
      Act signs R s { s with poolMembers := s.poolMembers.put p }
  | automation (hmay : R .automations) (a : AutomationV2)
      (h : (R .orders ∧ signs a.authority) ∨ AutomationRuns signs s a) :
      Act signs R s { s with automations := s.automations.put a }
  | closeAutomation (hmay : R .automations) {user : Pubkey}
      (h : signs user ∨ Executes signs s user) :
      Act signs R s { s with automations := s.automations.erase (.automationV2Pda user) }
  | referrer (hmay : R .referrals) (r : Referrer) (h : signs r.authority ∨ ReferrerGrows s r) :
      Act signs R s { s with referrers := s.referrers.put r }
  | stake (hmay : R .stakes) (x : Stake) (h : signs x.authority) :
      Act signs R s { s with stakes := s.stakes.put x }
  | stakeV2 (hmay : R .stakes) (a : StakeV2Account)
      (h : OwnsStake signs a.address ∨ StakeKept signs s a) :
      Act signs R s { s with stakesV2 := s.stakesV2.put a }
  /-- The owner closes a v2 stake, or the admin sweeps an empty one that is misplaced. -/
  | closeStakeV2 (hmay : R .stakes) {k : Pubkey}
      (h : OwnsStake signs k ∨ (signs s.config.admin ∧
        ∃ a, s.stakesV2.get k = some a ∧ a.stake.balance = 0 ∧ k ≠ a.stake.pda)) :
      Act signs R s { s with stakesV2 := s.stakesV2.erase k }
  | otcUser (hmay : R .otc) (o : OtcUser) (h : signs o.authority) :
      Act signs R s { s with otcUsers := s.otcUsers.put o }
  /-- An NFT leaves its owner, or the stake that its owner put it into. -/
  | asset {asset owner : Pubkey} (newOwner : Pubkey)
      (howner : signs owner ∨ R .stakes ∧ OwnsStake signs owner)
      (hasset : s.assets asset = some owner) :
      Act signs R s { s with assets := Function.update s.assets asset (some newOwner) }
  /-- The admin hands the mint authority over. -/
  | mintAuthority (hmay : R .config) (k : Pubkey) (hsign : signs s.config.admin) :
      Act signs R s { s with mintAuthority := k }

/-- Acts in a row. -/
abbrev Acts (signs : Pubkey → Prop) (R : Right → Prop) : State → State → Prop :=
  Relation.ReflTransGen (Act signs R)

/-- What an owner holds of one mint. -/
def State.tokensOf (s : State) (mint owner : Pubkey) : ℕ :=
  s.tokensAt (.associatedTokenAddress owner mint)

/-- Something that a user holds. -/
inductive Asset
  | lamports (user : Pubkey)
  | tokens (owner mint : Pubkey)
  | minedSol (user : Pubkey)
  | minedGodl (user : Pubkey)
  | gold (user : Pubkey)
  | automation (user : Pubkey)
  | referralSol (user : Pubkey)
  | referralGodl (user : Pubkey)
  | stake (user : Pubkey)
  | yield (user : Pubkey)
  | stakeV2 (user : Pubkey) (id : ℕ)
  | yieldV2 (user : Pubkey) (id : ℕ)

/-- How much of an asset there is.  A v2 stake is worth what its vault can pay, and only a stake
at its own address yields. -/
def State.holding (s : State) : Asset → ℕ
  | .lamports user => s.lamports user
  | .tokens owner mint => s.tokensOf mint owner
  | .minedSol user => s.miners.view 0 Miner.rewardsSol (.minerPda user)
  | .minedGodl user => s.miners.view 0 (fun m => m.rewardsGodl + m.refinedGodl) (.minerPda user)
  | .gold user => s.minersExtended.view 0 MinerExtended.xautRewards (.minerExtendedPda user)
  | .automation user => s.automations.view 0 AutomationV2.balance (.automationV2Pda user)
  | .referralSol user => s.referrers.view 0 Referrer.rewardsSol (.referrerPda user)
  | .referralGodl user => s.referrers.view 0 Referrer.rewardsGodl (.referrerPda user)
  | .stake user => s.stakes.view 0 Stake.balance (.stakePda user)
  | .yield user => s.stakes.view 0 Stake.rewards (.stakePda user)
  | .stakeV2 user id =>
      min (s.stakesV2.view 0 (fun a => a.stake.balance) (.stakeV2Pda user id))
        (s.tokensOf mintAddress (.stakeV2Pda user id))
  | .yieldV2 user id =>
      s.stakesV2.view 0 (fun a => if a.stake.pda = a.address then a.stake.rewards else 0)
        (.stakeV2Pda user id)

/-- Whether those who signed may take away from an asset.  Mostly its owner must sign; an
executor signs for what its user put in its hands, and the program for its own accounts. -/
def Asset.Authorized (signs : Pubkey → Prop) (s : State) : Asset → Prop
  | .lamports user => signs user ∨ user.isKeypair = false ∨ (s.stakesV2.get user).isSome = true
  | .tokens owner _ => MaySpend signs owner
  | .minedSol user => signs user ∨ ∃ a, s.automations.get (.automationV2Pda user) = some a ∧
      signs a.executor ∧ a.getClaimAndFund = true
  | .automation user => signs user ∨ Executes signs s user
  | .yieldV2 user id => signs user ∨ ∃ a, s.stakesV2.get (.stakeV2Pda user id) = some a ∧
      a.stake.pda = a.address ∧ signs a.stake.executor
  | .minedGodl user | .gold user | .referralSol user | .referralGodl user | .stake user
  | .yield user | .stakeV2 user _ => signs user

/-- The rights of an instruction. -/
def GodlInstruction.May (ix : GodlInstruction) : Right → Prop
  | .swap => match ix with
    | .bury | .buyGold _ => True
    | _ => False
  | .mint => match ix with
    | .reset | .resetPermissionless => True
    | _ => False
  | .burn => match ix with
    | .compoundYieldV2 _ | .bury | .buryTokens _ => True
    | _ => False
  | .config => match ix with
    | .initializeProgram .. | .setAdmin _ | .setFeeCollector _ | .setSwapProgram
    | .setVarAddress | .setMotherlodeDenominator _ | .setGodlPerRound _
    | .updateProtocolConfig .. | .transferMintAuthority => True
    | _ => False
  | .rounds => match ix with
    | .initializeProgram .. | .checkpoint | .checkpointWithMinerExtended | .deploy _
    | .deployWithMinerExtended _ | .close | .reset | .resetPermissionless | .newVar => True
    | _ => False
  | .miners => match ix with
    | .automate _ | .checkpoint | .checkpointWithMinerExtended | .claimSol
    | .claimSolAndFundAutomation | .claimGodl | .injectUnrefinedRewards _ | .setReferrer _
    | .deploy _ | .deployWithMinerExtended _ | .createMinerExtended | .claimGold
    | .executeOtcTrade _ => True
    | _ => False
  | .automations => match ix with
    | .automate _ | .claimSolAndFundAutomation | .fundAutomation _ | .deploy _
    | .deployWithMinerExtended _ => True
    | _ => False
  | .orders => match ix with
    | .automate _ => True
    | _ => False
  | .referrals => match ix with
    | .claimSol | .claimSolAndFundAutomation | .claimGodl | .initializeReferrer
    | .setReferrer _ | .claimReferral => True
    | _ => False
  | .stakes => match ix with
    | .withdraw _ | .claimYield _ | .depositV2 .. | .withdrawV2 .. | .claimYieldV2 ..
    | .compoundYieldV2 _ | .setStakeExecutorV2 .. | .reconcileStakeV2 | .migrateStakeWeight
    | .closeStakeV2 _ | .closePhantomStakeV2 | .topUpStakeV2 .. | .mergeStakeV2 .. | .stakeNft _
    | .unstakeNft _ | .executeOtcTrade _ => True
    | _ => False
  | .vaults => match ix with
    | .withdrawV2 .. | .closeStakeV2 _ | .mergeStakeV2 .. => True
    | _ => False
  | .otc => match ix with
    | .initializeOtcTreasury | .fundGodlOtc _ | .executeOtcTrade _ | .withdrawSolOtc => True
    | _ => False

end Godl
