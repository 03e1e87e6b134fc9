import Godl.Program.Open

/-!
# Deploying on squares

The two deploy instructions share one body; they differ in the gold accounts, which
only the newer one takes, and in the timestamp after which the older one is refused.
The body runs in stages: check the accounts and start the round's clock, find out
what to deploy, open the miner, bet square by square, and pay.

## Main definitions

* `generateRandomMask` — the squares of a random automation.
* `Bet` — what the loop over the squares carries.
* `deployLoop` — the loop, with its early exit.
* `processDeploy`, `processDeployWithMinerExtended` — the instructions.
-/

namespace Godl

open Lib

/-- The arguments of a deploy. -/
structure DeployArgs where
  amount : ℕ
  squares : ℕ
  isPooled : Bool

/-- The accounts that both deploy instructions take. -/
structure DeployAccounts where
  signerInfo : AccountInfo
  authorityInfo : AccountInfo
  automationV2Info : AccountInfo
  boardInfo : AccountInfo
  minerInfo : AccountInfo
  roundInfo : AccountInfo
  poolRoundInfo : AccountInfo
  poolMemberInfo : AccountInfo
  configInfo : AccountInfo
  systemProgram : AccountInfo

/-- Walk over the positions from `i` on and select each with the odds that are left:
`needed` squares out of the remaining positions. -/
def randomMaskLoop (r : List ℕ) (numSquares : ℕ) :
    List ℕ → ℕ → (ℕ → Bool) → Result (ℕ → Bool)
  | [], _, mask => .ok mask
  | i :: rest, selected, mask => do
      let randByte ← fromOption r[i]? (.panic .outOfBounds)
      let remainingNeeded ← subU64 overflow numSquares selected
      let remainingPositions := 25 - i
      if 0 < remainingNeeded ∧ randByte * remainingPositions < remainingNeeded * 256 then
        randomMaskLoop r numSquares rest (selected + 1) (Function.update mask i true)
      else
        randomMaskLoop r numSquares rest selected mask

/-- The squares of a random automation, drawn from the bytes `r`. -/
def generateRandomMask (numSquares : ℕ) (r : List ℕ) : Result (Square → Bool) := do
  let mask ← randomMaskLoop r numSquares (List.range 25) 0 fun _ => false
  return fun sq => mask sq.val

/-- The squares whose bits are set in a mask. -/
def squaresOfMask (mask : ℕ) : Square → Bool := fun sq => mask.testBit sq.val

/-- The first deployment of a round starts its clock and asks the entropy program for
the value that will decide it. -/
def startRound (clock : Clock) (env : Env) (boardInfo : AccountInfo)
    (entropyAccounts : List AccountInfo) (cpi : Cpi) (round : Round) (s : State) :
    Result (Round × State) := do
  let endSlot ← addU64 overflow clock.slot s.config.getRoundSlots
  let expiresAt ← addU64 overflow endSlot oneDaySlots
  match entropyAccounts with
  | [varInfo, entropyProgram] => do
      checkAddress varInfo s.config.varAddress
      let var ← fromOption (s.vars varInfo.key) .invalidAccountOwner
      require (var.authority = boardInfo.key) .invalidAccountData
      checkProgram entropyProgram env.entropyId
      let var ← fromOption cpi.entropyVar .invalidAccountData
      return ({ round with expiresAt := expiresAt }, { s with
        board := { s.board with startSlot := clock.slot, endSlot := endSlot }
        vars := Function.update s.vars varInfo.key (some var) })
  | _ => throw .notEnoughAccountKeys

/-- The automation that the signer executes; without one the signer is the miner. -/
def loadAutomation (a : DeployAccounts) (s : State) : Result (Option AutomationV2) :=
  if s.dataIsEmpty a.automationV2Info.key then do
    require (a.signerInfo.key = a.authorityInfo.key) (.custom .notAuthorized)
    return none
  else do
    let automation ← s.load s.automations a.automationV2Info.key
    require (automation.executor = a.signerInfo.key) .invalidAccountData
    require (automation.authority = a.authorityInfo.key) .invalidAccountData
    return some automation

/-- The squares to deploy on. -/
def deploySquares (env : Env) (args : DeployArgs) (round : Round) :
    Option AutomationV2 → Result (Square → Bool)
  | none => return squaresOfMask args.squares
  | some automation => do
      match ← AutomationV2.strategyFromConfig automation.config with
      | .preferred => return squaresOfMask automation.mask
      | .random =>
          generateRandomMask (min (automation.mask % 256) 25)
            (env.hashv automation.authority round.id)

/-- Start the miner over when the round is new to it; a miner that has not checkpointed
its last round, or that already deployed in this one, is refused. -/
def resetMiner (round : Round) (miner : Miner) : Result Miner :=
  if miner.roundId ≠ round.id then do
    require (miner.checkpointId = miner.roundId) (.panic .minerNotCheckpointed)
    return { miner with
      deployed := fun _ => 0, cumulative := round.deployed, roundId := round.id }
  else do
    require (miner.deployed = fun _ => 0) (.custom .alreadyDeployedThisRound)
    return miner

/-- What is fixed while the loop over the squares runs. -/
structure DeployContext where
  amount : ℕ
  isPooled : Bool
  automation : Option AutomationV2
  authority : Pubkey
  signerInfo : AccountInfo
  poolMemberInfo : AccountInfo

/-- What the loop over the squares carries: the accounts it writes, and what was
deployed so far.  Creating the pool member costs the signer lamports. -/
structure Bet where
  state : State
  round : Round
  poolRound : PoolRound
  miner : Miner
  poolMember : Option PoolMember
  totalAmount : ℕ

/-- The pool member of the authority, created on its first pooled square. -/
def openPoolMember (c : DeployContext) (b : Bet) : Result (PoolMember × State) :=
  match b.poolMember with
  | none => do
      let s ← b.state.createAccount c.poolMemberInfo poolMemberSize c.signerInfo
      return (⟨c.authority, 0, fun _ => 0, 0⟩, s)
  | some poolMember => do
      require (poolMember.authority = c.authority) .invalidAccountData
      return (poolMember, b.state)

/-- Record a pooled deployment with the member and the pool. -/
def deployPooled (c : DeployContext) (b : Bet) (sq : Square) : Result Bet := do
  let (poolMember, s) ← openPoolMember c b
  let poolMember :=
    if poolMember.roundId ≠ b.round.id then poolMember.resetForRound b.round.id else poolMember
  let wasZero := poolMember.deployed sq = 0
  return { b with
    state := s
    poolMember := some (poolMember.recordDeploy sq c.amount)
    poolRound := b.poolRound.recordDeploy sq c.amount wasZero }

/-- Deploy on one square. -/
def deploySquare (c : DeployContext) (b : Bet) (sq : Square) : Result Bet := do
  let deployed ← addU64 overflow (b.round.deployed sq) c.amount
  let totalDeployed ← addU64 overflow b.round.totalDeployed c.amount
  let count ← addU64 overflow (b.round.count sq) 1
  let bet := { b with
    miner := { b.miner with
      cumulative := Function.update b.miner.cumulative sq (b.round.deployed sq)
      deployed := Function.update b.miner.deployed sq c.amount }
    round := { b.round with
      deployed := Function.update b.round.deployed sq deployed
      totalDeployed := totalDeployed
      count := Function.update b.round.count sq count } }
  let bet ← if c.isPooled then deployPooled c bet sq else pure bet
  let totalAmount ← addU64 overflow b.totalAmount c.amount
  return { bet with totalAmount := totalAmount }

/-- The automation cannot pay for another square. -/
def cannotAffordNext (c : DeployContext) (b : Bet) : Result Bool :=
  match c.automation with
  | none => return false
  | some automation => do
      let spent ← addU64 overflow b.totalAmount automation.fee
      let next ← addU64 overflow spent c.amount
      return automation.balance < next

/-- The loop over the squares: skip what is not selected or already deployed on, and
leave early once the automation cannot pay for another square. -/
def deployLoop (c : DeployContext) (squares : Square → Bool) : List Square → Bet → Result Bet
  | [], b => .ok b
  | sq :: rest, b =>
      if squares sq = false then deployLoop c squares rest b
      else if 0 < b.miner.deployed sq then deployLoop c squares rest b
      else do
        let b ← deploySquare c b sq
        let exhausted ← cannotAffordNext c b
        if exhausted then return b else deployLoop c squares rest b

/-- How many selected squares the miner has not deployed on. -/
def squaresToDeploy (squares : Square → Bool) (miner : Miner) : ℕ :=
  squareList.countP fun sq => squares sq && miner.deployed sq = 0

/-- Write the accounts that the loop worked on back. -/
def saveBet (b : Bet) : State :=
  { b.state with
    rounds := b.state.rounds.put b.round
    poolRounds := b.state.poolRounds.put b.poolRound
    miners := b.state.miners.put b.miner
    poolMembers := match b.poolMember with
      | none => b.state.poolMembers
      | some p => b.state.poolMembers.put p }

/-- Close an automation, its lamports going to the authority. -/
def closeAutomation (automation : AutomationV2) (authority : Pubkey) (s : State) : State :=
  let s := s.releaseLamports automation.pda authority
  { s with automations := s.automations.erase automation.pda }

/-- Whether the automation's balance covers all requested squares and the fee. -/
def canAfford (amount squares : ℕ) (automation : AutomationV2) : Result Bool := do
  let cost ← mulU64 .invalidInstructionData amount squares
  let required ← addU64 .invalidInstructionData cost automation.fee
  return required ≤ automation.balance

/-- Pay for the bet: an automation pays from its balance, with a fee for the signer, and
is closed once it cannot pay for one more square; otherwise the signer pays. -/
def payBet (a : DeployAccounts) (totalAmount : ℕ) (automation : Option AutomationV2)
    (s : State) : Result State :=
  match automation with
  | some automation => do
      let spent ← addU64 overflow totalAmount automation.fee
      let balance ← subU64 overflow automation.balance spent
      let automation := { automation with balance := balance }
      let s := { s with automations := s.automations.put automation }
      let s ← s.send a.automationV2Info.key a.roundInfo.key totalAmount
      let s ← s.send a.automationV2Info.key a.signerInfo.key automation.fee
      let next ← addU64 overflow automation.amount automation.fee
      if balance < next then return closeAutomation automation a.authorityInfo.key s
      else return s
  | none => s.collect a.roundInfo.key totalAmount a.signerInfo

/-- The bet is over: book it with the miner, set the checkpoint fee aside and hold a
pool member to one SOL. -/
def finishBet (c : DeployContext) (minerInfo : AccountInfo) (b : Bet) : Result State := do
  let lifetimeDeployed ← addU64 overflow b.miner.lifetimeDeployed b.totalAmount
  let miner := { b.miner with lifetimeDeployed := lifetimeDeployed }
  let topUp := miner.checkpointFee = 0
  let miner := if topUp then { miner with checkpointFee := checkpointFee } else miner
  let s := saveBet { b with miner := miner }
  let s ← if topUp then s.collect minerInfo.key checkpointFee c.signerInfo else pure s
  if c.isPooled then
    let poolMember ← fromOption b.poolMember .invalidAccountOwner
    require (poolMember.totalDeployed ≤ lamportsPerSol) .invalidInstructionData
    return s
  else
    return s

/-- Check the accounts of a deploy; returns the round and the pool round. -/
def checkDeployAccounts (clock : Clock) (a : DeployAccounts) (s : State) :
    Result (Round × PoolRound) := do
  checkSigner a.signerInfo
  checkWritable a.authorityInfo
  checkWritable a.automationV2Info
  checkSeeds a.automationV2Info (.automationV2Pda a.authorityInfo.key)
  s.asConfig a.configInfo
  s.asSingleton .board a.boardInfo
  require (s.board.startSlot ≤ clock.slot ∧ clock.slot < s.board.endSlot) .invalidAccountData
  let round ← s.load s.rounds a.roundInfo.key
  require (round.id = s.board.roundId) .invalidAccountData
  let poolRound ← s.load s.poolRounds a.poolRoundInfo.key
  require (poolRound.id = round.id) .invalidAccountData
  checkWritable a.minerInfo
  checkSeeds a.minerInfo (.minerPda a.authorityInfo.key)
  checkWritable a.poolMemberInfo
  checkSeeds a.poolMemberInfo (.poolMemberPda a.authorityInfo.key)
  checkProgram a.systemProgram systemProgramId
  return (round, poolRound)

/-- Start the round's clock when this is its first deployment. -/
def openRound (clock : Clock) (env : Env) (a : DeployAccounts)
    (entropyAccounts : List AccountInfo) (cpi : Cpi) (round : Round) (s : State) :
    Result (Round × State) :=
  if s.board.endSlot = u64Max then
    startRound clock env a.boardInfo entropyAccounts cpi round s
  else
    return (round, s)

/-- The gold accounts of a deploy, when it has them: the vault is checked first, and the
extended account opened once the miner is. -/
def openGold (gold : Option (AccountInfo × AccountInfo)) (a : DeployAccounts) (s : State) :
    Result State :=
  match gold with
  | none => return s
  | some (_, minerExtendedInfo) => do
      let (_, s) ←
        loadOrCreateMinerExtended minerExtendedInfo a.authorityInfo.key a.signerInfo true s
      return s

/-- Place the bet of a miner that is ready for the round. -/
def placeBet (args : DeployArgs) (a : DeployAccounts) (automation : Option AutomationV2)
    (squares : Square → Bool) (round : Round) (poolRound : PoolRound) (miner : Miner)
    (s : State) : Result State := do
  let amount := match automation with
    | some automation => automation.amount
    | none => args.amount
  let isPooled := match automation with
    | some automation => automation.getIsPooled
    | none => args.isPooled
  let start : Bet := ⟨s, round, poolRound, miner, s.poolMembers.get a.poolMemberInfo.key, 0⟩
  let affordable ← match automation with
    | some automation => canAfford amount (squaresToDeploy squares miner) automation
    | none => pure true
  if affordable then
    let c : DeployContext :=
      ⟨amount, isPooled, automation, a.authorityInfo.key, a.signerInfo, a.poolMemberInfo⟩
    let b ← deployLoop c squares squareList start
    let s ← finishBet c a.minerInfo b
    payBet a b.totalAmount automation s
  else
    -- No partial bet: the automation is closed, and what was opened so far stays.
    match automation with
    | some automation => return closeAutomation automation a.authorityInfo.key (saveBet start)
    | none => return saveBet start

/-- The common body of the deploy instructions. -/
def deployBody (clock : Clock) (env : Env) (args : DeployArgs) (a : DeployAccounts)
    (gold : Option (AccountInfo × AccountInfo)) (entropyAccounts : List AccountInfo) (cpi : Cpi)
    (s : State) : Result State := do
  let (round, poolRound) ← checkDeployAccounts clock a s
  match gold with
  | some (goldVaultInfo, _) => checkGoldVault goldVaultInfo s
  | none => pure ()
  let (round, s) ← openRound clock env a entropyAccounts cpi round s
  let automation ← loadAutomation a s
  let squares ← deploySquares env args round automation
  -- An automation was checked to name the same authority.
  let (miner, s) ← openMiner .invalidAccountData a.minerInfo a.authorityInfo.key a.signerInfo s
  let s ← openGold gold a s
  let miner ← resetMiner round miner
  placeBet args a automation squares round poolRound miner s

/-- Deploy, in the layout without gold accounts. -/
def processDeploy (clock : Clock) (env : Env) (args : DeployArgs) (a : DeployAccounts)
    (entropyAccounts : List AccountInfo) (cpi : Cpi) (s : State) : Result State := do
  require (clock.unixTimestamp < legacyInstructionExpiryTs) (.custom .legacyDeployExpired)
  deployBody clock env args a none entropyAccounts cpi s

/-- Deploy and open the miner's extended account. -/
def processDeployWithMinerExtended (clock : Clock) (env : Env) (args : DeployArgs)
    (a : DeployAccounts) (goldVaultInfo minerExtendedInfo : AccountInfo)
    (entropyAccounts : List AccountInfo) (cpi : Cpi) (s : State) : Result State :=
  deployBody clock env args a (some (goldVaultInfo, minerExtendedInfo)) entropyAccounts cpi s

end Godl
