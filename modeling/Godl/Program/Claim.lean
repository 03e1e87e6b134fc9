import Godl.Program.Open

/-!
# Claims, automations and referrals

What a miner takes out of its account and what it sets up besides playing: standing
orders and a referrer.  A referrer gets a share of every claim.

## Main definitions

* `creditReferrerSol`, `creditReferrerGodl` — the referral share of a claim.
* `processClaimSol`, `processClaimGodl`, `processClaimSolAndFundAutomation` — the claims.
* `processAutomate`, `processFundAutomation` — standing orders.
* `processInitializeReferrer`, `processSetReferrer`, `processClaimReferral` — referrals.
* `processClose` — closing an expired round.
-/

namespace Godl

open Lib

/-! ## The referral share -/

/-- The referrer's share of an amount at a rate, nothing without a referrer. -/
def referralAmount (miner : Miner) (amount bps : ℕ) : Result ℕ :=
  if miner.referrerAccount.isSome then do
    let share ← mulU64 .invalidInstructionData amount bps
    return share / denominatorBps
  else return 0

/-- The referrer account a miner names, checked. -/
def loadReferrer (referrerInfo : AccountInfo) (expected : Pubkey) (s : State) :
    Result Referrer := do
  let referrer ← s.load s.referrers referrerInfo.key
  checkWritable referrerInfo
  checkAddress referrerInfo expected
  checkSeeds referrerInfo (.referrerPda referrer.authority)
  return referrer

/-- Credit the referrer of a SOL claim and send it its share. -/
def creditReferrerSol (miner : Miner) (minerInfo : AccountInfo) (share : ℕ)
    (rest : List AccountInfo) (s : State) : Result State :=
  match miner.referrerAccount with
  | some expected =>
      match rest with
      | [referrerInfo] => do
          let referrer ← loadReferrer referrerInfo expected s
          let rewards ← addU64 .invalidInstructionData referrer.rewardsSol share
          let cumulative ← addU64 .invalidInstructionData referrer.cumulativeRewardsSol share
          let s := { s with referrers := s.referrers.put { referrer with
            rewardsSol := rewards, cumulativeRewardsSol := cumulative } }
          s.send minerInfo.key referrerInfo.key share
      | _ => throw .notEnoughAccountKeys
  | none => do
      require (rest.isEmpty = true) (.custom .invalidReferrerAccount)
      return s

/-- Credit the referrer of a GODL claim and send it its share. -/
def creditReferrerGodl (miner : Miner) (treasuryTokensInfo mintInfo : AccountInfo) (share : ℕ)
    (rest : List AccountInfo) (s : State) : Result State :=
  match miner.referrerAccount with
  | some expected =>
      match rest with
      | [referrerInfo, referrerTokensInfo] => do
          let referrer ← loadReferrer referrerInfo expected s
          checkWritable referrerTokensInfo
          let _ ← s.asAssociatedTokenAccount referrerTokensInfo referrerInfo.key mintInfo.key
          let rewards ← addU64 .invalidInstructionData referrer.rewardsGodl share
          let cumulative ← addU64 .invalidInstructionData referrer.cumulativeRewardsGodl share
          let s := { s with referrers := s.referrers.put { referrer with
            rewardsGodl := rewards, cumulativeRewardsGodl := cumulative } }
          s.transferTokens treasuryTokensInfo.key referrerTokensInfo.key share
      | _ => throw .notEnoughAccountKeys
  | none => do
      require (rest.isEmpty = true) (.custom .invalidReferrerAccount)
      return s

/-! ## Claims -/

/-- Claim a miner's SOL. -/
def processClaimSol (clock : Clock) (signerInfo minerInfo systemProgram : AccountInfo)
    (rest : List AccountInfo) (s : State) : Result State := do
  checkSigner signerInfo
  let miner ← s.load s.miners minerInfo.key
  require (miner.authority = signerInfo.key) .invalidAccountData
  checkProgram systemProgram systemProgramId
  let (amount, claimed) := miner.claimSol clock
  let share ← referralAmount miner amount referralBps
  let minerAmount ← subU64 .invalidInstructionData amount share
  let s := { s with miners := s.miners.put claimed }
  let s ← creditReferrerSol miner minerInfo share rest s
  if 0 < minerAmount then s.send minerInfo.key signerInfo.key minerAmount else return s

/-- Let an automation's executor claim the miner's SOL into the automation; the referrer
gets a tenth of its usual share. -/
def processClaimSolAndFundAutomation (clock : Clock) (signerInfo minerInfo automationV2Info
    systemProgram : AccountInfo) (rest : List AccountInfo) (s : State) : Result State := do
  checkSigner signerInfo
  let automation ← s.load s.automations automationV2Info.key
  require (automation.executor = signerInfo.key) .invalidAccountData
  require (automation.getClaimAndFund = true) .invalidAccountData
  checkWritable automationV2Info
  checkSeeds automationV2Info (.automationV2Pda automation.authority)
  let miner ← s.load s.miners minerInfo.key
  require (miner.authority = automation.authority) .invalidAccountData
  checkProgram systemProgram systemProgramId
  let (amount, claimed) := miner.claimSol clock
  let share ← referralAmount miner amount (referralBps / 10)
  let minerAmount ← subU64 .invalidInstructionData amount share
  let s := { s with miners := s.miners.put claimed }
  let s ← creditReferrerSol miner minerInfo share rest s
  if 0 < minerAmount then
    let balance ← addU64 overflow automation.balance minerAmount
    let s := { s with automations := s.automations.put { automation with balance := balance } }
    s.send minerInfo.key automationV2Info.key minerAmount
  else return s

/-- Claim a miner's GODL. -/
def processClaimGodl (clock : Clock) (signerInfo _configInfo minerInfo mintInfo recipientInfo
    treasuryInfo treasuryTokensInfo systemProgram tokenProgram associatedTokenProgram
    goldVaultInfo minerExtendedInfo : AccountInfo) (rest : List AccountInfo) (s : State) :
    Result State := do
  checkSigner signerInfo
  let miner ← s.load s.miners minerInfo.key
  require (miner.authority = signerInfo.key) .invalidAccountData
  checkAddress mintInfo mintAddress
  checkWritable recipientInfo
  s.asSingleton .treasury treasuryInfo
  let _ ← s.asAssociatedTokenAccount treasuryTokensInfo treasuryInfo.key mintInfo.key
  checkTokenPrograms systemProgram tokenProgram associatedTokenProgram
  checkGoldVault goldVaultInfo s
  let (extended, s) ← loadOrCreateMinerExtended minerExtendedInfo miner.authority signerInfo
    (0 < miner.rewardsGodl) s
  let s ← s.openTokenAccount recipientInfo signerInfo.key mintInfo.key signerInfo
  let s ← syncGoldRewards extended miner s
  let (amount, claimed, treasury) ← miner.claimGodl clock s.treasury
  let share ← referralAmount miner amount referralBps
  let minerAmount ← subU64 .invalidInstructionData amount share
  let s := { s with miners := s.miners.put claimed, treasury := treasury }
  let s ← creditReferrerGodl miner treasuryTokensInfo mintInfo share rest s
  if 0 < minerAmount then
    s.transferTokens treasuryTokensInfo.key recipientInfo.key minerAmount
  else return s

/-! ## Automations -/

/-- Open the pool member account of the signer when it opts into pooling. -/
def openPoolMemberFor (poolMemberInfo signerInfo : AccountInfo) (isPooled : Bool) (s : State) :
    Result State :=
  if s.dataIsEmpty poolMemberInfo.key then
    if isPooled then do
      let s ← s.createAccount poolMemberInfo poolMemberSize signerInfo
      return { s with poolMembers := s.poolMembers.put ⟨signerInfo.key, 0, fun _ => 0, 0⟩ }
    else return s
  else do
    let poolMember ← s.load s.poolMembers poolMemberInfo.key
    require (poolMember.authority = signerInfo.key) .invalidAccountData
    return s

/-- The signer's automation, created when it is missing. -/
def openAutomation (automationV2Info signerInfo : AccountInfo) (s : State) :
    Result (AutomationV2 × State) :=
  if s.dataIsEmpty automationV2Info.key then do
    let s ← s.createAccount automationV2Info automationV2Size signerInfo
    return ({ AutomationV2.zeroed with authority := signerInfo.key }, s)
  else do
    let automation ← s.load s.automations automationV2Info.key
    require (automation.authority = signerInfo.key) (.custom .notAuthorized)
    return (automation, s)

/-- The arguments of `automate`. -/
structure AutomateArgs where
  amount : ℕ
  deposit : ℕ
  fee : ℕ
  mask : ℕ
  strategy : ℕ
  claimAndFund : Bool
  isPooled : Bool

/-- The config of an automation with its three slots written. -/
def AutomationV2.configWith (config : ℕ) (strategy : AutomationV2Strategy)
    (claimAndFund isPooled : Bool) : ℕ :=
  let config := setConfigByte config 0 (strategyByte strategy)
  let config := setConfigByte config 1 (if claimAndFund then 1 else 0)
  setConfigByte config 2 (if isPooled then 1 else 0)

/-- Set up, change or close a standing order; the null executor closes it. -/
def processAutomate (args : AutomateArgs) (signerInfo automationV2Info executorInfo minerInfo
    poolMemberInfo systemProgram : AccountInfo) (s : State) : Result State := do
  let strategy ← AutomationV2.strategyFromConfig args.strategy
  checkSigner signerInfo
  checkWritable automationV2Info
  checkSeeds automationV2Info (.automationV2Pda signerInfo.key)
  checkWritable minerInfo
  checkSeeds minerInfo (.minerPda signerInfo.key)
  checkWritable poolMemberInfo
  checkSeeds poolMemberInfo (.poolMemberPda signerInfo.key)
  checkProgram systemProgram systemProgramId
  let (miner, s) ←
    openMiner (.custom .notAuthorized) minerInfo signerInfo.key signerInfo s
  let s := { s with miners := s.miners.put miner }
  if executorInfo.key = Pubkey.default then
    let automation ← s.load s.automations automationV2Info.key
    require (automation.authority = signerInfo.key) (.custom .notAuthorized)
    let s := s.releaseLamports automationV2Info.key signerInfo.key
    return { s with automations := s.automations.erase automationV2Info.key }
  else
    let s ← openPoolMemberFor poolMemberInfo signerInfo args.isPooled s
    let (automation, s) ← openAutomation automationV2Info signerInfo s
    let balance ← addU64 overflow automation.balance args.deposit
    let automation := { automation with
      amount := args.amount
      balance := balance
      executor := executorInfo.key
      fee := args.fee
      mask := args.mask
      config := AutomationV2.configWith automation.config strategy args.claimAndFund
        args.isPooled }
    let s := { s with automations := s.automations.put automation }
    let s ← if miner.checkpointFee = 0 then do
        let s := { s with miners := s.miners.put { miner with checkpointFee := checkpointFee } }
        s.collect minerInfo.key checkpointFee signerInfo
      else pure s
    s.collect automationV2Info.key args.deposit signerInfo

/-- Add to the balance of an automation. -/
def processFundAutomation (deposit : ℕ) (signerInfo automationV2Info systemProgram : AccountInfo)
    (s : State) : Result State := do
  checkSigner signerInfo
  checkWritable automationV2Info
  checkProgram systemProgram systemProgramId
  let automation ← s.load s.automations automationV2Info.key
  require (automation.authority = signerInfo.key) .invalidAccountData
  checkSeeds automationV2Info (.automationV2Pda automation.authority)
  let balance ← addU64 overflow automation.balance deposit
  let s := { s with automations := s.automations.put { automation with balance := balance } }
  s.collect automationV2Info.key deposit signerInfo

/-! ## Referrals -/

/-- Become a referrer. -/
def processInitializeReferrer (authorityInfo referrerInfo referrerTokensInfo mintInfo
    systemProgram tokenProgram associatedTokenProgram : AccountInfo) (s : State) :
    Result State := do
  checkSigner authorityInfo
  checkWritable referrerInfo
  checkWritable referrerTokensInfo
  s.checkEmpty referrerInfo
  checkSeeds referrerInfo (.referrerPda authorityInfo.key)
  checkAddress mintInfo mintAddress
  checkTokenPrograms systemProgram tokenProgram associatedTokenProgram
  let s ← s.createAccount referrerInfo referrerSize authorityInfo
  let s := { s with referrers := s.referrers.put ⟨authorityInfo.key, 0, 0, 0, 0, 0⟩ }
  s.openTokenAccount referrerTokensInfo referrerInfo.key mintInfo.key authorityInfo

/-- Name a miner's referrer, once and for all; the null address locks the miner without
one. -/
def processSetReferrer (desired : Pubkey) (authorityInfo minerInfo : AccountInfo)
    (rest : List AccountInfo) (s : State) : Result State := do
  checkSigner authorityInfo
  let miner ← s.load s.miners minerInfo.key
  require (miner.authority = authorityInfo.key) (.custom .notAuthorized)
  if miner.referrer ≠ Pubkey.default then
    return s
  else if desired = Pubkey.default then
    return { s with miners := s.miners.put { miner with referrer := referrerLockedSentinel } }
  else if desired = referrerLockedSentinel then
    throw (.custom .invalidReferrerAccount)
  else
    match rest with
    | [referrerInfo] => do
        let referrer ← loadReferrer referrerInfo desired s
        require (referrer.authority ≠ miner.authority) (.custom .invalidReferrerAccount)
        let count ← addU64 .invalidArgument referrer.referrerCount 1
        return { s with
          referrers := s.referrers.put { referrer with referrerCount := count }
          miners := s.miners.put { miner with referrer := referrerInfo.key } }
    | _ => throw .notEnoughAccountKeys

/-- Claim what a referrer accrued. -/
def processClaimReferral (authorityInfo referrerInfo referrerTokensInfo authorityTokensInfo
    mintInfo systemProgram tokenProgram associatedTokenProgram : AccountInfo) (s : State) :
    Result State := do
  checkSigner authorityInfo
  checkWritable referrerInfo
  checkWritable referrerTokensInfo
  checkWritable authorityTokensInfo
  checkAddress mintInfo mintAddress
  checkTokenPrograms systemProgram tokenProgram associatedTokenProgram
  checkSeeds referrerInfo (.referrerPda authorityInfo.key)
  let referrer ← s.load s.referrers referrerInfo.key
  require (referrer.authority = authorityInfo.key) (.custom .notAuthorized)
  let _ ← s.asAssociatedTokenAccount referrerTokensInfo referrerInfo.key mintInfo.key
  let s ← s.openTokenAccount authorityTokensInfo authorityInfo.key mintInfo.key authorityInfo
  if referrer.rewardsGodl = 0 ∧ referrer.rewardsSol = 0 then
    return s
  else
    let paid := { referrer with rewardsGodl := 0, rewardsSol := 0 }
    let s := { s with referrers := s.referrers.put paid }
    let s ← if 0 < referrer.rewardsGodl then
        s.transferTokens referrerTokensInfo.key authorityTokensInfo.key referrer.rewardsGodl
      else pure s
    if 0 < referrer.rewardsSol then
      s.send referrerInfo.key authorityInfo.key referrer.rewardsSol
    else return s

/-! ## Closing a round -/

/-- Send what an account holds above its rent to the treasury, then close it. -/
def closeToTreasury (info treasuryInfo rentPayerInfo : AccountInfo) (size : ℕ) (s : State) :
    Result State := do
  let unclaimed := s.lamports info.key - minimumBalance size
  let s ← if 0 < unclaimed then do
      let s ← s.send info.key treasuryInfo.key unclaimed
      let balance ← addU64 overflow s.treasury.balance unclaimed
      pure { s with treasury := { s.treasury with balance := balance } }
    else pure s
  return s.releaseLamports info.key rentPayerInfo.key

/-- Close an expired round and its pool round, vaulting what was not claimed. -/
def processClose (clock : Clock) (signerInfo boardInfo rentPayerInfo roundInfo poolRoundInfo
    treasuryInfo systemProgram : AccountInfo) (s : State) : Result State := do
  checkSigner signerInfo
  checkWritable rentPayerInfo
  checkProgram systemProgram systemProgramId
  s.asSingleton .board boardInfo
  s.asSingleton .treasury treasuryInfo
  let round ← s.load s.rounds roundInfo.key
  require (round.id < s.board.roundId) .invalidAccountData
  require (round.expiresAt < clock.slot) .invalidAccountData
  require (round.rentPayer = rentPayerInfo.key) .invalidAccountData
  let s ← closeToTreasury roundInfo treasuryInfo rentPayerInfo roundSize s
  let s := { s with rounds := s.rounds.erase roundInfo.key }
  checkWritable poolRoundInfo
  checkSeeds poolRoundInfo (.poolRoundPda round.id)
  if s.dataIsEmpty poolRoundInfo.key then
    return s
  else
    let poolRound ← s.load s.poolRounds poolRoundInfo.key
    require (poolRound.rentPayer = rentPayerInfo.key) .invalidAccountData
    let s ← closeToTreasury poolRoundInfo treasuryInfo rentPayerInfo poolRoundSize s
    return { s with poolRounds := s.poolRounds.erase poolRoundInfo.key }

end Godl
