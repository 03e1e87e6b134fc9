import Godl.Program.Reset
import Godl.Program.Stake

/-!
# Administration

Setting the protocol up, changing its config, and burying: swapping vaulted SOL into
GODL, sharing a part of it with the stakers and burning the rest.

## Main definitions

* `processInitialize` — the core accounts.
* `setConfig` — the config setters, each one line below it.
* `buryShares` — what `processBury` and `processBuryTokens` do with an amount of GODL.
* `processRebaseTotalStaked`, `processRebaseTotalUnclaimed` — overwriting a total.
-/

namespace Godl

open Lib

/-! ## Setting up -/

/-- An account that is created at a fixed address. -/
abbrev checkFresh (info : AccountInfo) (pda : Pubkey) (s : State) : Result Unit := do
  s.checkEmpty info
  checkWritable info
  checkSeeds info pda

/-- Create the core accounts. -/
def processInitialize (admin buryAuthority feeCollector : Pubkey) (godlPerRound : ℕ)
    (signerInfo configInfo treasuryInfo boardInfo roundInfo systemProgram : AccountInfo)
    (s : State) : Result State := do
  require (godlPerRound ≤ maxGodlPerRound) (.panic .assertion)
  checkSigner signerInfo
  checkAddress signerInfo deployerAddress
  checkProgram systemProgram systemProgramId
  checkFresh configInfo .configPda s
  checkFresh treasuryInfo .treasuryPda s
  checkFresh boardInfo .boardPda s
  checkFresh roundInfo (.roundPda 0) s
  let s ← s.createAccount configInfo configSize signerInfo
  let s ← s.createAccount treasuryInfo treasurySize signerInfo
  let s ← s.createAccount boardInfo boardSize signerInfo
  let s ← s.createAccount roundInfo roundSize signerInfo
  return { s with
    opened := Function.update (Function.update (Function.update s.opened .config true)
      .treasury true) .board true
    configResized := true
    config := ⟨admin, godlPerRound, buryAuthority, feeCollector, Pubkey.default,
      Pubkey.default, 5, roundSlotsDefault, intermissionSlotsDefault⟩
    treasury := ⟨0, 0, Fixed.zero, Fixed.zero, 0, 0, 0⟩
    board := ⟨0, 0, u64Max⟩
    rounds := s.rounds.put (Round.fresh 0 signerInfo.key) }

/-- Create the SOL motherlode. -/
def processInitializeSolMotherlode (signerInfo solMotherlodeInfo systemProgram : AccountInfo)
    (s : State) : Result State := do
  checkSigner signerInfo
  checkAddress signerInfo deployerAddress
  checkProgram systemProgram systemProgramId
  checkFresh solMotherlodeInfo .solMotherlodePda s
  let s ← s.createAccount solMotherlodeInfo solMotherlodeSize signerInfo
  return { s with
    opened := Function.update s.opened .solMotherlode true
    solMotherlode := ⟨0⟩ }

/-! ## The config -/

/-- Change the config; only its admin may. -/
def setConfig (signerInfo configInfo : AccountInfo) (change : Config → Config) (s : State) :
    Result State := do
  checkSigner signerInfo
  s.asConfig configInfo
  require (s.config.admin = signerInfo.key) (.custom .notAuthorized)
  return { s with config := change s.config }

/-- Name a new admin. -/
def processSetAdmin (admin : Pubkey) (signerInfo configInfo systemProgram : AccountInfo)
    (s : State) : Result State := do
  checkProgram systemProgram systemProgramId
  setConfig signerInfo configInfo (fun c => { c with admin := admin }) s

/-- Name a new fee collector. -/
def processSetFeeCollector (feeCollector : Pubkey)
    (signerInfo configInfo systemProgram : AccountInfo) (s : State) : Result State := do
  checkProgram systemProgram systemProgramId
  setConfig signerInfo configInfo (fun c => { c with feeCollector := feeCollector }) s

/-- Name a new swap program. -/
def processSetSwapProgram (signerInfo configInfo newSwapProgramInfo : AccountInfo) (s : State) :
    Result State := do
  require (newSwapProgramInfo.executable = true) .invalidAccountData
  setConfig signerInfo configInfo (fun c => { c with swapProgram := newSwapProgramInfo.key }) s

/-- Name a new entropy variable, which has to belong to the board and to have samples. -/
def processSetVarAddress (signerInfo boardInfo configInfo newVarAddressInfo : AccountInfo)
    (s : State) : Result State := do
  s.asSingleton .board boardInfo
  let var ← fromOption (s.vars newVarAddressInfo.key) .invalidAccountOwner
  require (var.authority = boardInfo.key) .invalidAccountData
  require (0 < var.samples) .invalidAccountData
  setConfig signerInfo configInfo (fun c => { c with varAddress := newVarAddressInfo.key }) s

/-- Set the denominator of the motherlode. -/
def processSetMotherlodeDenominator (motherlodeDenominator : ℕ)
    (signerInfo configInfo systemProgram : AccountInfo) (s : State) : Result State := do
  checkProgram systemProgram systemProgramId
  setConfig signerInfo configInfo
    (fun c => { c with motherlodeDenominator := motherlodeDenominator }) s

/-- Set the GODL minted per round. -/
def processSetGodlPerRound (godlPerRound : ℕ)
    (signerInfo configInfo systemProgram : AccountInfo) (s : State) : Result State := do
  checkProgram systemProgram systemProgramId
  require (godlPerRound ≤ maxGodlPerRound) (.panic .assertion)
  setConfig signerInfo configInfo (fun c => { c with godlPerRound := godlPerRound }) s

/-- Grow a config account of the old layout; the new fields read as unset. -/
def resizeConfig (signerInfo configInfo : AccountInfo) (s : State) : Result State :=
  if s.configResized = false then do
    require (s.opened .config = true) .invalidAccountOwner
    let s ← s.collect configInfo.key
      (minimumBalance configSize - s.lamports configInfo.key) signerInfo
    return { s with
      configResized := true
      config := { s.config with roundSlots := 0, intermissionSlots := 0 } }
  else return s

/-- Set the lengths of rounds and intermissions, growing an old config account first. -/
def processUpdateProtocolConfig (roundSlots intermissionSlots : ℕ)
    (signerInfo configInfo systemProgram : AccountInfo) (s : State) : Result State := do
  checkSigner signerInfo
  checkWritable configInfo
  checkSeeds configInfo .configPda
  checkProgram systemProgram systemProgramId
  let s ← resizeConfig signerInfo configInfo s
  require (0 < roundSlots ∧ roundSlots ≤ oneDaySlots ∧ 0 < intermissionSlots ∧
    intermissionSlots ≤ oneDaySlots) (.custom .invalidProtocolConfig)
  setConfig signerInfo configInfo
    (fun c => { c with roundSlots := roundSlots, intermissionSlots := intermissionSlots }) s

/-- Open a new entropy variable. -/
def processNewVar (env : Env) (signerInfo boardInfo configInfo _providerInfo varInfo systemProgram
    entropyProgram : AccountInfo) (cpi : Cpi) (s : State) : Result State := do
  checkSigner signerInfo
  s.asConfig configInfo
  require (s.config.admin = signerInfo.key) (.custom .notAuthorized)
  checkProgram entropyProgram env.entropyId
  checkProgram systemProgram systemProgramId
  -- The board signs the call, so it has to be the board.
  require (boardInfo.key = Singleton.board.pda) .invalidSeeds
  let var ← fromOption cpi.entropyVar .invalidAccountData
  return { s with vars := Function.update s.vars varInfo.key (some var) }

/-- Hand the mint authority from the treasury to the GODL mint program. -/
def processTransferMintAuthority (env : Env) (signerInfo configInfo mintInfo treasuryInfo
    godlMintAuthorityInfo tokenProgram : AccountInfo) (s : State) : Result State := do
  checkSigner signerInfo
  s.asConfig configInfo
  require (s.config.admin = signerInfo.key) (.custom .notAuthorized)
  checkAddress mintInfo mintAddress
  checkWritable treasuryInfo
  checkSeeds treasuryInfo .treasuryPda
  checkAddress godlMintAuthorityInfo env.mintAuthorityPda
  checkProgram tokenProgram splTokenId
  require (s.mintAuthority = treasuryInfo.key) .illegalOwner
  return { s with mintAuthority := godlMintAuthorityInfo.key }

/-! ## The vault -/

/-- Check that the treasury's ledger and lamports both cover an amount. -/
def checkVault (amount : ℕ) (treasuryInfo : AccountInfo) (s : State) : Result Unit := do
  require (0 < amount) (.panic .assertion)
  require (amount ≤ s.treasury.balance) (.panic .assertion)
  -- The discriminator is left out of the size here.
  require (minimumBalance (treasurySize - 8) + amount ≤ s.lamports treasuryInfo.key)
    (.panic .assertion)

/-- Withdraw vaulted SOL. -/
def processWithdrawVault (amount : ℕ) (signerInfo configInfo treasuryInfo
    systemProgram : AccountInfo) (s : State) : Result State := do
  checkSigner signerInfo
  s.asConfig configInfo
  require (s.config.buryAuthority = signerInfo.key) .invalidAccountData
  s.asSingleton .treasury treasuryInfo
  checkProgram systemProgram systemProgramId
  checkVault amount treasuryInfo s
  let s ← s.send treasuryInfo.key signerInfo.key amount
  return { s with treasury := { s.treasury with balance := s.treasury.balance - amount } }

/-- Send vaulted SOL to the treasury's wrapped SOL account, the chest and the admin. -/
def processPreBury (buryAmount chestAmount adminAmount : ℕ) (signerInfo configInfo treasuryInfo
    treasurySolInfo chestInfo adminInfo systemProgram : AccountInfo) (s : State) :
    Result State := do
  let partialAmount ← addU64 overflow buryAmount chestAmount
  let totalAmount ← addU64 overflow partialAmount adminAmount
  checkSigner signerInfo
  s.asConfig configInfo
  require (s.config.buryAuthority = signerInfo.key) .invalidAccountData
  s.asSingleton .treasury treasuryInfo
  checkWritable treasurySolInfo
  let _ ← s.asAssociatedTokenAccount treasurySolInfo treasuryInfo.key solMint
  checkProgram systemProgram systemProgramId
  checkAddress chestInfo chestAddress
  checkAddress adminInfo adminGodlFee
  checkVault totalAmount treasuryInfo s
  let s ← s.send treasuryInfo.key treasurySolInfo.key buryAmount
  let s ← s.send treasuryInfo.key chestInfo.key chestAmount
  let s ← s.send treasuryInfo.key adminInfo.key adminAmount
  return { s with treasury := { s.treasury with balance := s.treasury.balance - totalAmount } }

/-! ## Burying -/

/-- The accounts that both bury instructions take. -/
structure BuryAccounts where
  signerInfo : AccountInfo
  boardInfo : AccountInfo
  configInfo : AccountInfo
  mintInfo : AccountInfo
  treasuryInfo : AccountInfo
  treasuryGodlInfo : AccountInfo
  adminInfo : AccountInfo
  adminGodlInfo : AccountInfo
  warchestInfo : AccountInfo
  warchestGodlInfo : AccountInfo
  tokenProgram : AccountInfo
  godlProgram : AccountInfo

/-- Whether the caller named the warchest, which then takes what would be burned. -/
def warchestActive (a : BuryAccounts) : Bool := a.warchestInfo.key ≠ Pubkey.default

/-- Check the accounts of a bury; returns the treasury's GODL. -/
def checkBuryAccounts (a : BuryAccounts) (s : State) : Result ℕ := do
  checkSigner a.signerInfo
  s.asSingleton .board a.boardInfo
  s.asConfig a.configInfo
  require (s.config.buryAuthority = a.signerInfo.key) .invalidAccountData
  checkAddress a.mintInfo mintAddress
  s.asSingleton .treasury a.treasuryInfo
  let treasuryGodl ←
    s.asAssociatedTokenAccount a.treasuryGodlInfo a.treasuryInfo.key mintAddress
  checkAddress a.adminInfo adminGodlFee
  let _ ← s.asAssociatedTokenAccount a.adminGodlInfo a.adminInfo.key mintAddress
  require (a.warchestInfo.key = Pubkey.default ↔ a.warchestGodlInfo.key = Pubkey.default)
    (.panic .assertion)
  if warchestActive a then
    checkAddress a.warchestInfo chestAddress
    checkWritable a.warchestGodlInfo
    let _ ← s.asAssociatedTokenAccount a.warchestGodlInfo a.warchestInfo.key mintAddress
    pure ()
  else pure ()
  checkProgram a.tokenProgram splTokenId
  checkProgram a.godlProgram godlApiId
  return treasuryGodl

/-- The share of `amount` that goes to the stakers, when there are any. -/
def stakersShare (amount : ℕ) (s : State) : Result ℕ :=
  if 0 < s.treasury.totalStaked then do
    let share ← mulU64 overflow amount stakersBps
    return share / denominatorBps
  else return 0

/-- Raise the stakers' factor by a share. -/
def raiseStakeFactor (share : ℕ) (s : State) : Result State := do
  let share ← Fixed.ofFraction (.panic .divisionByZero) share s.treasury.totalStaked
  let factor ← Fixed.add overflow s.treasury.stakeRewardsFactor share
  return { s with treasury := { s.treasury with stakeRewardsFactor := factor } }

/-- Give away what is neither shared nor kept: to the warchest, or to the fire.  Returns
how much was burned. -/
def buryRest (a : BuryAccounts) (burnAmount : ℕ) (s : State) : Result (ℕ × State) :=
  if 0 < burnAmount then
    if warchestActive a then do
      let s ← s.transferTokens a.treasuryGodlInfo.key a.warchestGodlInfo.key burnAmount
      return (0, s)
    else do
      let s ← s.burnTokens a.treasuryGodlInfo.key burnAmount
      return (burnAmount, s)
  else return (burnAmount, s)

/-- Share an amount of GODL with the stakers and the admin and bury the rest.  The two
callers differ in whether they raise the factor by a share of zero. -/
def buryShares (clock : Clock) (a : BuryAccounts) (raiseByZero : Bool) (amount solAmount : ℕ)
    (s : State) : Result State := do
  let sharedAmount ← stakersShare amount s
  let s ←
    if 0 < s.treasury.totalStaked ∧ (raiseByZero = true ∨ 0 < sharedAmount) then
      raiseStakeFactor sharedAmount s
    else pure s
  let adminAmount ← mulU64 overflow amount adminBps
  let adminAmount := adminAmount / denominatorBps
  let s ← if 0 < adminAmount then
      s.transferTokens a.treasuryGodlInfo.key a.adminGodlInfo.key adminAmount
    else pure s
  let afterShare ← subU64 overflow amount sharedAmount
  let burnAmount ← subU64 overflow afterShare adminAmount
  let (godlBuried, s) ← buryRest a burnAmount s
  return s.programLog (.bury godlBuried sharedAmount solAmount s.mintSupply clock.unixTimestamp)

/-- Swap the treasury's wrapped SOL into GODL and bury it. -/
def processBury (clock : Clock) (a : BuryAccounts) (treasurySolInfo : AccountInfo) (cpi : Cpi)
    (s : State) : Result State := do
  let preSwapGodlBalance ← checkBuryAccounts a s
  let _ ← s.asAssociatedTokenAccount treasurySolInfo a.treasuryInfo.key solMint
  let s ← s.syncNative treasurySolInfo.key
  let preSwapSolBalance ← s.asAssociatedTokenAccount treasurySolInfo a.treasuryInfo.key solMint
  require (0 < preSwapSolBalance) (.panic .assertion)
  let preSwapMintSupply := s.mintSupply
  let preSwapTreasuryLamports := s.lamports a.treasuryInfo.key
  let swap ← fromOption cpi.swap .invalidInstructionData
  let s := s.applySwap a.treasuryInfo.key treasurySolInfo.key a.treasuryGodlInfo.key swap
  require (s.lamports a.treasuryInfo.key = preSwapTreasuryLamports) (.panic .assertion)
  require (s.mintSupply = preSwapMintSupply) (.panic .assertion)
  let totalGodl ← subU64 overflow swap.tokenBalance preSwapGodlBalance
  require (swap.solBalance = 0) (.panic .assertion)
  buryShares clock a true totalGodl preSwapSolBalance s

/-- Bury GODL that the treasury already holds. -/
def processBuryTokens (clock : Clock) (amount : ℕ) (a : BuryAccounts) (s : State) :
    Result State := do
  let treasuryGodl ← checkBuryAccounts a s
  require (0 < amount) (.panic .assertion)
  require (amount ≤ treasuryGodl) (.panic .assertion)
  buryShares clock a false amount 0 s

/-! ## Ledgers -/

/-- Pay GODL into the motherlode. -/
def processInjectGodlMotherlode (amount : ℕ) (signerInfo treasuryInfo signerTokensInfo
    treasuryTokensInfo tokenProgram : AccountInfo) (s : State) : Result State := do
  checkSigner signerInfo
  checkWritable treasuryInfo
  checkSeeds treasuryInfo .treasuryPda
  s.asSingleton .treasury treasuryInfo
  checkWritable signerTokensInfo
  let _ ← s.asAssociatedTokenAccount signerTokensInfo signerInfo.key mintAddress
  checkWritable treasuryTokensInfo
  let _ ← s.asAssociatedTokenAccount treasuryTokensInfo treasuryInfo.key mintAddress
  checkProgram tokenProgram splTokenId
  require (amount ≠ 0) (.custom .amountTooSmall)
  let s ← s.transferTokensFrom signerInfo signerTokensInfo.key treasuryTokensInfo.key amount
  let motherlode ← addU64 .arithmeticOverflow s.treasury.motherlode amount
  return { s with treasury := { s.treasury with motherlode := motherlode } }

/-- Check that the admin may overwrite a total and that it has the expected value. -/
def checkRebase (signerInfo configInfo treasuryInfo : AccountInfo) (total expected : ℕ)
    (s : State) : Result Unit := do
  checkSigner signerInfo
  s.asConfig configInfo
  require (s.config.admin = signerInfo.key) (.custom .notAuthorized)
  checkWritable treasuryInfo
  checkSeeds treasuryInfo .treasuryPda
  s.asSingleton .treasury treasuryInfo
  require (total = expected) (.custom .rebaseMismatch)

/-- Overwrite the total weight of the stakes. -/
def processRebaseTotalStaked (expected newValue : ℕ)
    (signerInfo configInfo treasuryInfo : AccountInfo) (s : State) : Result State := do
  checkRebase signerInfo configInfo treasuryInfo s.treasury.totalStaked expected s
  return { s with treasury := { s.treasury with totalStaked := newValue } }

/-- Overwrite the total unrefined GODL. -/
def processRebaseTotalUnclaimed (expected newValue : ℕ)
    (signerInfo configInfo treasuryInfo : AccountInfo) (s : State) : Result State := do
  checkRebase signerInfo configInfo treasuryInfo s.treasury.totalUnclaimed expected s
  return { s with treasury := { s.treasury with totalUnclaimed := newValue } }

/-- Only the board logs, and it does so in calls that the program makes to itself. -/
def processLog (signerInfo : AccountInfo) (s : State) : Result State := do
  checkSigner signerInfo
  s.asSingleton .board signerInfo
  return s

end Godl
