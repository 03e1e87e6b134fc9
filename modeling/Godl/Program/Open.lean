import Godl.Chain

/-!
# Accounts that several handlers open

A miner account and its extended account come into being wherever they are first
needed.  Every handler that changes a miner's unrefined GODL first settles the miner's
gold rewards on the old amount.

## Main definitions

* `openMiner` — a miner account, created when it is missing.
* `loadOrCreateMinerExtended` — the extended account, created on demand.
* `syncGoldRewards` — settle the gold rewards.
-/

namespace Godl

open Lib

/-- The token programs that most handlers are handed. -/
abbrev checkTokenPrograms (systemProgram tokenProgram associatedTokenProgram : AccountInfo) :
    Result Unit := do
  checkProgram systemProgram systemProgramId
  checkProgram tokenProgram splTokenId
  checkProgram associatedTokenProgram associatedTokenProgramId

/-- The miner of `authority`, created when it is missing. -/
def openMiner (e : ProgramError) (minerInfo : AccountInfo) (authority : Pubkey)
    (payer : AccountInfo) (s : State) : Result (Miner × State) :=
  if s.dataIsEmpty minerInfo.key then do
    let s ← s.createAccount minerInfo minerSize payer
    return ({ Miner.zeroed with authority := authority }, s)
  else do
    let miner ← s.load s.miners minerInfo.key
    require (miner.authority = authority) e
    return (miner, s)

/-- Load a miner's extended account, or create it when `create` is set.  Without it
there is nothing to settle, and the caller sees `none`. -/
def loadOrCreateMinerExtended (minerExtendedInfo : AccountInfo) (authority : Pubkey)
    (payer : AccountInfo) (create : Bool) (s : State) :
    Result (Option MinerExtended × State) := do
  checkWritable minerExtendedInfo
  checkSeeds minerExtendedInfo (.minerExtendedPda authority)
  if s.dataIsEmpty minerExtendedInfo.key then
    if create then
      let s ← s.createAccount minerExtendedInfo minerExtendedSize payer
      let extended := MinerExtended.init authority s.goldVault
      return (some extended, { s with minersExtended := s.minersExtended.put extended })
    else
      return (none, s)
  else
    let extended ← s.load s.minersExtended minerExtendedInfo.key
    require (extended.authority = authority) .invalidAccountData
    return (some extended, s)

/-- Settle the gold a miner accrued on its current unrefined GODL. -/
def syncGoldRewards (extended : Option MinerExtended) (miner : Miner) (s : State) :
    Result State :=
  match extended with
  | some extended => do
      require (extended.authority = miner.authority) (.panic .minerExtendedAuthorityMismatch)
      let extended ← extended.updateRewards s.goldVault miner.rewardsGodl
      return { s with minersExtended := s.minersExtended.put extended }
  | none => do
      require (miner.rewardsGodl = 0) (.panic .minerExtendedAbsent)
      return s

/-- The gold vault is where it belongs. -/
abbrev checkGoldVault (goldVaultInfo : AccountInfo) (s : State) : Result Unit := do
  checkSeeds goldVaultInfo .goldVaultPda
  s.asSingleton .goldVault goldVaultInfo

end Godl
