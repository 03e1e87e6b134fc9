import Godl.Program.Open

/-!
# Gold rewards

The gold vault shares XAUt0 among the holders of unrefined GODL.

## Main definitions

* `processBuyGold`, `processDepositGold` — distributions.
* `processClaimGold` — the payout.
-/

namespace Godl

open Lib

/-- Create the gold vault and its two token accounts. -/
def processInitializeGoldVault (signerInfo goldVaultInfo goldVaultSolInfo goldVaultXautInfo
    solMintInfo xautMintInfo systemProgram tokenProgram associatedTokenProgram : AccountInfo)
    (s : State) : Result State := do
  checkSigner signerInfo
  checkAddress signerInfo deployerAddress
  s.checkEmpty goldVaultInfo
  checkWritable goldVaultInfo
  checkSeeds goldVaultInfo .goldVaultPda
  checkWritable goldVaultSolInfo
  checkWritable goldVaultXautInfo
  checkAddress solMintInfo solMint
  checkAddress xautMintInfo xautMint
  checkProgram systemProgram systemProgramId
  checkProgram tokenProgram splTokenId
  checkProgram associatedTokenProgram associatedTokenProgramId
  let s ← s.createAccount goldVaultInfo goldVaultSize signerInfo
  let s := { s with
    opened := Function.update s.opened .goldVault true
    goldVault := ⟨Fixed.zero, 0, 0, 0, 0⟩ }
  let s ← s.openTokenAccount goldVaultSolInfo .goldVaultPda solMint signerInfo
  s.openTokenAccount goldVaultXautInfo .goldVaultPda xautMint signerInfo

/-- Create a miner's extended account. -/
def processCreateMinerExtended (signerInfo minerInfo minerExtendedInfo goldVaultInfo
    systemProgram : AccountInfo) (s : State) : Result State := do
  checkSigner signerInfo
  let miner ← s.load s.miners minerInfo.key
  checkSeeds minerInfo (.minerPda miner.authority)
  checkGoldVault goldVaultInfo s
  checkProgram systemProgram systemProgramId
  let (_, s) ← loadOrCreateMinerExtended minerExtendedInfo miner.authority signerInfo true s
  return s

/-- Send SOL of the motherlode to the rush vault and to the gold vault's wrapped SOL account. -/
def processPreBuyGold (clock : Clock) (amount : ℕ) (signerInfo configInfo solMotherlodeInfo
    goldVaultInfo goldVaultSolInfo systemProgram rushSolVaultInfo : AccountInfo) (s : State) :
    Result State := do
  require (legacyInstructionExpiryTs ≤ clock.unixTimestamp) (.custom .goldDistributionLocked)
  checkSigner signerInfo
  s.asConfig configInfo
  require (s.config.buryAuthority = signerInfo.key) .invalidAccountData
  checkWritable solMotherlodeInfo
  checkSeeds solMotherlodeInfo .solMotherlodePda
  s.asSingleton .solMotherlode solMotherlodeInfo
  checkGoldVault goldVaultInfo s
  checkWritable goldVaultSolInfo
  let _ ← s.asAssociatedTokenAccount goldVaultSolInfo goldVaultInfo.key solMint
  checkProgram systemProgram systemProgramId
  checkWritable rushSolVaultInfo
  checkAddress rushSolVaultInfo rushSolVault
  require (amount ≠ 0) (.custom .amountTooSmall)
  require (amount ≤ s.solMotherlode.amount) (.custom .insufficientMotherlodeBalance)
  require (minimumBalance solMotherlodeSize + amount ≤ s.lamports solMotherlodeInfo.key)
    (.custom .insufficientMotherlodeBalance)
  let (rushAmount, goldAmount) ←
    fromOption (SolMotherlode.splitPayout amount) .arithmeticOverflow
  let s ← s.send solMotherlodeInfo.key rushSolVaultInfo.key rushAmount
  let s ← s.send solMotherlodeInfo.key goldVaultSolInfo.key goldAmount
  return { s with solMotherlode := ⟨s.solMotherlode.amount - amount⟩ }

/-- Swap the vault's SOL into XAUt0 and distribute it to the holders of unrefined GODL. -/
def processBuyGold (clock : Clock) (minXautOut : ℕ) (signerInfo boardInfo configInfo
    treasuryInfo goldVaultInfo goldVaultSolInfo goldVaultXautInfo xautMintInfo tokenProgram
    godlProgram : AccountInfo) (cpi : Cpi) (s : State) : Result State := do
  require (legacyInstructionExpiryTs ≤ clock.unixTimestamp) (.custom .goldDistributionLocked)
  checkSigner signerInfo
  s.asSingleton .board boardInfo
  s.asConfig configInfo
  require (s.config.buryAuthority = signerInfo.key) .invalidAccountData
  s.asSingleton .treasury treasuryInfo
  checkWritable goldVaultInfo
  checkGoldVault goldVaultInfo s
  checkWritable goldVaultSolInfo
  let _ ← s.asAssociatedTokenAccount goldVaultSolInfo goldVaultInfo.key solMint
  checkWritable goldVaultXautInfo
  let _ ← s.asAssociatedTokenAccount goldVaultXautInfo goldVaultInfo.key xautMint
  checkAddress xautMintInfo xautMint
  checkProgram tokenProgram splTokenId
  checkProgram godlProgram godlApiId
  let s ← s.syncNative goldVaultSolInfo.key
  let preSwapSolBalance ← s.asAssociatedTokenAccount goldVaultSolInfo goldVaultInfo.key solMint
  let preSwapXautBalance ←
    s.asAssociatedTokenAccount goldVaultXautInfo goldVaultInfo.key xautMint
  let preSwapVaultLamports := s.lamports goldVaultInfo.key
  require (0 < preSwapSolBalance) (.panic .assertion)
  let swap ← fromOption cpi.swap .invalidInstructionData
  -- The GODL supply is none of this swap's business.
  let s := s.applySwap goldVaultInfo.key goldVaultSolInfo.key goldVaultXautInfo.key
    { swap with supply := s.mintSupply }
  require (s.lamports goldVaultInfo.key = preSwapVaultLamports) (.panic .assertion)
  require (swap.solBalance = 0) (.panic .assertion)
  require (preSwapXautBalance ≤ swap.tokenBalance) (.panic .assertion)
  let xautAmount := swap.tokenBalance - preSwapXautBalance
  require (minXautOut ≤ xautAmount ∧ xautAmount ≠ 0) (.custom .goldSlippageExceeded)
  let (distributed, goldVault) ← s.goldVault.distribute xautAmount s.treasury.totalUnclaimed
  let totalSolSwapped ←
    addU64 .arithmeticOverflow goldVault.totalSolSwapped preSwapSolBalance
  let s := { s with goldVault := { goldVault with totalSolSwapped := totalSolSwapped } }
  return s.programLog (.buyGold preSwapSolBalance xautAmount distributed
    s.treasury.totalUnclaimed clock.unixTimestamp)

/-- Distribute XAUt0 of the bury authority to the holders of unrefined GODL. -/
def processDepositGold (clock : Clock) (amount : ℕ) (signerInfo boardInfo configInfo
    treasuryInfo goldVaultInfo signerXautInfo goldVaultXautInfo xautMintInfo tokenProgram
    godlProgram : AccountInfo) (s : State) : Result State := do
  require (legacyInstructionExpiryTs ≤ clock.unixTimestamp) (.custom .goldDistributionLocked)
  checkSigner signerInfo
  s.asSingleton .board boardInfo
  s.asConfig configInfo
  require (s.config.buryAuthority = signerInfo.key) .invalidAccountData
  s.asSingleton .treasury treasuryInfo
  checkWritable goldVaultInfo
  checkGoldVault goldVaultInfo s
  checkWritable signerXautInfo
  let _ ← s.asAssociatedTokenAccount signerXautInfo signerInfo.key xautMint
  checkWritable goldVaultXautInfo
  let _ ← s.asAssociatedTokenAccount goldVaultXautInfo goldVaultInfo.key xautMint
  checkAddress xautMintInfo xautMint
  checkProgram tokenProgram splTokenId
  checkProgram godlProgram godlApiId
  require (amount ≠ 0) (.custom .amountTooSmall)
  let s ← s.transferTokensFrom signerInfo signerXautInfo.key goldVaultXautInfo.key amount
  let (distributed, goldVault) ← s.goldVault.distribute amount s.treasury.totalUnclaimed
  let s := { s with goldVault := goldVault }
  return s.programLog (.buyGold 0 amount distributed s.treasury.totalUnclaimed
    clock.unixTimestamp)

/-- Pay a miner the gold it accrued. -/
def processClaimGold (signerInfo minerInfo minerExtendedInfo goldVaultInfo goldVaultXautInfo
    recipientInfo xautMintInfo systemProgram tokenProgram associatedTokenProgram : AccountInfo)
    (s : State) : Result State := do
  checkSigner signerInfo
  let miner ← s.load s.miners minerInfo.key
  require (miner.authority = signerInfo.key) .invalidAccountData
  checkSeeds minerInfo (.minerPda miner.authority)
  checkWritable goldVaultInfo
  checkGoldVault goldVaultInfo s
  checkWritable goldVaultXautInfo
  let _ ← s.asAssociatedTokenAccount goldVaultXautInfo goldVaultInfo.key xautMint
  checkWritable recipientInfo
  checkAddress xautMintInfo xautMint
  checkProgram systemProgram systemProgramId
  checkProgram tokenProgram splTokenId
  checkProgram associatedTokenProgram associatedTokenProgramId
  let (extended, s) ←
    loadOrCreateMinerExtended minerExtendedInfo miner.authority signerInfo true s
  let extended ← fromOption extended .invalidAccountData
  let extended ← extended.updateRewards s.goldVault miner.rewardsGodl
  let (amount, extended) := extended.claim
  let totalXautClaimed ← addU64 .arithmeticOverflow s.goldVault.totalXautClaimed amount
  let s := { s with
    minersExtended := s.minersExtended.put extended
    goldVault := { s.goldVault with totalXautClaimed := totalXautClaimed } }
  if amount = 0 then
    return s
  else
    let s ← s.openTokenAccount recipientInfo signerInfo.key xautMint signerInfo
    s.transferTokens goldVaultXautInfo.key recipientInfo.key amount

end Godl
