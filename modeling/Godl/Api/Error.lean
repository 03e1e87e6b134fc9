import Godl.Lib.Outcome

/-!
# Errors

An instruction that fails changes nothing and returns a `ProgramError`: a code of
the program's own, one of the standard codes, or an abort.  The program is built
with overflow checks, so an arithmetic overflow is an abort like a failed
assertion.
-/

namespace Godl

/-- The program's own error codes, in the order of their numbers (from 0). -/
inductive GodlError
  | amountTooSmall
  | notAuthorized
  | invalidReferrerAccount
  | invalidLockDuration
  | stakeLocked
  | stakeUnlocked
  | stakeV2NotReleased
  | stakeOverflow
  | alreadyDeployedThisRound
  | stakeAlreadyExists
  | nftAlreadyStaked
  | nftNotStaked
  | invalidCollection
  | insufficientOtcGodlBalance
  | otcQuoteExpired
  | rebaseMismatch
  | stakeNotEmpty
  | stakeNotPhantom
  | mergeSameStake
  | stakeV1Deprecated
  | goldSlippageExceeded
  | insufficientMotherlodeBalance
  | legacyCheckpointExpired
  | goldDistributionLocked
  | minerExtendedMissing
  | legacyDeployExpired
  | invalidProtocolConfig
deriving DecidableEq, Repr

/-- The places where the program aborts instead of returning an error. -/
inductive Abort
  /-- Arithmetic overflow or underflow, caught by the overflow checks. -/
  | overflow
  /-- Division by zero. -/
  | divisionByZero
  /-- A slice or array index, or a slice split, out of range. -/
  | outOfBounds
  /-- `unwrap` on a value that is missing. -/
  | unwrap
  /-- "Miner has not checkpointed" -/
  | minerNotCheckpointed
  /-- "Invalid round deployed amount" -/
  | invalidRoundDeployedAmount
  /-- "Round total deployed should be zero." -/
  | roundTotalDeployedNotZero
  /-- "Miner does not have sufficient funds for rent and rewards" -/
  | minerInsufficientFunds
  /-- "Miner extended account authority mismatch" -/
  | minerExtendedAuthorityMismatch
  /-- "Miner has unrefined GODL but no extended account" -/
  | minerExtendedAbsent
  /-- The reset's check that tracked outflows do not exceed the total deployed. -/
  | outflowsExceedDeployed
  /-- An assertion about a token balance or an amount that fails. -/
  | assertion
deriving DecidableEq, Repr

/-- What a failed instruction reports. -/
inductive ProgramError
  | custom (code : GodlError)
  | invalidArgument
  | invalidInstructionData
  | invalidAccountData
  | invalidAccountOwner
  | accountAlreadyInitialized
  | uninitializedAccount
  | notEnoughAccountKeys
  | missingRequiredSignature
  | incorrectProgramId
  | invalidSeeds
  | insufficientFunds
  | arithmeticOverflow
  | illegalOwner
  | panic (site : Abort)
deriving DecidableEq, Repr

instance : Coe GodlError ProgramError := ⟨.custom⟩

/-- The outcome of a computation of the program. -/
abbrev Result := Except ProgramError

/-- The error of an arithmetic step written without a check of its own. -/
abbrev overflow : ProgramError := .panic .overflow

end Godl
