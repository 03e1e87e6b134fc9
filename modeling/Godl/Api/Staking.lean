import Godl.Api.Game

/-!
# The accounts of the stakers

A v1 stake weighs as much as its balance.  A v2 stake is locked for a while and
weighs its balance times a multiplier, on one of two curves, with a boost for a
staked NFT.  Both accrue their share of what is buried lazily: the treasury keeps
a cumulative rewards factor, and each stake remembers the factor it saw last.

## Main definitions

* `Stake`, `StakeV2` — the accounts.
* `isqrtU128`, `effectiveMultiplier` — the square-root curve.
* `StakeV2.weightedUnits` — the weight.
* `StakeV2.updateRewards` — the lazy share.
-/

namespace Godl

open Lib

/-- A stake of the first version. -/
structure Stake where
  authority : Pubkey
  balance : ℕ
  lastClaimAt : ℤ
  lastDepositAt : ℤ
  lastWithdrawAt : ℤ
  rewardsFactor : Numeric
  rewards : ℕ
  lifetimeRewards : ℕ
deriving DecidableEq

namespace Stake

/-- The address of the stake account. -/
def pda (s : Stake) : Pubkey := .stakePda s.authority

/-- Settle the rewards accrued since the last update, weighted by the balance. -/
def updateRewards (s : Stake) (treasury : Treasury) : Result Stake := do
  if s.rewardsFactor < treasury.stakeRewardsFactor then
    let accumulated := Fixed.sub treasury.stakeRewardsFactor s.rewardsFactor
    let personal ← Fixed.mul overflow accumulated (Fixed.ofNat s.balance)
    let personal ← Fixed.floor overflow personal
    let rewards ← addU64 overflow s.rewards personal
    let lifetime ← addU64 overflow s.lifetimeRewards personal
    return { s with
      rewards := rewards
      lifetimeRewards := lifetime
      rewardsFactor := treasury.stakeRewardsFactor }
  else
    return { s with rewardsFactor := treasury.stakeRewardsFactor }

/-- Take up to `amount` of the rewards. -/
def claim (s : Stake) (amount : ℕ) (clock : Clock) (treasury : Treasury) :
    Result (ℕ × Stake) := do
  let s ← s.updateRewards treasury
  let amount := min s.rewards amount
  return (amount, { s with rewards := s.rewards - amount, lastClaimAt := clock.unixTimestamp })

/-- Take up to `amount` of the balance. -/
def withdraw (s : Stake) (amount : ℕ) (clock : Clock) (treasury : Treasury) :
    Result (ℕ × Stake × Treasury) := do
  let s ← s.updateRewards treasury
  let amount := min s.balance amount
  let totalStaked ← subU64 overflow treasury.totalStaked amount
  return (amount,
    { s with balance := s.balance - amount, lastWithdrawAt := clock.unixTimestamp },
    { treasury with totalStaked := totalStaked })

end Stake

/-! ## The square-root curve -/

/-- The values of an unsigned 128-bit word. -/
abbrev u128Bound : ℕ := 2 ^ 128

/-- Newton's iteration from above: stop as soon as the next guess is no smaller. -/
def isqrtLoop (n x : ℕ) : Result ℕ :=
  if x = 0 then .error (.panic .divisionByZero)
  else if u128Bound ≤ x + n / x then .error overflow
  else if x ≤ (x + n / x) / 2 then .ok x
  else isqrtLoop n ((x + n / x) / 2)
termination_by x

/-- The number of bits of a positive number, `128 - leading_zeros` of a 128-bit word. -/
def bitLength (n : ℕ) : ℕ := Nat.log2 n + 1

/-- The integer square root.  The first guess is a power of two above the root. -/
def isqrtU128 (n : ℕ) : Result ℕ :=
  if n = 0 then .ok 0
  else if 128 ≤ (bitLength n + 1) / 2 then .error overflow
  else isqrtLoop n (2 ^ ((bitLength n + 1) / 2))

/-- The square root of a multiplier, in the multiplier's own scale. -/
def effectiveMultiplier (multiplier : ℕ) : Result ℕ := do
  let r ← isqrtU128 (multiplier * stakeMultiplierScale)
  return r % u64Bound

/-- A stake of the second version. -/
structure StakeV2 where
  id : ℕ
  authority : Pubkey
  balance : ℕ
  lastClaimAt : ℤ
  lastDepositAt : ℤ
  lastWithdrawAt : ℤ
  rewardsFactor : Numeric
  rewards : ℕ
  lifetimeRewards : ℕ
  multiplier : ℕ
  lockDuration : ℤ
  executor : Pubkey
  createdAt : ℤ
  isNftStaked : ℕ
  weightVersion : ℕ
deriving DecidableEq

/-- Move the total by what one stake's weight changed. -/
def moveTotalStaked (treasury : Treasury) (prevUnits newUnits : ℕ) : Result Treasury := do
  if prevUnits ≤ newUnits then
    let total ← addU64 (.custom .stakeOverflow) treasury.totalStaked (newUnits - prevUnits)
    return { treasury with totalStaked := total }
  else
    let total ← subU64 (.custom .stakeOverflow) treasury.totalStaked (prevUnits - newUnits)
    return { treasury with totalStaked := total }

namespace StakeV2

/-- The canonical address of a stake account with this authority and id. -/
def pda (s : StakeV2) : Pubkey := .stakeV2Pda s.authority s.id

/-- The content of a freshly created stake account. -/
def zeroed : StakeV2 where
  id := 0
  authority := Pubkey.default
  balance := 0
  lastClaimAt := 0
  lastDepositAt := 0
  lastWithdrawAt := 0
  rewardsFactor := Fixed.zero
  rewards := 0
  lifetimeRewards := 0
  multiplier := 0
  lockDuration := 0
  executor := Pubkey.default
  createdAt := 0
  isNftStaked := 0
  weightVersion := 0

/-- The multiplier applied to the weight: version 0 is linear, every other the root. -/
def getEffectiveMultiplier (s : StakeV2) : Result ℕ :=
  if s.weightVersion = 0 then .ok s.multiplier else effectiveMultiplier s.multiplier

/-- An amount times the multiplier, rounded down. -/
def applyMultiplier (s : StakeV2) (amount : ℕ) : Result ℕ := do
  let multiplier ← s.getEffectiveMultiplier
  if amount = 0 ∨ multiplier = 0 then
    return 0
  else if u64Bound ≤ amount * multiplier / stakeMultiplierScale then
    throw (.custom .stakeOverflow)
  else
    return amount * multiplier / stakeMultiplierScale

/-- The weight of the stake. -/
def weightedUnits (s : StakeV2) : Result ℕ := do
  let base ← s.applyMultiplier s.balance
  if s.isNftStaked ≠ 0 then
    if u64Bound ≤ base * nftBoostNumerator / nftBoostDenominator then
      throw (.custom .stakeOverflow)
    else
      return base * nftBoostNumerator / nftBoostDenominator
  else
    return base

/-- Settle the rewards accrued since the last update, weighted by the current weight. -/
def updateRewards (s : StakeV2) (treasury : Treasury) : Result StakeV2 := do
  if s.rewardsFactor < treasury.stakeRewardsFactor then
    let accumulated := Fixed.sub treasury.stakeRewardsFactor s.rewardsFactor
    let units ← s.weightedUnits
    let personal ← Fixed.mul overflow accumulated (Fixed.ofNat units)
    let personal ← Fixed.floor overflow personal
    let rewards ← addU64 (.custom .stakeOverflow) s.rewards personal
    let lifetime ← addU64 (.custom .stakeOverflow) s.lifetimeRewards personal
    return { s with
      rewards := rewards
      lifetimeRewards := lifetime
      rewardsFactor := treasury.stakeRewardsFactor }
  else
    return { s with rewardsFactor := treasury.stakeRewardsFactor }

/-- Take up to `amount` of the rewards. -/
def claim (s : StakeV2) (amount : ℕ) (clock : Clock) (treasury : Treasury) :
    Result (ℕ × StakeV2) := do
  let s ← s.updateRewards treasury
  let amount := min s.rewards amount
  return (amount, { s with rewards := s.rewards - amount, lastClaimAt := clock.unixTimestamp })

/-- Add up to `amount`, no more than the sender holds, to the balance. -/
def deposit (s : StakeV2) (amount : ℕ) (clock : Clock) (treasury : Treasury)
    (senderAmount : ℕ) : Result (ℕ × StakeV2 × Treasury) := do
  let s ← s.updateRewards treasury
  let amount := min senderAmount amount
  let prevUnits ← s.weightedUnits
  let balance ← addU64 (.custom .stakeOverflow) s.balance amount
  let s := { s with balance := balance, lastDepositAt := clock.unixTimestamp }
  let newUnits ← s.weightedUnits
  let treasury ← moveTotalStaked treasury prevUnits newUnits
  return (amount, s, treasury)

/-- Take up to `amount` of the balance. -/
def withdraw (s : StakeV2) (amount : ℕ) (clock : Clock) (treasury : Treasury) :
    Result (ℕ × StakeV2 × Treasury) := do
  let s ← s.updateRewards treasury
  let amount := min s.balance amount
  let prevUnits ← s.weightedUnits
  let s := { s with balance := s.balance - amount, lastWithdrawAt := clock.unixTimestamp }
  let newUnits ← s.weightedUnits
  let treasury ← moveTotalStaked treasury prevUnits newUnits
  return (amount, s, treasury)

/-- Settle, make a change that keeps balance and rewards, and move the total by what
the change did to the weight. -/
def reweigh (s : StakeV2) (treasury : Treasury) (change : StakeV2 → StakeV2) :
    Result (StakeV2 × Treasury) := do
  let s ← s.updateRewards treasury
  let prevUnits ← s.weightedUnits
  let newUnits ← (change s).weightedUnits
  let treasury ← moveTotalStaked treasury prevUnits newUnits
  return (change s, treasury)

/-- Mark the NFT as staked. -/
def stakeNft (s : StakeV2) (treasury : Treasury) : Result (StakeV2 × Treasury) :=
  if s.isNftStaked ≠ 0 then .error (.custom .nftAlreadyStaked)
  else s.reweigh treasury fun s => { s with isNftStaked := 1 }

/-- Mark the NFT as returned. -/
def unstakeNft (s : StakeV2) (treasury : Treasury) : Result (StakeV2 × Treasury) :=
  if s.isNftStaked = 0 then .error (.custom .nftNotStaked)
  else s.reweigh treasury fun s => { s with isNftStaked := 0 }

/-- Move the stake from the linear curve to the square root; a stake that is there
already stays as it is. -/
def migrateWeight (s : StakeV2) (treasury : Treasury) : Result (StakeV2 × Treasury) :=
  if s.weightVersion ≠ 0 then .ok (s, treasury)
  else s.reweigh treasury fun s => { s with weightVersion := 1 }

end StakeV2

end Godl
