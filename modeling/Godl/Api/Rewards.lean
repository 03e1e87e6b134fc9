import Godl.Api.Game

/-!
# The gold and OTC accounts

XAUt0 bought with the SOL motherlode is shared among the holders of unrefined
GODL through a cumulative factor in the gold vault; each miner's extended account
remembers the factor it saw last.

## Main definitions

* `GoldVault`, `MinerExtended`, `OtcTreasury`, `OtcUser` — the accounts.
* `GoldVault.distribute`, `MinerExtended.updateRewards` — the two ends of the share.
* `Var` — the account of the entropy program that a reset reads.
-/

namespace Godl

open Lib

/-- The singleton that books the gold rewards. -/
structure GoldVault where
  xautRewardsFactor : Numeric
  pendingXaut : ℕ
  totalXautDistributed : ℕ
  totalXautClaimed : ℕ
  totalSolSwapped : ℕ
deriving DecidableEq

/-- Credit `xaut` and everything pending to the factor, split across the unrefined
GODL; when there is none, park the amount. -/
def GoldVault.distribute (v : GoldVault) (xaut totalUnclaimed : ℕ) :
    Result (ℕ × GoldVault) := do
  let amount ← addU64 .arithmeticOverflow v.pendingXaut xaut
  if amount = 0 then
    return (0, v)
  else if totalUnclaimed = 0 then
    return (0, { v with pendingXaut := amount })
  else
    let scaled ← mulU64 .arithmeticOverflow amount goldFactorScale
    let share ← Fixed.ofFraction (.panic .divisionByZero) scaled totalUnclaimed
    let factor ← Fixed.add overflow v.xautRewardsFactor share
    let distributed ← addU64 .arithmeticOverflow v.totalXautDistributed amount
    return (amount, { v with
      xautRewardsFactor := factor
      pendingXaut := 0
      totalXautDistributed := distributed })

/-- The gold rewards of one miner. -/
structure MinerExtended where
  authority : Pubkey
  xautRewardsFactor : Numeric
  xautRewards : ℕ
  lifetimeXaut : ℕ
deriving DecidableEq

namespace MinerExtended

/-- The address of the extended account. -/
def pda (e : MinerExtended) : Pubkey := .minerExtendedPda e.authority

/-- A fresh account: nothing accrued, the factor as of now. -/
def init (authority : Pubkey) (v : GoldVault) : MinerExtended where
  authority := authority
  xautRewardsFactor := v.xautRewardsFactor
  xautRewards := 0
  lifetimeXaut := 0

/-- Accrue what was distributed since the last update on `unrefined` grams. -/
def updateRewards (e : MinerExtended) (v : GoldVault) (unrefined : ℕ) :
    Result MinerExtended := do
  if e.xautRewardsFactor < v.xautRewardsFactor then
    let accumulated := Fixed.sub v.xautRewardsFactor e.xautRewardsFactor
    let weight ← Fixed.ofFraction (.panic .divisionByZero) unrefined goldFactorScale
    let personal ← Fixed.mul overflow accumulated weight
    let personal ← Fixed.floor overflow personal
    let rewards ← addU64 overflow e.xautRewards personal
    let lifetime ← addU64 overflow e.lifetimeXaut personal
    return { e with
      xautRewards := rewards
      lifetimeXaut := lifetime
      xautRewardsFactor := v.xautRewardsFactor }
  else
    return { e with xautRewardsFactor := v.xautRewardsFactor }

/-- Take the claimable balance. -/
def claim (e : MinerExtended) : ℕ × MinerExtended :=
  (e.xautRewards, { e with xautRewards := 0 })

end MinerExtended

/-- The singleton with the OTC desk's funds. -/
structure OtcTreasury where
  solBalance : ℕ
  godlBalance : ℕ
deriving DecidableEq

/-- What one user traded with the OTC desk. -/
structure OtcUser where
  authority : Pubkey
  totalSolIn : ℕ
  totalGodlOut : ℕ
  totalGodlBonus : ℕ
deriving DecidableEq

/-- The address of the OTC user account. -/
def OtcUser.pda (u : OtcUser) : Pubkey := .otcUserPda u.authority

/-- A variable of the entropy program. -/
structure Var where
  authority : Pubkey
  slotHash : Hash
  seed : Hash
  value : Hash
  samples : ℕ
deriving DecidableEq

end Godl
