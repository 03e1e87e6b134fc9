import Godl.Lib.FixedPoint

/-!
# Constants

Token amounts are in indivisible units: grams of GODL, lamports of SOL and base
units of XAUt0.  Times are seconds and slots.
-/

namespace Godl

/-- The fixed-point number of the rewards factors: 48 fractional bits. -/
abbrev Numeric := Lib.Fixed 48

/-- One GODL. -/
abbrev oneGodl : ℕ := 10 ^ 11

/-- One minute, in seconds. -/
abbrev oneMinute : ℤ := 60

/-- One hour, in seconds. -/
abbrev oneHour : ℤ := 60 * oneMinute

/-- One day, in seconds. -/
abbrev oneDay : ℤ := 24 * oneHour

/-- One minute, in slots. -/
abbrev oneMinuteSlots : ℕ := 150

/-- One hour, in slots. -/
abbrev oneHourSlots : ℕ := 60 * oneMinuteSlots

/-- Twelve hours, in slots. -/
abbrev twelveHoursSlots : ℕ := 12 * oneHourSlots

/-- One day, in slots. -/
abbrev oneDaySlots : ℕ := 24 * oneHourSlots

/-- The default number of mining slots in one round. -/
abbrev roundSlotsDefault : ℕ := oneMinuteSlots

/-- The default number of slots between two rounds. -/
abbrev intermissionSlotsDefault : ℕ := 25

/-- The maximum supply of GODL. -/
abbrev maxSupply : ℕ := oneGodl * 2100000

/-- The maximum GODL minted per round. -/
abbrev maxGodlPerRound : ℕ := oneGodl * 40

/-- Lamports in one SOL. -/
abbrev lamportsPerSol : ℕ := 1000000000

/-- Admin fee, in basis points. -/
abbrev adminFeeBps : ℕ := 50

/-- SOL motherlode fee, in basis points. -/
abbrev solMotherlodeBps : ℕ := 100

/-- Share of a SOL motherlode withdrawal that goes to the rush SOL vault, in basis points. -/
abbrev rushSolMotherlodeBps : ℕ := 1000

/-- Referral share, in basis points. -/
abbrev referralBps : ℕ := 50

/-- Stakers' share of a bury, in basis points. -/
abbrev stakersBps : ℕ := 300

/-- Admin share of a bury, in basis points. -/
abbrev adminBps : ℕ := 0

/-- Denominator of all basis-point shares. -/
abbrev denominatorBps : ℕ := 10000

/-- The fee set aside to pay whoever checkpoints a miner late. -/
abbrev checkpointFee : ℕ := 10000

/-- The flat reward for cranking the permissionless reset, taken out of the admin fee. -/
abbrev crankRewardLamports : ℕ := lamportsPerSol / 1000

/-- NFT boost: eleven tenths. -/
abbrev nftBoostNumerator : ℕ := 11

/-- NFT boost: eleven tenths. -/
abbrev nftBoostDenominator : ℕ := 10

/-- The longest lock, in seconds. -/
abbrev maxLockDuration : ℤ := 2 * 365 * oneDay

/-- The largest stake multiplier. -/
abbrev maxStakeMultiplier : ℕ := 20

/-- Fixed-point scale of the stake multipliers. -/
abbrev stakeMultiplierScale : ℕ := 1000000000

/-- Scale of the gold rewards factor. -/
abbrev goldFactorScale : ℕ := 1000000

/-- From this timestamp on the legacy checkpoint and deploy are refused and gold
distributions are accepted. -/
abbrev legacyInstructionExpiryTs : ℤ := 1789839440 + 90 * oneMinute

end Godl
