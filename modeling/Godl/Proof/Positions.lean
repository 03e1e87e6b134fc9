import Godl.Api.Staking
import Godl.Api.Rewards
import Godl.Lib.Accrual

/-!
# Stakes, miners and gold accounts as positions

The three lazy rewards of the program are one pattern with different units.  A stake
weighs its weighted units in the pot that burying fills; a miner weighs its unrefined
GODL in the pot of claim fees; its extended account weighs the same GODL, scaled down,
in the pot of gold.  This module reads each account as a `Position` and says what every
operation on it does to the position and to the treasury.

## Main definitions

* `Stake.position`, `StakeV2.position`, `Miner.position`, `MinerExtended.position`.
* `StakeTurn` — what an operation on one stake does to it and to the treasury.
* the `*_spec` lemmas.
-/

namespace Godl

open Lib

/-- The scale of the stakers' and the miners' factor. -/
@[irreducible] def factorScale : ℕ := 2 ^ 48

/-- The scale of the gold factor: the weight has 48 fractional bits of its own. -/
@[irreducible] def goldScale : ℕ := 2 ^ 96

theorem factorScale_eq : factorScale = 2 ^ 48 := by
  unfold factorScale
  rfl

theorem goldScale_eq : goldScale = 2 ^ 96 := by
  unfold goldScale
  rfl

/-! ## Stakes -/

/-- A v1 stake weighs its balance. -/
def Stake.position (x : Stake) : Position := ⟨x.balance, x.rewardsFactor.bits, x.rewards⟩

namespace StakeV2

/-- The weight can be computed. -/
def Weighs (x : StakeV2) : Prop := ∃ n, x.weightedUnits = .ok n

/-- The weight, zero where it cannot be computed. -/
def units (x : StakeV2) : ℕ :=
  match x.weightedUnits with
  | .ok n => n
  | .error _ => 0

/-- A v2 stake weighs its weighted units. -/
def position (x : StakeV2) : Position := ⟨x.units, x.rewardsFactor.bits, x.rewards⟩

theorem units_of_eq {x : StakeV2} {n : ℕ} (h : x.weightedUnits = .ok n) : x.units = n := by
  simp [units, h]

theorem ensures_weightedUnits {x : StakeV2} {Q : ℕ → Prop} (h : x.Weighs → Q x.units) :
    Ensures x.weightedUnits Q := by
  intro n hn
  rw [← units_of_eq hn]
  exact h ⟨n, hn⟩

/-- The weight depends on the balance, the multiplier, the curve and the NFT only. -/
theorem weightedUnits_congr {x y : StakeV2} (hbalance : x.balance = y.balance)
    (hmultiplier : x.multiplier = y.multiplier) (hversion : x.weightVersion = y.weightVersion)
    (hnft : x.isNftStaked = y.isNftStaked) : x.weightedUnits = y.weightedUnits := by
  simp only [weightedUnits, applyMultiplier, getEffectiveMultiplier, hbalance, hmultiplier,
    hversion, hnft]

theorem units_congr {x y : StakeV2} (h : x.weightedUnits = y.weightedUnits) :
    x.units = y.units := by
  simp [units, h]

theorem Weighs.congr {x y : StakeV2} (h : x.weightedUnits = y.weightedUnits) (hx : x.Weighs) :
    y.Weighs := by
  obtain ⟨n, hn⟩ := hx
  exact ⟨n, by rw [← h, hn]⟩

/-- An empty stake without an NFT weighs nothing. -/
theorem units_of_balance_eq_zero {x : StakeV2} (hbalance : x.balance = 0) : x.units = 0 := by
  have hbase : Ensures (x.applyMultiplier x.balance) fun n => n = 0 := by
    simp only [applyMultiplier, ensures_bind]
    intro m _
    simp [hbalance]
  have h : Ensures x.weightedUnits fun n => n = 0 := by
    simp only [weightedUnits, ensures_bind]
    refine Ensures.mono hbase fun n hn => ?_
    subst hn
    by_cases hnft : x.isNftStaked = 0 <;> simp [hnft]
  rcases hu : x.weightedUnits with e | n
  · simp [units, hu]
  · rw [units_of_eq hu]
    exact h n hu

end StakeV2

/-- What an operation that pays `paid` out of one stake's rewards does to the stake and to
the treasury: the total follows the weight, and what is paid was owed. -/
structure StakeTurn (p : Position) (t : Treasury) (p' : Position) (t' : Treasury)
    (paid : ℕ) : Prop where
  treasury : t' = { t with totalStaked := t'.totalStaked }
  total : t'.totalStaked + p.units = t.totalStaked + p'.units
  owed : p'.owed factorScale t.stakeRewardsFactor.bits + paid * factorScale ≤
    p.owed factorScale t.stakeRewardsFactor.bits

namespace StakeTurn

variable {p p' p'' : Position} {t t' t'' : Treasury} {m n : ℕ}

theorem factor (h : StakeTurn p t p' t' n) : t'.stakeRewardsFactor = t.stakeRewardsFactor := by
  rw [h.treasury]

theorem refl (p : Position) (t : Treasury) : StakeTurn p t p t 0 :=
  ⟨rfl, rfl, by omega⟩

theorem trans (h : StakeTurn p t p' t' m) (h' : StakeTurn p' t' p'' t'' n) :
    StakeTurn p t p'' t'' (m + n) := by
  have hF := h.factor
  have htotal := h.total
  have htotal' := h'.total
  have howed := h.owed
  have howed' := h'.owed
  rw [hF] at howed'
  refine ⟨?_, by omega, ?_⟩
  · rw [h'.treasury, h.treasury]
  · rw [Nat.add_mul]
    omega

/-- Settling. -/
theorem settle (p : Position) (t : Treasury) :
    StakeTurn p t (p.settle factorScale t.stakeRewardsFactor.bits) t 0 := by
  refine ⟨rfl, by rw [Position.settle_units], ?_⟩
  have := Position.owed_settle_le factorScale t.stakeRewardsFactor.bits p
  omega

/-- A settled stake changes its weight. -/
theorem reweigh {units units' reward total : ℕ} (htotal : total + units = t.totalStaked + units') :
    StakeTurn ⟨units, t.stakeRewardsFactor.bits, reward⟩ t
      ⟨units', t.stakeRewardsFactor.bits, reward⟩ { t with totalStaked := total } 0 := by
  refine ⟨rfl, htotal, ?_⟩
  simp

/-- A stake pays out a part of its settled rewards. -/
theorem pay (p : Position) (t : Treasury) (h : n ≤ p.reward) :
    StakeTurn p t { p with reward := p.reward - n } t n := by
  refine ⟨rfl, rfl, ?_⟩
  have hmul : (p.reward - n) * factorScale + n * factorScale = p.reward * factorScale := by
    rw [← Nat.add_mul, Nat.sub_add_cancel h]
  simp only [Position.owed]
  omega

end StakeTurn

theorem moveTotalStaked_spec (t : Treasury) (prevUnits newUnits : ℕ) :
    Ensures (moveTotalStaked t prevUnits newUnits) fun t' =>
      ∃ total, t' = { t with totalStaked := total } ∧
        total + prevUnits = t.totalStaked + newUnits := by
  simp only [moveTotalStaked, ensures_ite, ensures_bind, ensures_addU64, ensures_subU64,
    ensures_pure]
  refine ⟨fun hle _ => ⟨_, rfl, ?_⟩, fun hlt hle => ⟨_, rfl, ?_⟩⟩ <;> omega

namespace Stake

/-- Settling a v1 stake settles its position. -/
theorem updateRewards_spec (x : Stake) (t : Treasury) :
    Ensures (x.updateRewards t) fun x' =>
      x'.authority = x.authority ∧ x'.balance = x.balance ∧
      x'.position = x.position.settle factorScale t.stakeRewardsFactor.bits := by
  simp only [updateRewards, ensures_ite, ensures_bind, Fixed.ensures_mul, Fixed.ensures_floor,
    ensures_addU64, ensures_pure]
  refine ⟨fun _ _ _ _ _ => ⟨trivial, trivial, ?_⟩, fun hle => ⟨trivial, trivial, ?_⟩⟩
  · simp only [position, Position.settle, Position.pending, Fixed.bits_ofNat, Fixed.bits_sub,
      Fixed.bits_mul_ofNat, factorScale_eq]
  · rw [Position.settle_of_le (not_lt.1 hle)]
    rfl

/-- A claim pays settled rewards. -/
theorem claim_spec (x : Stake) (amount : ℕ) (clock : Clock) (t : Treasury) :
    Ensures (x.claim amount clock t) fun r =>
      r.2.authority = x.authority ∧ StakeTurn x.position t r.2.position t r.1 := by
  simp only [claim, ensures_bind, ensures_pure]
  refine Ensures.mono (updateRewards_spec x t) fun x' hx' => ?_
  obtain ⟨hauth, _, hpos⟩ := hx'
  refine ⟨hauth, ?_⟩
  have hpay := (StakeTurn.settle x.position t).trans
    (StakeTurn.pay _ t (n := min x'.rewards amount) (by rw [← hpos]; exact Nat.min_le_left _ _))
  rw [Nat.zero_add, ← hpos] at hpay
  exact hpay

/-- A withdrawal settles at the old weight and takes it off the total. -/
theorem withdraw_spec (x : Stake) (amount : ℕ) (clock : Clock) (t : Treasury) :
    Ensures (x.withdraw amount clock t) fun r =>
      r.2.1.authority = x.authority ∧ StakeTurn x.position t r.2.1.position r.2.2 0 := by
  simp only [withdraw, ensures_bind, ensures_subU64, ensures_pure]
  refine Ensures.mono (updateRewards_spec x t) fun x' hx' hle => ?_
  obtain ⟨hauth, _, hpos⟩ := hx'
  refine ⟨hauth, ?_⟩
  have hmark : x'.rewardsFactor.bits = t.stakeRewardsFactor.bits := congrArg Position.mark hpos
  refine (StakeTurn.settle x.position t).trans (n := 0) ?_
  rw [← hpos]
  simp only [position, hmark]
  refine StakeTurn.reweigh ?_
  have := Nat.min_le_left x'.balance amount
  omega

end Stake

namespace StakeV2

variable {x x' : StakeV2} {t t' : Treasury}

/-- What an operation on a v2 stake does to it; a weight that can be computed stays so. -/
structure Turn (x : StakeV2) (t : Treasury) (x' : StakeV2) (t' : Treasury) (paid : ℕ) :
    Prop where
  turn : StakeTurn x.position t x'.position t' paid
  weighs : x.Weighs → x'.Weighs

theorem Turn.refl (x : StakeV2) (t : Treasury) : Turn x t x t 0 :=
  ⟨.refl _ _, fun h => h⟩

theorem Turn.trans {x'' : StakeV2} {t'' : Treasury} {m n : ℕ} (h : Turn x t x' t' m)
    (h' : Turn x' t' x'' t'' n) : Turn x t x'' t'' (m + n) :=
  ⟨h.turn.trans h'.turn, h'.weighs ∘ h.weighs⟩

/-- What neither the weight nor the rewards read may change. -/
theorem Turn.congr {y : StakeV2} {n : ℕ} (h : Turn x t x' t' n)
    (hunits : y.weightedUnits = x'.weightedUnits) (hrewards : y.rewards = x'.rewards)
    (hfactor : y.rewardsFactor = x'.rewardsFactor) : Turn x t y t' n := by
  have hpos : y.position = x'.position := by
    simp only [position, units_congr hunits, hrewards, hfactor]
  exact ⟨hpos ▸ h.turn, fun hx => (h.weighs hx).congr hunits.symm⟩

/-- A turn that leaves the treasury alone is one at every treasury with the same factor. -/
theorem Turn.of_factor {n : ℕ} (h : Turn x t x' t n)
    (hfactor : t'.stakeRewardsFactor = t.stakeRewardsFactor) : Turn x t' x' t' n := by
  have htotal := h.turn.total
  have howed := h.turn.owed
  rw [← hfactor] at howed
  exact ⟨⟨rfl, by omega, howed⟩, h.weighs⟩

/-- The factor a stake saw last is the treasury's. -/
def Settled (x : StakeV2) (t : Treasury) : Prop :=
  x.rewardsFactor.bits = t.stakeRewardsFactor.bits

/-- Settling a v2 stake settles its position and leaves its weight alone. -/
theorem updateRewards_spec (x : StakeV2) (t : Treasury) :
    Ensures (x.updateRewards t) fun x' =>
      x'.weightedUnits = x.weightedUnits ∧ x'.balance = x.balance ∧
      x'.position = x.position.settle factorScale t.stakeRewardsFactor.bits := by
  simp only [updateRewards, ensures_ite, ensures_bind, Fixed.ensures_mul, Fixed.ensures_floor,
    ensures_addU64, ensures_pure]
  refine ⟨fun _ => ensures_weightedUnits fun _ _ _ _ _ => ?_, fun hle => ?_⟩
  · refine ⟨weightedUnits_congr rfl rfl rfl rfl, trivial, ?_⟩
    simp only [position, Position.settle, Position.pending, Fixed.bits_ofNat, Fixed.bits_sub,
      Fixed.bits_mul_ofNat, factorScale_eq]
    congr 1
  · have hsame : ({ x with rewardsFactor := t.stakeRewardsFactor } : StakeV2).weightedUnits =
        x.weightedUnits := weightedUnits_congr rfl rfl rfl rfl
    refine ⟨hsame, trivial, ?_⟩
    rw [Position.settle_of_le (not_lt.1 hle), position, units_congr hsame]
    rfl

/-- Settling as a turn. -/
theorem updateRewards_turn (x : StakeV2) (t : Treasury) :
    Ensures (x.updateRewards t) fun x' =>
      x'.Settled t ∧ x'.weightedUnits = x.weightedUnits ∧ Turn x t x' t 0 := by
  refine Ensures.mono (updateRewards_spec x t) fun x' hx' => ?_
  obtain ⟨hunits, _, hpos⟩ := hx'
  refine ⟨congrArg Position.mark hpos, hunits, ?_, Weighs.congr hunits.symm⟩
  rw [hpos]
  exact StakeTurn.settle _ _

/-- A settled stake is changed without touching its rewards, and the total follows. -/
theorem moveTotalStaked_turn (hx : x.Settled t) (hrewards : x'.rewards = x.rewards)
    (hfactor : x'.rewardsFactor = x.rewardsFactor) (hweighs : x'.Weighs) :
    Ensures (moveTotalStaked t x.units x'.units) fun t' => Turn x t x' t' 0 := by
  refine Ensures.mono (moveTotalStaked_spec t _ _) ?_
  rintro _ ⟨total, rfl, htotal⟩
  refine ⟨?_, fun _ => hweighs⟩
  rw [Settled] at hx
  simp only [position, hrewards, hfactor, hx]
  exact StakeTurn.reweigh htotal

/-- A claim pays settled rewards. -/
theorem claim_spec (x : StakeV2) (amount : ℕ) (clock : Clock) (t : Treasury) :
    Ensures (x.claim amount clock t) fun r =>
      Turn x t r.2 t r.1 := by
  simp only [claim, ensures_bind, ensures_pure]
  refine Ensures.mono (updateRewards_turn x t) fun x' hx' => ?_
  obtain ⟨_, _, hturn⟩ := hx'
  have hunits : ({ x' with
      rewards := x'.rewards - min x'.rewards amount
      lastClaimAt := clock.unixTimestamp } : StakeV2).weightedUnits = x'.weightedUnits :=
    weightedUnits_congr rfl rfl rfl rfl
  have hpay : Turn x' t { x' with
      rewards := x'.rewards - min x'.rewards amount
      lastClaimAt := clock.unixTimestamp } t (min x'.rewards amount) := by
    refine ⟨?_, Weighs.congr hunits.symm⟩
    have h := StakeTurn.pay x'.position t (n := min x'.rewards amount) (Nat.min_le_left _ _)
    simpa only [position, units_congr hunits] using h
  simpa using hturn.trans hpay

/-- A deposit settles at the old weight; the total follows the new one. -/
theorem deposit_spec (x : StakeV2) (amount : ℕ) (clock : Clock) (t : Treasury) (sender : ℕ) :
    Ensures (x.deposit amount clock t sender) fun r => x.Weighs ∧ Turn x t r.2.1 r.2.2 0 := by
  simp only [deposit, ensures_bind, ensures_addU64, ensures_pure]
  refine Ensures.mono (updateRewards_turn x t) fun y hy => ?_
  obtain ⟨hsettled, hunits, hturn⟩ := hy
  refine ensures_weightedUnits fun hold _ => ensures_weightedUnits fun hweighs => ?_
  exact Ensures.mono (moveTotalStaked_turn hsettled rfl rfl hweighs) fun t' h =>
    ⟨hold.congr hunits, hturn.trans h⟩

/-- A withdrawal settles at the old weight; the total follows the new one. -/
theorem withdraw_spec (x : StakeV2) (amount : ℕ) (clock : Clock) (t : Treasury) :
    Ensures (x.withdraw amount clock t) fun r => Turn x t r.2.1 r.2.2 0 := by
  simp only [withdraw, ensures_bind, ensures_pure]
  refine Ensures.mono (updateRewards_turn x t) fun y hy => ?_
  obtain ⟨hsettled, _, hturn⟩ := hy
  refine ensures_weightedUnits fun _ => ensures_weightedUnits fun hweighs => ?_
  exact Ensures.mono (moveTotalStaked_turn hsettled rfl rfl hweighs) fun t' h => hturn.trans h

/-- A change of the weight settles at the old one. -/
theorem reweigh_spec (x : StakeV2) (t : Treasury) (change : StakeV2 → StakeV2)
    (hrewards : ∀ y, (change y).rewards = y.rewards)
    (hfactor : ∀ y, (change y).rewardsFactor = y.rewardsFactor) :
    Ensures (x.reweigh t change) fun r => Turn x t r.1 r.2 0 := by
  simp only [reweigh, ensures_bind, ensures_pure]
  refine Ensures.mono (updateRewards_turn x t) fun y hy => ?_
  obtain ⟨hsettled, _, hturn⟩ := hy
  refine ensures_weightedUnits fun _ => ensures_weightedUnits fun hweighs => ?_
  exact Ensures.mono (moveTotalStaked_turn hsettled (hrewards y) (hfactor y) hweighs)
    fun t' h => hturn.trans h

theorem stakeNft_spec (x : StakeV2) (t : Treasury) :
    Ensures (x.stakeNft t) fun r => Turn x t r.1 r.2 0 := by
  unfold stakeNft
  split
  · simp
  · exact reweigh_spec x t _ (fun _ => rfl) fun _ => rfl

theorem unstakeNft_spec (x : StakeV2) (t : Treasury) :
    Ensures (x.unstakeNft t) fun r => Turn x t r.1 r.2 0 := by
  unfold unstakeNft
  split
  · simp
  · exact reweigh_spec x t _ (fun _ => rfl) fun _ => rfl

theorem migrateWeight_spec (x : StakeV2) (t : Treasury) :
    Ensures (x.migrateWeight t) fun r => Turn x t r.1 r.2 0 := by
  unfold migrateWeight
  split
  · exact ensures_ok.2 (Turn.refl x t)
  · exact reweigh_spec x t _ (fun _ => rfl) fun _ => rfl

end StakeV2

/-! ## Miners -/

namespace Miner

/-- A miner weighs its unrefined GODL. -/
def position (m : Miner) : Position := ⟨m.rewardsGodl, m.rewardsFactor.bits, m.refinedGodl⟩

/-- What the game reads of a miner. -/
structure Wager where
  roundId : ℕ
  checkpointId : ℕ
  deployed : Square → ℕ
  cumulative : Square → ℕ

/-- The wager of a miner. -/
def wager (m : Miner) : Wager := ⟨m.roundId, m.checkpointId, m.deployed, m.cumulative⟩

/-- What the ledger of unrefined GODL reads of a miner. -/
structure Ledger where
  position : Position
  lifetime : ℕ

/-- The ledger entry of a miner. -/
def ledger (m : Miner) : Ledger := ⟨m.position, m.lifetimeRewardsGodl⟩

/-- What settling does to a miner: what it accrues counts as earned. -/
structure Settled (m : Miner) (t : Treasury) (m' : Miner) : Prop where
  position : m'.position = m.position.settle factorScale t.minerRewardsFactor.bits
  lifetime : m'.lifetimeRewardsGodl =
    m.lifetimeRewardsGodl + m.position.pending factorScale t.minerRewardsFactor.bits
  authority : m'.authority = m.authority
  wager : m'.wager = m.wager
  rewardsSol : m'.rewardsSol = m.rewardsSol
  checkpointFee : m'.checkpointFee = m.checkpointFee

theorem Settled.rewardsGodl {m m' : Miner} {t : Treasury} (h : Settled m t m') :
    m'.rewardsGodl = m.rewardsGodl := congrArg Position.units h.position

theorem Settled.refinedGodl {m m' : Miner} {t : Treasury} (h : Settled m t m') :
    m'.refinedGodl = m.refinedGodl + m.position.pending factorScale t.minerRewardsFactor.bits :=
  congrArg Position.reward h.position

theorem updateRewards_spec (m : Miner) (t : Treasury) :
    Ensures (m.updateRewards t) fun m' => Settled m t m' := by
  simp only [updateRewards, ensures_ite, ensures_bind, Fixed.ensures_mul, Fixed.ensures_floor,
    ensures_addU64, ensures_pure]
  refine ⟨fun _ _ _ _ _ => ?_, fun hle => ?_⟩
  · refine ⟨?_, ?_, rfl, rfl, rfl, rfl⟩
    · simp only [position, Position.settle, Position.pending, Fixed.bits_ofNat, Fixed.bits_sub,
        Fixed.bits_mul_ofNat, factorScale_eq]
    · simp only [position, Position.pending, Fixed.bits_ofNat, Fixed.bits_sub,
        Fixed.bits_mul_ofNat, factorScale_eq]
  · refine ⟨?_, ?_, rfl, rfl, rfl, rfl⟩
    · rw [Position.settle_of_le (not_lt.1 hle)]
      rfl
    · rw [Position.pending_of_le (not_lt.1 hle), Nat.add_zero]

/-- What a claim does to the miner and to the treasury: everything the miner holds is paid
but for the fee, which stays as the refined GODL of the others. -/
structure Claimed (m : Miner) (t : Treasury) (amount : ℕ) (m' : Miner) (t' : Treasury)
    (fee : ℕ) : Prop where
  fee_le : fee ≤ m.rewardsGodl
  amount : amount + fee =
    m.refinedGodl + m.position.pending factorScale t.minerRewardsFactor.bits + m.rewardsGodl
  totalUnclaimed : t'.totalUnclaimed + m.rewardsGodl = t.totalUnclaimed
  totalRefined : t'.totalRefined + (m.refinedGodl +
    m.position.pending factorScale t.minerRewardsFactor.bits) = t.totalRefined + fee
  factor : t'.minerRewardsFactor.bits =
    t.minerRewardsFactor.bits + fee * factorScale / t'.totalUnclaimed
  treasury : t' = { t with
    totalUnclaimed := t'.totalUnclaimed
    totalRefined := t'.totalRefined
    minerRewardsFactor := t'.minerRewardsFactor }
  rewardsGodl : m'.rewardsGodl = 0
  refinedGodl : m'.refinedGodl = 0
  authority : m'.authority = m.authority
  wager : m'.wager = m.wager

theorem claimGodl_spec (m : Miner) (clock : Clock) (t : Treasury) :
    Ensures (m.claimGodl clock t) fun r => ∃ fee, Claimed m t r.1 r.2.1 r.2.2 fee := by
  simp only [claimGodl, ensures_bind, ensures_addU64, ensures_subU64]
  refine Ensures.mono (updateRewards_spec m t) fun x hx => ?_
  have hrewards := hx.rewardsGodl
  have hrefined := hx.refinedGodl
  intro _ hunclaimed htotal
  rw [hrewards] at hunclaimed
  simp only [ensures_ite, ensures_bind, ensures_subU64, ensures_addU64, Fixed.ensures_ofFraction,
    Fixed.ensures_add, ensures_pure]
  refine ⟨fun _ hfee _ _ _ _ => ⟨x.rewardsGodl / 10, ?_⟩, fun hzero => ⟨0, ?_⟩⟩
  · have hle : x.rewardsGodl / 10 ≤ x.rewardsGodl := Nat.div_le_self _ _
    constructor
    case fee_le => rwa [← hrewards]
    case amount => omega
    case totalUnclaimed => dsimp only; omega
    case totalRefined => dsimp only; omega
    case factor => simp only [factorScale_eq]
    case treasury => rfl
    case rewardsGodl => rfl
    case refinedGodl => rfl
    case authority => exact hx.authority
    case wager => exact hx.wager
  · constructor
    case fee_le => exact Nat.zero_le _
    case amount => omega
    case totalUnclaimed => dsimp only; omega
    case totalRefined => dsimp only; omega
    case factor => simp
    case treasury => rfl
    case rewardsGodl => rfl
    case refinedGodl => rfl
    case authority => exact hx.authority
    case wager => exact hx.wager

end Miner

/-! ## Gold -/

/-- The weight of an amount of unrefined GODL in the gold pot. -/
def goldWeight (unrefined : ℕ) : ℕ := unrefined * 2 ^ 48 / goldFactorScale

/-- An extended account weighs its miner's unrefined GODL. -/
def MinerExtended.position (e : MinerExtended) (unrefined : ℕ) : Position :=
  ⟨goldWeight unrefined, e.xautRewardsFactor.bits, e.xautRewards⟩

/-- Settling an extended account settles its position. -/
theorem MinerExtended.updateRewards_spec (e : MinerExtended) (v : GoldVault) (unrefined : ℕ) :
    Ensures (e.updateRewards v unrefined) fun e' =>
      e'.authority = e.authority ∧
      e'.position unrefined =
        (e.position unrefined).settle goldScale v.xautRewardsFactor.bits ∧
      e'.lifetimeXaut =
        e.lifetimeXaut + (e.position unrefined).pending goldScale v.xautRewardsFactor.bits := by
  simp only [updateRewards, ensures_ite, ensures_bind, Fixed.ensures_ofFraction,
    Fixed.ensures_mul, Fixed.ensures_floor, ensures_addU64, ensures_pure]
  refine ⟨fun _ _ _ _ _ _ => ⟨trivial, ?_, ?_⟩, fun hle => ⟨trivial, ?_, ?_⟩⟩
  · simp only [position, Position.settle, Position.pending, Fixed.bits_sub, goldWeight,
      goldScale_eq, Nat.div_div_eq_div_mul]
    norm_num
  · simp only [position, Position.pending, Fixed.bits_sub, goldWeight, goldScale_eq,
      Nat.div_div_eq_div_mul]
    norm_num
  · rw [Position.settle_of_le (not_lt.1 hle)]
    rfl
  · rw [Position.pending_of_le (not_lt.1 hle), Nat.add_zero]

/-- What a distribution of `xaut` does to the vault: it is booked as distributed or as
pending, and the factor is raised by what was distributed, scaled up, over the total. -/
structure GoldVault.Distributed (v : GoldVault) (xaut totalUnclaimed : ℕ) (v' : GoldVault) :
    Prop where
  claimed : v'.totalXautClaimed = v.totalXautClaimed
  booked : v'.totalXautDistributed + v'.pendingXaut =
    v.totalXautDistributed + v.pendingXaut + xaut
  grows : v.totalXautDistributed ≤ v'.totalXautDistributed
  factor : v'.xautRewardsFactor.bits = v.xautRewardsFactor.bits +
    (v'.totalXautDistributed - v.totalXautDistributed) * goldFactorScale * 2 ^ 48 /
      totalUnclaimed

theorem GoldVault.distribute_spec (v : GoldVault) (xaut totalUnclaimed : ℕ) :
    Ensures (v.distribute xaut totalUnclaimed) fun r =>
      GoldVault.Distributed v xaut totalUnclaimed r.2 := by
  simp only [distribute, ensures_bind, ensures_addU64, ensures_ite, ensures_pure,
    ensures_mulU64, Fixed.ensures_ofFraction, Fixed.ensures_add]
  refine fun _ => ⟨fun hzero => ?_, fun _ => ⟨fun htotal => ?_, fun _ _ _ _ _ => ?_⟩⟩
  · exact ⟨rfl, by omega, le_refl _, by simp⟩
  · exact ⟨rfl, by dsimp only; omega, le_refl _, by simp⟩
  · refine ⟨rfl, by dsimp only; omega, Nat.le_add_right _ _, ?_⟩
    simp only [Nat.add_sub_cancel_left]

end Godl
