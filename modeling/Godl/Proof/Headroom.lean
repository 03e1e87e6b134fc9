import Godl.Lib.Returns
import Godl.Proof.Merge
import Godl.Proof.StakeWeight

/-!
# Room for the weights and the rewards of a stake

A multiplier is at most twenty, and the boost one tenth, so a stake weighs at most twenty-two
times its balance.  Within that, and as long as what it earned fits in a 64-bit word, no
operation on the stake overflows.

## Main definitions

* `StakeV2.Roomy` — the bounds on a stake.
* `StakeV2.withdraw_returns` and its siblings — the operations go through.
* `StakeV2.combine_returns` — two stakes can be merged.
-/

namespace Godl

open Lib

/-! ## The weight -/

/-- A multiplier between one and twenty. -/
structure MultiplierBounds (m : ℕ) : Prop where
  one_le : stakeMultiplierScale ≤ m
  le_max : m ≤ maxStakeMultiplier * stakeMultiplierScale

theorem MultiplierBounds.lt {m : ℕ} (h : MultiplierBounds m) : m < u64Bound := by
  have hmax := h.le_max
  rw [maxStakeMultiplier, stakeMultiplierScale] at hmax
  rw [u64Bound]
  omega

theorem multiplierBounds_of_lock (d : ℤ) : MultiplierBounds (stakeMultiplier d) :=
  ⟨(stakeMultiplier_bounds d).1, (stakeMultiplier_bounds d).2⟩

/-- The balances that the supply of GODL allows for. -/
theorem room_for_weights {a b : ℕ} (ha : a ≤ 22 * maxSupply) (hb : b ≤ 22 * maxSupply) :
    a + b < u64Bound := by
  rw [maxSupply, oneGodl] at ha hb
  rw [u64Bound]
  omega

namespace StakeV2

variable {x y z : StakeV2} {t t' : Treasury} {n p q : ℕ} {clock : Clock}

/-- On either curve the rate is at most the multiplier. -/
theorem rate_le (h : MultiplierBounds x.multiplier) : x.rate ≤ x.multiplier := by
  rw [rate]
  split
  · exact le_rfl
  · exact curve_le h.one_le

/-- **A stake weighs at most twenty-two times its balance.** -/
theorem weight_le (h : MultiplierBounds x.multiplier) : x.weight ≤ 22 * x.balance := by
  have hbase : weightAt x.rate x.balance ≤ maxStakeMultiplier * x.balance := by
    refine Nat.div_le_of_le_mul ?_
    calc x.balance * x.rate
        ≤ x.balance * (maxStakeMultiplier * stakeMultiplierScale) :=
          Nat.mul_le_mul_left _ ((rate_le h).trans h.le_max)
      _ = stakeMultiplierScale * (maxStakeMultiplier * x.balance) := by ring
  rw [maxStakeMultiplier] at hbase
  rw [weight, boosted, nftBoostNumerator, nftBoostDenominator]
  split <;> omega

/-- Moving to the square-root curve does not raise the rate. -/
theorem rate_of_ne_le (h : MultiplierBounds x.multiplier) (hm : y.multiplier = x.multiplier)
    (hversion : y.weightVersion ≠ 0) : y.rate ≤ x.rate := by
  rw [rate, rate, if_neg hversion, hm]
  split
  · exact curve_le h.one_le
  · exact le_rfl

/-! ## The bounds on a stake -/

/-- The bounds on a stake, at a factor of the rewards: its weight fits, and so does what it
earned, with what it was ever credited with. -/
structure Roomy (F : Numeric) (x : StakeV2) : Prop where
  multiplier : MultiplierBounds x.multiplier
  balance : x.balance ≤ maxSupply
  rewards : x.rewards + x.pendingAt F < u64Bound
  lifetimeRewards : x.lifetimeRewards + x.pendingAt F < u64Bound
  /-- What accrued fits in a number. -/
  accrued : (F.bits - x.rewardsFactor.bits) * x.units < Fixed.bound

namespace Roomy

variable {F : Numeric}

theorem weight_le (h : x.Roomy F) : x.weight ≤ 22 * maxSupply :=
  (StakeV2.weight_le h.multiplier).trans (Nat.mul_le_mul_left 22 h.balance)

/-- **The weight is computed.** -/
theorem weightedUnits (h : x.Roomy F) : x.weightedUnits = .ok x.weight := by
  refine (weightedUnits_eq_ok h.multiplier.lt).2 ⟨rfl, ?_⟩
  exact (Nat.le_add_right _ _).trans_lt (room_for_weights h.weight_le (Nat.zero_le _))

theorem units_eq (h : x.Roomy F) : x.units = x.weight := units_of_eq h.weightedUnits

/-- Nothing accrued on a settled stake. -/
theorem of_mark (hmark : x.rewardsFactor = F) (hm : MultiplierBounds x.multiplier)
    (hbalance : x.balance ≤ maxSupply) (hrewards : x.rewards < u64Bound)
    (hlifetime : x.lifetimeRewards < u64Bound) : x.Roomy F := by
  have hzero : x.pendingAt F = 0 := Position.pending_of_le (congrArg Fixed.bits hmark).ge
  refine ⟨hm, hbalance, ?_, ?_, ?_⟩
  · rw [hzero]
    exact hrewards
  · rw [hzero]
    exact hlifetime
  · rw [hmark, Nat.sub_self, Nat.zero_mul, Fixed.bound]
    exact Nat.two_pow_pos _

/-- What a stake earned fits without what accrues. -/
theorem rewards_lt (h : x.Roomy F) : x.rewards < u64Bound :=
  (Nat.le_add_right _ _).trans_lt h.rewards

theorem lifetimeRewards_lt (h : x.Roomy F) : x.lifetimeRewards < u64Bound :=
  (Nat.le_add_right _ _).trans_lt h.lifetimeRewards

end Roomy

/-! ## Settling -/

/-- A stake that is settled. -/
def settled (x : StakeV2) (F : Numeric) : StakeV2 :=
  { x with
    rewards := x.rewards + x.pendingAt F
    lifetimeRewards := x.lifetimeRewards + x.pendingAt F
    rewardsFactor := F }

theorem settled_weight (x : StakeV2) (F : Numeric) : (x.settled F).weight = x.weight := rfl

/-- **The stake is settled.** -/
theorem updateRewards_eq (h : x.Roomy t.stakeRewardsFactor) :
    x.updateRewards t = .ok (x.settled t.stakeRewardsFactor) := by
  have hpending : x.pendingAt t.stakeRewardsFactor =
      (t.stakeRewardsFactor.bits - x.rewardsFactor.bits) * x.units / factorScale := rfl
  rw [updateRewards]
  split
  · next hlt =>
    have haccrued := h.accrued
    have hrewards := h.rewards
    have hlifetime := h.lifetimeRewards
    have hfits : x.pendingAt t.stakeRewardsFactor < u64Bound :=
      (Nat.le_add_left _ _).trans_lt hrewards
    rw [hpending, factorScale_eq] at hfits hrewards hlifetime
    rw [h.units_eq] at haccrued hfits hrewards hlifetime hpending
    simp only [h.weightedUnits, Fixed.mul, Fixed.floor, Fixed.bits_sub, Fixed.bits_ofNat,
      Fixed.bits_mul_ofNat, ok_bind, if_pos haccrued, if_pos hfits, addU64, if_pos hrewards,
      if_pos hlifetime]
    rw [settled, hpending, factorScale_eq]
    rfl
  · next hle =>
    have hzero : x.pendingAt t.stakeRewardsFactor = 0 := Position.pending_of_le (not_lt.1 hle)
    rw [settled, hzero, Nat.add_zero, Nat.add_zero]
    rfl

theorem Roomy.settled {F : Numeric} (h : x.Roomy F) : (x.settled F).Roomy F :=
  .of_mark rfl h.multiplier h.balance h.rewards h.lifetimeRewards

/-- A stake on another curve. -/
def onCurve (x : StakeV2) (version : ℕ) : StakeV2 := { x with weightVersion := version }

/-! ## The operations -/

/-- The total moves from one weight to another. -/
theorem moveTotalStaked_returns (hprev : p ≤ t.totalStaked) (ht : t.totalStaked ≤ 22 * maxSupply)
    (hnext : q ≤ 22 * maxSupply) : Returns (moveTotalStaked t p q) fun t' =>
      t' = { t with totalStaked := t'.totalStaked } ∧ t'.totalStaked + p = t.totalStaked + q := by
  have hroom := room_for_weights ht hnext
  simp only [moveTotalStaked, returns_ite, returns_bind, returns_addU64, returns_subU64,
    returns_pure, true_and]
  refine ⟨fun hle => ⟨?_, ?_⟩, fun hlt => ⟨?_, ?_⟩⟩ <;> omega

theorem claim_returns (h : x.Roomy t.stakeRewardsFactor) (amount : ℕ) :
    ∃ r, x.claim amount clock t = .ok r := by
  rw [claim, updateRewards_eq h]
  exact ⟨_, rfl⟩

/-- What changes the weight of a settled stake goes through. -/
theorem reweigh_returns (h : x.Roomy t.stakeRewardsFactor) (hprev : x.weight ≤ t.totalStaked)
    (ht : t.totalStaked ≤ 22 * maxSupply) {change : StakeV2 → StakeV2}
    (hchange : ∀ y : StakeV2, y.Roomy t.stakeRewardsFactor →
      y.rewardsFactor = t.stakeRewardsFactor → (change y).Roomy t.stakeRewardsFactor) :
    Returns (x.reweigh t change) fun r => r.1 = change (x.settled t.stakeRewardsFactor) ∧
      r.1.Roomy t.stakeRewardsFactor ∧ r.2 = { t with totalStaked := r.2.totalStaked } ∧
      r.2.totalStaked + x.weight = t.totalStaked + r.1.weight := by
  have hroomy := hchange _ h.settled rfl
  rw [reweigh, updateRewards_eq h, ok_bind, h.settled.weightedUnits, ok_bind,
    hroomy.weightedUnits, ok_bind]
  simp only [returns_bind, returns_pure]
  refine Returns.mono (moveTotalStaked_returns hprev ht hroomy.weight_le) fun t' ht' => ?_
  exact ⟨trivial, hroomy, ht'⟩

/-- The NFT and the curve may change. -/
theorem Roomy.reweighed {F : Numeric} (h : x.Roomy F) (hmark : x.rewardsFactor = F)
    (nft version : ℕ) :
    ({ x with isNftStaked := nft, weightVersion := version } : StakeV2).Roomy F :=
  .of_mark hmark h.multiplier h.balance h.rewards_lt h.lifetimeRewards_lt

theorem stakeNft_returns (h : x.Roomy t.stakeRewardsFactor) (hprev : x.weight ≤ t.totalStaked)
    (ht : t.totalStaked ≤ 22 * maxSupply) (hnft : x.isNftStaked = 0) :
    ∃ r, x.stakeNft t = .ok r := by
  rw [stakeNft, if_neg (not_not.2 hnft)]
  obtain ⟨r, hr, -⟩ := reweigh_returns h hprev ht fun y hy hmark =>
    hy.reweighed hmark 1 y.weightVersion
  exact ⟨r, hr⟩

theorem unstakeNft_returns (h : x.Roomy t.stakeRewardsFactor) (hprev : x.weight ≤ t.totalStaked)
    (ht : t.totalStaked ≤ 22 * maxSupply) (hnft : x.isNftStaked ≠ 0) :
    ∃ r, x.unstakeNft t = .ok r := by
  rw [unstakeNft, if_neg hnft]
  obtain ⟨r, hr, -⟩ := reweigh_returns h hprev ht fun y hy hmark =>
    hy.reweighed hmark 0 y.weightVersion
  exact ⟨r, hr⟩

/-- A migration goes through, keeps what the stake earned and does not raise the total. -/
theorem migrateWeight_returns (h : x.Roomy t.stakeRewardsFactor)
    (hprev : x.weight ≤ t.totalStaked) (ht : t.totalStaked ≤ 22 * maxSupply) :
    Returns (x.migrateWeight t) fun r => r.1.Roomy t.stakeRewardsFactor ∧
      r.1.settled t.stakeRewardsFactor =
        (x.settled t.stakeRewardsFactor).onCurve r.1.weightVersion ∧
      r.2 = { t with totalStaked := r.2.totalStaked } ∧
      r.2.totalStaked + x.weight = t.totalStaked + r.1.weight ∧ r.1.weight ≤ x.weight := by
  rw [migrateWeight]
  split
  · exact returns_ok.2 ⟨h, rfl, rfl, rfl, le_rfl⟩
  · refine Returns.mono (reweigh_returns h hprev ht fun y hy hmark =>
      hy.reweighed hmark y.isNftStaked 1) ?_
    rintro ⟨y, t'⟩ ⟨rfl, hroomy, hframe, htotal⟩
    refine ⟨hroomy, ?_, hframe, htotal, ?_⟩
    · have hzero : ((x.settled t.stakeRewardsFactor).onCurve 1).pendingAt
          t.stakeRewardsFactor = 0 := Position.pending_of_le le_rfl
      change ((x.settled t.stakeRewardsFactor).onCurve 1).settled t.stakeRewardsFactor = _
      rw [StakeV2.settled, hzero]
      rfl
    · refine weight_mono ?_ le_rfl fun hnft => hnft
      exact rate_of_ne_le h.multiplier rfl one_ne_zero

/-- **A withdrawal of any amount goes through.** -/
theorem withdraw_returns (h : x.Roomy t.stakeRewardsFactor) (hprev : x.weight ≤ t.totalStaked)
    (ht : t.totalStaked ≤ 22 * maxSupply) (amount : ℕ) :
    ∃ r, x.withdraw amount clock t = .ok r := by
  have hsettled := h.settled
  have hroomy : ({ x.settled t.stakeRewardsFactor with
      balance := x.balance - min x.balance amount
      lastWithdrawAt := clock.unixTimestamp } : StakeV2).Roomy t.stakeRewardsFactor :=
    .of_mark rfl h.multiplier ((Nat.sub_le _ _).trans h.balance) h.rewards h.lifetimeRewards
  obtain ⟨t', ht', -⟩ := moveTotalStaked_returns hprev ht hroomy.weight_le
  refine ⟨_, withdraw_eq_ok.2 ⟨_, _, _, updateRewards_eq h, hsettled.weightedUnits, rfl, rfl,
    hroomy.weightedUnits, ht'⟩⟩

/-! ## Merging -/

/-- Two settled stakes are folded into one that is within the bounds. -/
theorem merge_returns {F : Numeric} (clock : Clock) (hmark : x.rewardsFactor = F)
    (hbalance : x.balance + y.balance ≤ maxSupply) (hrewards : x.rewards + y.rewards < u64Bound)
    (hlifetime : x.lifetimeRewards + y.lifetimeRewards < u64Bound) :
    Returns (x.merge y clock) fun z => z.Roomy F := by
  have hfits : x.balance + y.balance < u64Bound := by
    rw [maxSupply, oneGodl] at hbalance
    rw [u64Bound]
    omega
  refine returns_of_eq (merge_eq_ok.2 ⟨hfits, hrewards, hlifetime, rfl⟩) ?_
  exact .of_mark hmark (multiplierBounds_of_lock _) hbalance hrewards hlifetime

/-- **Two stakes can be merged** when together they are within the bounds. -/
theorem combine_returns (hx : x.Roomy t.stakeRewardsFactor) (hy : y.Roomy t.stakeRewardsFactor)
    (hbalance : x.balance + y.balance ≤ maxSupply)
    (hrewards : x.rewards + x.pendingAt t.stakeRewardsFactor +
      (y.rewards + y.pendingAt t.stakeRewardsFactor) < u64Bound)
    (hlifetime : x.lifetimeRewards + x.pendingAt t.stakeRewardsFactor +
      (y.lifetimeRewards + y.pendingAt t.stakeRewardsFactor) < u64Bound)
    (hprev : x.weight + y.weight ≤ t.totalStaked) (ht : t.totalStaked ≤ 22 * maxSupply) :
    ∃ r, x.combine y clock t = .ok r := by
  obtain ⟨⟨x₁, t₁⟩, hx₁, hxroomy, hxs, ht₁, htotal₁, hxle⟩ :=
    migrateWeight_returns hx (by omega) ht
  dsimp only at hxroomy hxs ht₁ htotal₁ hxle
  have hfactor₁ : t₁.stakeRewardsFactor = t.stakeRewardsFactor := by rw [ht₁]
  rw [← hfactor₁] at hy
  obtain ⟨⟨y₁, t₂⟩, hy₁, hyroomy, hys, ht₂, htotal₂, hyle⟩ :=
    migrateWeight_returns hy (by omega) (by omega)
  dsimp only at hyroomy hys ht₂ htotal₂ hyle
  have hfactor₂ : t₂.stakeRewardsFactor = t.stakeRewardsFactor := by rw [ht₂, ← hfactor₁]
  rw [hfactor₁] at hyroomy hys
  have hxsettle := updateRewards_eq (t := t₂) (x := x₁) (by rwa [hfactor₂])
  have hysettle := updateRewards_eq (t := t₂) (x := y₁) (by rwa [hfactor₂])
  rw [hfactor₂, hxs] at hxsettle
  rw [hfactor₂, hys] at hysettle
  have hxsroomy := hxroomy.settled
  have hysroomy := hyroomy.settled
  have hxweight := settled_weight x₁ t.stakeRewardsFactor
  have hyweight := settled_weight y₁ t.stakeRewardsFactor
  rw [hxs] at hxsroomy hxweight
  rw [hys] at hysroomy hyweight
  have hxroom := hxsroomy.weight_le
  have hyroom := hysroomy.weight_le
  -- The merged stake is within the bounds, too.
  obtain ⟨z, hz, hzroomy⟩ := merge_returns (F := t.stakeRewardsFactor) clock
    (x := (x.settled t.stakeRewardsFactor).onCurve x₁.weightVersion)
    (y := (y.settled t.stakeRewardsFactor).onCurve y₁.weightVersion) rfl hbalance hrewards hlifetime
  obtain ⟨t₃, ht₃, -⟩ := moveTotalStaked_returns (t := t₂) (p := x₁.weight + y₁.weight) (by omega)
    (by omega) hzroomy.weight_le
  rw [← hxweight, ← hyweight] at ht₃
  exact ⟨_, combine_eq_ok.2 ⟨_, _, _, _, _, _, _, _, _, hx₁, hy₁, hxsettle, hysettle,
    hxsroomy.weightedUnits, hysroomy.weightedUnits, room_for_weights hxroom hyroom, hz,
    hzroomy.weightedUnits, ht₃⟩⟩

end StakeV2

/-- The errors of the arithmetic on stakes. -/
def ProgramError.IsStakeOverflow (e : ProgramError) : Prop :=
  e = .custom .stakeOverflow ∨ e = overflow

/-- **A merge overflows only where the arithmetic on the two stakes does.** -/
theorem processMergeStakeV2_avoids (clock : Clock) (targetId sourceId : ℕ) (signerInfo mintInfo
    targetStakeInfo targetTokensInfo sourceStakeInfo sourceTokensInfo treasuryInfo systemProgram
    tokenProgram associatedTokenProgram : AccountInfo) (s : State)
    (hcombine : ∀ a b, s.stakesV2.get targetStakeInfo.key = some a →
      s.stakesV2.get sourceStakeInfo.key = some b → targetStakeInfo.key ≠ sourceStakeInfo.key →
        ∃ r, a.stake.combine b.stake clock s.treasury = .ok r) :
    Avoids ProgramError.IsStakeOverflow (processMergeStakeV2 clock targetId sourceId signerInfo
      mintInfo targetStakeInfo targetTokensInfo sourceStakeInfo sourceTokensInfo treasuryInfo
      systemProgram tokenProgram associatedTokenProgram s) := by
  simp only [processMergeStakeV2, mergeStakeV2, avoids_bind, ensures_bind, ensures_require,
    ensures_fromOption, avoids_require, avoids_fromOption, ensures_pure, avoids_pure,
    ProgramError.IsStakeOverflow, State.loadError_ne_panic, State.loadError_ne_custom, reduceCtorEq,
    or_self, not_false_eq_true, true_and, implies_true, ProgramError.custom.injEq]
  intro hids _ _ _ htkey _ hskey _ a ha _ _ _ b hb _ _ _ _ n hn _ m hm _ _ _ _ _ _
  have hkeys : targetStakeInfo.key ≠ sourceStakeInfo.key := by
    rw [htkey, hskey]
    simpa using hids
  obtain ⟨r, hr⟩ := hcombine a b ha hb hkeys
  obtain ⟨x₁, t₁, y₁, t₂, x₂, y₂, p, q, w, hx₁, hy₁, hx₂, hy₂, hp, hq, hfits, hz, hw, hu⟩ :=
    StakeV2.combine_eq_ok.1 hr
  have hsum : addU64 (ProgramError.custom .stakeOverflow) p q = .ok (p + q) :=
    addU64_eq_ok.2 ⟨hfits, rfl⟩
  simp only [hx₁, hy₁, hx₂, hy₂, hp, hq, hsum, hz, hw, hu, avoids_ok, ensures_ok, true_and]
  -- What is left moves tokens and lamports.
  simp [State.transferTokens, State.closeTokenAccount, ProgramError.IsStakeOverflow]

/-! ## What all stakes were ever credited with -/

/-- What a stake was ever credited with takes the place of what it may claim. -/
def StakeV2.creditedPosition (x : StakeV2) : Position := ⟨x.units, x.rewardsFactor.bits,
  x.lifetimeRewards⟩

/-- What all v2 stakes were ever credited with, and what accrued since, when the factor stands
at `F`, scaled. -/
def State.stakeCredited (s : State) (F : ℕ) : ℕ :=
  s.stakesV2.sum fun a => a.stake.creditedPosition.owed factorScale F

section Credited

variable {clock : Clock} {compounds : Prop} {merges : Pubkey → Pubkey → Prop} {s s' : State}
  {x x' y z : StakeV2} {F : Numeric}

/-- Crediting rounds down. -/
theorem StakeV2.Accrued.credited_le (h : x.Accrued F x') :
    x'.creditedPosition.owed factorScale F.bits ≤ x.creditedPosition.owed factorScale F.bits := by
  rcases h with ⟨hunits, hmark, hcredited⟩ | ⟨hmark, hcredited⟩
  · have hsame : x'.creditedPosition = x.creditedPosition :=
      Position.ext hunits hmark hcredited
    rw [hsame]
  · have hsettled : x'.creditedPosition = ⟨x'.units, F.bits, x.lifetimeRewards + x.pendingAt F⟩ :=
      Position.ext rfl hmark hcredited
    rw [hsettled, Position.owed_of_mark]
    exact Position.reward_add_pending_le factorScale F.bits x.creditedPosition

theorem StakeV2.CreditedWith.credited_le (h : x.CreditedWith y F z) :
    z.creditedPosition.owed factorScale F.bits ≤ x.creditedPosition.owed factorScale F.bits +
      y.creditedPosition.owed factorScale F.bits := by
  have hsettled : z.creditedPosition = ⟨z.units, F.bits, x.lifetimeRewards + x.pendingAt F +
      (y.lifetimeRewards + y.pendingAt F)⟩ :=
    Position.ext rfl (congrArg Fixed.bits h.mark) h.lifetimeRewards
  rw [hsettled, Position.owed_of_mark, Nat.add_mul]
  exact Nat.add_le_add (Position.reward_add_pending_le factorScale F.bits x.creditedPosition)
    (Position.reward_add_pending_le factorScale F.bits y.creditedPosition)

/-- **An instruction credits the stakes with what accrued, and with nothing else.** -/
theorem StakesV2Step.credited_le (h : StakesV2Step clock compounds merges s s') :
    s'.stakeCredited s.treasury.stakeRewardsFactor.bits ≤
      s.stakeCredited s.treasury.stakeRewardsFactor.bits := by
  set credited : StakeV2Account → ℕ := fun a =>
    a.stake.creditedPosition.owed factorScale s.treasury.stakeRewardsFactor.bits
  change s'.stakesV2.sum credited ≤ s.stakesV2.sum credited
  cases h with
  | same hstakes => rw [hstakes]
  | @called a x' hget hstakes hcalled =>
    have hsum := Store.sum_put_old (t := s.stakesV2) (a := { a with stake := x' }) credited hget
    have hle : credited { a with stake := x' } ≤ credited a := hcalled.accrued.credited_le
    rw [hstakes]
    omega
  | @created a hget hstakes hfresh huncredited =>
    have hsum := Store.sum_put_new credited hget
    have hzero : credited a = 0 := by
      have hnew : a.stake.creditedPosition =
          ⟨a.stake.units, s.treasury.stakeRewardsFactor.bits, 0⟩ :=
        Position.ext rfl (congrArg Fixed.bits huncredited.mark) huncredited.lifetimeRewards
      change a.stake.creditedPosition.owed _ _ = 0
      rw [hnew, Position.owed_of_mark, Nat.zero_mul]
    rw [hstakes]
    omega
  | @merged a b z hmerges hstakes hfresh htarget hsource hne hcredited =>
    have hsum := Store.sum_put_old (t := s.stakesV2) (a := { a with stake := z }) credited htarget
    have hmid : (s.stakesV2.put { a with stake := z }).get b.address = some b :=
      (get_restaked_of_ne s a z hne.symm).trans hsource
    have hsum' := Store.sum_erase credited hmid
    have hle : credited { a with stake := z } ≤ credited a + credited b := hcredited.credited_le
    rw [hstakes]
    omega
  | @closed k hstakes =>
    rw [hstakes]
    exact Store.sum_erase_le credited s.stakesV2 k

end Credited

end Godl
