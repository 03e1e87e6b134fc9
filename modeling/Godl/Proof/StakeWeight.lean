import Godl.Lib.Newton
import Godl.Proof.StakeTerms

/-!
# The weight of a v2 stake

The square-root curve is computed by Newton's iteration on 128-bit words.  It returns the
root for every word, without an overflow on the way.  With that, the weight of a stake is a
formula: the balance times a rate, with the boost, both rounded down.

## Main definitions

* `isqrtU128_eq` — the iteration returns the integer square root.
* `curve m` — the multiplier on the square-root curve.
* `StakeV2.rate`, `StakeV2.weight` — the weight as a formula.
* `StakeV2.weightedUnits_eq_ok` — the weight is computed when it fits.
-/

namespace Godl

open Lib

/-! ## The square root -/

/-- **The loop returns the root**, from any guess between the root and `2 ^ 64`. -/
theorem isqrtLoop_eq {n : ℕ} (hpos : 0 < n) (hn : n < u128Bound) (x : ℕ)
    (habove : Nat.sqrt n ≤ x) (hx : x ≤ u64Bound) : isqrtLoop n x = .ok (Nat.sqrt n) := by
  have hroot : 0 < Nat.sqrt n := Nat.sqrt_pos.2 hpos
  have hrootBound : Nat.sqrt n < u64Bound := sqrt_lt_two_pow (b := 128) hn
  induction x using Nat.strong_induction_on with
  | _ x ih =>
    have hxpos : 0 < x := hroot.trans_le habove
    have hdiv := div_le_sqrt_add_two hpos habove
    have hfits : ¬ u128Bound ≤ x + n / x := by
      rw [u128Bound, not_le]
      rw [u64Bound] at hx hrootBound
      omega
    rw [isqrtLoop, if_neg hxpos.ne', if_neg hfits]
    by_cases hfalls : x ≤ (x + n / x) / 2
    · rw [if_pos hfalls, eq_sqrt_of_le_newton hxpos habove hfalls]
    · rw [if_neg hfalls]
      rw [not_le] at hfalls
      exact ih _ hfalls (sqrt_le_newton hxpos) (hfalls.le.trans hx)

/-- **The square root is exact** for every 128-bit word. -/
theorem isqrtU128_eq {n : ℕ} (hn : n < u128Bound) : isqrtU128 n = .ok (Nat.sqrt n) := by
  rw [isqrtU128]
  by_cases hzero : n = 0
  · rw [if_pos hzero, hzero, Nat.sqrt_zero]
  · have hlog : Nat.log2 n < 128 := (Nat.log2_lt hzero).2 hn
    have hbits : (bitLength n + 1) / 2 ≤ 64 := by
      rw [bitLength]
      omega
    rw [if_neg hzero, if_neg (by omega)]
    refine isqrtLoop_eq (Nat.pos_of_ne_zero hzero) hn _ ?_ ?_
    · exact (sqrt_lt_two_pow Nat.lt_log2_self).le
    · exact Nat.pow_le_pow_right two_pos hbits

/-- The multiplier on the square-root curve. -/
def curve (m : ℕ) : ℕ := Nat.sqrt (m * stakeMultiplierScale)

/-- The scaled multiplier is a 128-bit word. -/
theorem scaled_lt {m : ℕ} (hm : m < u64Bound) : m * stakeMultiplierScale < u128Bound := by
  rw [u64Bound] at hm
  rw [u128Bound, stakeMultiplierScale]
  omega

theorem curve_lt {m : ℕ} (hm : m < u64Bound) : curve m < u64Bound :=
  sqrt_lt_two_pow (b := 128) (scaled_lt hm)

/-- The multiplier is computed, and its cast loses nothing. -/
theorem effectiveMultiplier_eq {m : ℕ} (hm : m < u64Bound) :
    effectiveMultiplier m = .ok (curve m) := by
  rw [effectiveMultiplier, isqrtU128_eq (scaled_lt hm), ok_bind]
  exact congrArg Except.ok (Nat.mod_eq_of_lt (curve_lt hm))

theorem curve_mono {m m' : ℕ} (h : m ≤ m') : curve m ≤ curve m' :=
  Nat.sqrt_le_sqrt (Nat.mul_le_mul_right _ h)

/-- The curve fixes the multiplier one. -/
theorem curve_scale : curve stakeMultiplierScale = stakeMultiplierScale := Nat.sqrt_eq _

/-- Above one the curve flattens the multiplier. -/
theorem curve_le {m : ℕ} (h : stakeMultiplierScale ≤ m) : curve m ≤ m := by
  calc curve m ≤ Nat.sqrt (m * m) := Nat.sqrt_le_sqrt (Nat.mul_le_mul_left m h)
    _ = m := Nat.sqrt_eq m

/-- Below one it raises it. -/
theorem le_curve {m : ℕ} (h : m ≤ stakeMultiplierScale) : m ≤ curve m := by
  calc m = Nat.sqrt (m * m) := (Nat.sqrt_eq m).symm
    _ ≤ curve m := Nat.sqrt_le_sqrt (Nat.mul_le_mul_left m h)

/-! ## The weight -/

/-- A balance at a rate. -/
def weightAt (rate balance : ℕ) : ℕ := balance * rate / stakeMultiplierScale

/-- The boost of a staked NFT. -/
def boosted (isNftStaked base : ℕ) : ℕ :=
  if isNftStaked ≠ 0 then base * nftBoostNumerator / nftBoostDenominator else base

section Formula

variable {rate rate' a b n nft nft' : ℕ}

theorem weightAt_mono (hrate : rate ≤ rate') (h : a ≤ b) : weightAt rate a ≤ weightAt rate' b :=
  Nat.div_le_div_right (Nat.mul_le_mul h hrate)

/-- A whole balance weighs no less than its parts. -/
theorem weightAt_add_le : weightAt rate a + weightAt rate b ≤ weightAt rate (a + b) := by
  rw [weightAt, weightAt, weightAt, Nat.add_mul]
  exact Nat.div_add_div_le_add_div ..

theorem le_boosted (nft base : ℕ) : base ≤ boosted nft base := by
  rw [boosted]
  split
  · rw [nftBoostNumerator, nftBoostDenominator]
    omega
  · exact le_refl _

theorem boosted_mono (hnft : nft ≠ 0 → nft' ≠ 0) (h : a ≤ b) : boosted nft a ≤ boosted nft' b := by
  by_cases hzero : nft = 0
  · rw [boosted, if_neg (not_not.2 hzero)]
    exact h.trans (le_boosted nft' b)
  · rw [boosted, boosted, if_pos hzero, if_pos (hnft hzero)]
    exact Nat.div_le_div_right (Nat.mul_le_mul_right _ h)

theorem boosted_add_le : boosted nft a + boosted nft b ≤ boosted nft (a + b) := by
  rw [boosted, boosted, boosted]
  split
  · rw [Nat.add_mul]
    exact Nat.div_add_div_le_add_div ..
  · exact le_refl _

end Formula

namespace StakeV2

variable {x y : StakeV2} {n : ℕ}

/-- The multiplier that is applied to the balance. -/
def rate (x : StakeV2) : ℕ := if x.weightVersion = 0 then x.multiplier else curve x.multiplier

/-- The weight as a formula. -/
def weight (x : StakeV2) : ℕ := boosted x.isNftStaked (weightAt x.rate x.balance)

theorem getEffectiveMultiplier_eq (hm : x.multiplier < u64Bound) :
    x.getEffectiveMultiplier = .ok x.rate := by
  rw [getEffectiveMultiplier, rate]
  split
  · rfl
  · exact effectiveMultiplier_eq hm

/-- The balance at its rate is computed when it fits. -/
theorem applyMultiplier_eq_ok (hm : x.multiplier < u64Bound) {amount : ℕ} :
    x.applyMultiplier amount = .ok n ↔ weightAt x.rate amount = n ∧ n < u64Bound := by
  rw [applyMultiplier, getEffectiveMultiplier_eq hm, ok_bind]
  split
  · next hzero =>
    have hweight : weightAt x.rate amount = 0 := by
      rcases hzero with rfl | hrate
      · simp [weightAt]
      · simp [weightAt, hrate]
    rw [pure_eq_ok, hweight]
    constructor
    · rintro rfl
      exact ⟨rfl, by simp⟩
    · exact fun h => h.1
  · split
    · next hlarge =>
      constructor
      · intro h
        cases h
      · rintro ⟨rfl, hlt⟩
        exact absurd hlarge (not_le.2 hlt)
    · next hfits =>
      rw [pure_eq_ok]
      constructor
      · rintro rfl
        exact ⟨rfl, not_le.1 hfits⟩
      · exact fun h => h.1

/-- **The weight is computed when it fits.** -/
theorem weightedUnits_eq_ok (hm : x.multiplier < u64Bound) :
    x.weightedUnits = .ok n ↔ x.weight = n ∧ n < u64Bound := by
  rw [weightedUnits, bind_eq_ok]
  constructor
  · rintro ⟨base, hbase, h⟩
    obtain ⟨rfl, hlt⟩ := (applyMultiplier_eq_ok hm).1 hbase
    rw [weight, boosted]
    split at h
    · next hnft =>
      rw [if_pos hnft]
      split at h
      · cases h
      · next hfits =>
        rw [pure_eq_ok] at h
        subst h
        exact ⟨rfl, not_le.1 hfits⟩
    · next hnft =>
      rw [if_neg hnft]
      rw [pure_eq_ok] at h
      subst h
      exact ⟨rfl, hlt⟩
  · rintro ⟨rfl, hlt⟩
    have hbase : weightAt x.rate x.balance < u64Bound := (le_boosted _ _).trans_lt hlt
    refine ⟨_, (applyMultiplier_eq_ok hm).2 ⟨rfl, hbase⟩, ?_⟩
    rw [weight, boosted] at hlt ⊢
    split
    · next hnft =>
      rw [if_pos hnft] at hlt
      rw [if_neg (not_le.2 hlt)]
      rfl
    · rfl

/-- The weight of a larger stake, at a higher rate, with the NFT. -/
theorem weight_mono (hrate : x.rate ≤ y.rate) (hbalance : x.balance ≤ y.balance)
    (hnft : x.isNftStaked ≠ 0 → y.isNftStaked ≠ 0) : x.weight ≤ y.weight :=
  boosted_mono hnft (weightAt_mono hrate hbalance)

/-- On one curve, a higher multiplier is a higher rate. -/
theorem rate_mono (hversion : x.weightVersion = 0 ↔ y.weightVersion = 0)
    (hm : x.multiplier ≤ y.multiplier) : x.rate ≤ y.rate := by
  rw [rate, rate]
  by_cases hx : x.weightVersion = 0
  · rw [if_pos hx, if_pos (hversion.1 hx)]
    exact hm
  · rw [if_neg hx, if_neg fun hy => hx (hversion.2 hy)]
    exact curve_mono hm

/-- **A stake weighs no less than its parts.** -/
theorem weight_add_le (x : StakeV2) (a b : ℕ) :
    ({ x with balance := a } : StakeV2).weight + ({ x with balance := b } : StakeV2).weight ≤
      ({ x with balance := a + b } : StakeV2).weight :=
  boosted_add_le.trans (boosted_mono (fun h => h) weightAt_add_le)

end StakeV2

/-- A longer lock has no lower multiplier. -/
theorem stakeMultiplier_mono {d d' : ℤ} (h : d ≤ d') : stakeMultiplier d ≤ stakeMultiplier d' := by
  rw [stakeMultiplier, stakeMultiplier]
  refine Nat.add_le_add_left (Nat.div_le_div_right ?_) _
  refine Nat.mul_le_mul_right _ (Nat.mul_le_mul_left _ (Int.toNat_le_toNat ?_))
  omega

/-- A lock multiplies by one at least, and by twenty at most. -/
theorem stakeMultiplier_bounds (d : ℤ) : stakeMultiplierScale ≤ stakeMultiplier d ∧
    stakeMultiplier d ≤ maxStakeMultiplier * stakeMultiplierScale := by
  rw [stakeMultiplier]
  refine ⟨Nat.le_add_right _ _, ?_⟩
  have hd : (min (max d 0) maxLockDuration).toNat ≤ maxLockDuration.toNat :=
    Int.toNat_le_toNat (min_le_right _ _)
  have hdiv : (maxStakeMultiplier - 1) * (min (max d 0) maxLockDuration).toNat *
      stakeMultiplierScale / maxLockDuration.toNat ≤
        (maxStakeMultiplier - 1) * stakeMultiplierScale := by
    refine Nat.div_le_of_le_mul ?_
    nlinarith
  rw [maxStakeMultiplier, stakeMultiplierScale] at hdiv ⊢
  omega

theorem stakeMultiplier_lt (d : ℤ) : stakeMultiplier d < u64Bound := by
  have hbounds := (stakeMultiplier_bounds d).2
  rw [maxStakeMultiplier, stakeMultiplierScale] at hbounds
  rw [u64Bound]
  omega

end Godl
