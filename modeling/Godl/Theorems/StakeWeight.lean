import Godl.Proof.Migration
import Godl.Proof.StakeWeight
import Godl.Script

/-!
# The weight of a stake

The square root is exact for every 128-bit word, so that moving a stake to the square-root
curve can be compared with the linear one.  Neither the choice of a lock nor a split into
several stakes makes a balance weigh more than it should.

## Main definitions

* `isqrtU128_floor` — the square root.
* `migrateWeight_curve` — the square-root curve, and what a migration does to the weight.
* `weightedUnits_fair` — the weight as a function of balance, lock and NFT.
-/

namespace Godl

open Lib

/-- **The square root of every 128-bit word is computed**, without an overflow or a division
by zero on the way, and it is the floor of the root. -/
theorem isqrtU128_floor {n : ℕ} (hn : n < u128Bound) :
    ∃ r, isqrtU128 n = .ok r ∧ r * r ≤ n ∧ n < (r + 1) * (r + 1) := by
  refine ⟨Nat.sqrt n, isqrtU128_eq hn, Nat.sqrt_le n, ?_⟩
  exact Nat.lt_succ_sqrt n

/-- The root of the largest word. -/
theorem isqrtU128_floor_max : 2 ^ 128 - 1 < u128Bound ∧
    ∃ r, isqrtU128 (2 ^ 128 - 1) = .ok r ∧ r * r ≤ 2 ^ 128 - 1 ∧
      2 ^ 128 - 1 < (r + 1) * (r + 1) :=
  ⟨by decide, isqrtU128_floor (by decide)⟩

/-! ## The square-root curve -/

namespace StakeV2

variable {x x' : StakeV2} {t t' : Treasury} {n : ℕ}

/-- A stake that weighs something has a weight. -/
theorem weightedUnits_weight (hm : x.multiplier < u64Bound) (h : x.weightedUnits = .ok n) :
    x.weight = n :=
  ((weightedUnits_eq_ok hm).1 h).1

/-- **What a migration does to the weight**: from the linear curve to the other one. -/
theorem migrateWeight_weight (hm : x.multiplier < u64Bound) (hold : x.weightVersion = 0)
    (h : x.migrateWeight t = .ok (x', t')) :
    ∃ m m', x.weightedUnits = .ok m ∧ x'.weightedUnits = .ok m' ∧
      m = boosted x.isNftStaked (weightAt x.multiplier x.balance) ∧
      m' = boosted x.isNftStaked (weightAt (curve x.multiplier) x.balance) ∧
      t'.totalStaked + m = t.totalStaked + m' := by
  obtain ⟨y, m, m', hy, hunits, hunits', ht, rfl⟩ := (migrateWeight_eq_ok hold).1 h
  have hframe := (updateRewards_frame x t).elim hy
  have hx : x.weightedUnits = .ok m := by
    rw [← hunits, hframe]
    exact weightedUnits_congr rfl rfl rfl rfl
  have hweight : x.weight = m := weightedUnits_weight hm hx
  have hweight' : ({ y with weightVersion := 1 } : StakeV2).weight = m' := by
    refine weightedUnits_weight ?_ hunits'
    rw [hframe]
    exact hm
  rw [weight, rate, if_pos hold] at hweight
  rw [weight, rate, if_neg (by simp), hframe] at hweight'
  obtain ⟨total, rfl, htotal⟩ := (moveTotalStaked_spec t m m').elim ht
  exact ⟨m, m', hx, hunits', hweight.symm, hweight'.symm, htotal⟩

end StakeV2

/-- **The square-root curve.**  The multiplier on it is the floor of the root for every
64-bit multiplier, and it lies between one and the linear multiplier.  So a migration never
raises the weight of a multiplier above one and never lowers the weight of one below it, and
the total moves by the difference. -/
theorem migrateWeight_curve :
    (∀ m < u64Bound,
      isqrtU128 (m * stakeMultiplierScale) = .ok (Nat.sqrt (m * stakeMultiplierScale)) ∧
      Nat.sqrt (m * stakeMultiplierScale) < u64Bound ∧
      effectiveMultiplier m = .ok (Nat.sqrt (m * stakeMultiplierScale))) ∧
    (∀ m' < u64Bound, ∀ m ≤ m', ∃ e e', effectiveMultiplier m = .ok e ∧
      effectiveMultiplier m' = .ok e' ∧ e ≤ e') ∧
    (∀ m < u64Bound, ∃ e, effectiveMultiplier m = .ok e ∧
      (stakeMultiplierScale ≤ m → stakeMultiplierScale ≤ e ∧ e ≤ m) ∧
      (m ≤ stakeMultiplierScale → m ≤ e ∧ e ≤ stakeMultiplierScale)) ∧
    ∀ (x x' : StakeV2) (t t' : Treasury), x.multiplier < u64Bound → x.weightVersion = 0 →
      x.migrateWeight t = .ok (x', t') →
        ∃ m m', x.weightedUnits = .ok m ∧ x'.weightedUnits = .ok m' ∧
          (stakeMultiplierScale ≤ x.multiplier → m' ≤ m) ∧
          (x.multiplier ≤ stakeMultiplierScale → m ≤ m') ∧
          (x.multiplier = stakeMultiplierScale → m' = m) ∧
          t'.totalStaked + m = t.totalStaked + m' := by
  refine ⟨fun m hm => ?_, fun m' hm' m hle => ?_, fun m hm => ?_, ?_⟩
  · exact ⟨isqrtU128_eq (scaled_lt hm), curve_lt hm, effectiveMultiplier_eq hm⟩
  · exact ⟨curve m, curve m', effectiveMultiplier_eq (hle.trans_lt hm'),
      effectiveMultiplier_eq hm', curve_mono hle⟩
  · refine ⟨curve m, effectiveMultiplier_eq hm, fun hle => ?_, fun hle => ?_⟩
    · have hone := curve_mono hle
      rw [curve_scale] at hone
      exact ⟨hone, curve_le hle⟩
    · have hone := curve_mono hle
      rw [curve_scale] at hone
      exact ⟨le_curve hle, hone⟩
  · intro x x' t t' hm hold h
    obtain ⟨m, m', hunits, hunits', hweight, hweight', htotal⟩ :=
      StakeV2.migrateWeight_weight hm hold h
    have hfalls : stakeMultiplierScale ≤ x.multiplier → m' ≤ m := by
      intro hle
      rw [hweight, hweight']
      exact boosted_mono id (weightAt_mono (curve_le hle) le_rfl)
    have hrises : x.multiplier ≤ stakeMultiplierScale → m ≤ m' := by
      intro hle
      rw [hweight, hweight']
      exact boosted_mono id (weightAt_mono (le_curve hle) le_rfl)
    refine ⟨m, m', hunits, hunits', hfalls, hrises, fun hone => ?_, htotal⟩
    exact le_antisymm (hfalls hone.ge) (hrises hone.le)

/-- A stake of 1000 with the longest lock, on the linear curve. -/
def longStake : StakeV2 :=
  { StakeV2.zeroed with balance := 1000, multiplier := 20 * stakeMultiplierScale }

/-- A treasury that counts a total of `n`. -/
def totalling (n : ℕ) : Treasury := { State.genesis.treasury with totalStaked := n }

/-- The stake weighs 20000 on the linear curve, and 4472 on the other one. -/
theorem migrateWeight_longStake : longStake.migrateWeight (totalling 20000) =
    .ok ({ longStake with weightVersion := 1 }, totalling 4472) := by
  have hcurve : curve (20 * stakeMultiplierScale) = 4472135954 := by
    refine (Nat.eq_sqrt.2 ⟨?_, ?_⟩).symm <;> decide
  refine (StakeV2.migrateWeight_eq_ok rfl).2 ⟨longStake, 20000, 4472, rfl, rfl, ?_, rfl, rfl⟩
  refine (StakeV2.weightedUnits_eq_ok (by decide)).2 ⟨?_, by decide⟩
  rw [StakeV2.weight, StakeV2.rate, if_neg (by decide)]
  change boosted 0 (weightAt (curve (20 * stakeMultiplierScale)) 1000) = 4472
  rw [hcurve]
  rfl

/-- The migration of a stake with a multiplier above one. -/
theorem migrateWeight_curve_longStake :
    ∃ m m', longStake.weightedUnits = .ok m ∧
      ({ longStake with weightVersion := 1 } : StakeV2).weightedUnits = .ok m' ∧ m' ≤ m ∧
        4472 + m = 20000 + m' := by
  obtain ⟨m, m', hunits, hunits', hfalls, -, -, htotal⟩ := migrateWeight_curve.2.2.2
    _ _ _ _ (by decide) rfl migrateWeight_longStake
  exact ⟨m, m', hunits, hunits', hfalls (by decide), htotal⟩

/-! ## Locks and splits -/

namespace StakeV2

variable {x y z : StakeV2} {t t' u u' : Treasury} {n p q amount sender : ℕ} {clock clock' : Clock}

/-- **A deposit that is withdrawn again leaves the total where it was**, whatever happened to
the treasury in between. -/
theorem deposit_withdraw_total (hdeposit : x.deposit amount clock t sender = .ok (n, y, t'))
    (hwithdraw : y.withdraw n clock' u = .ok (p, z, u')) :
    p = n ∧ z.balance = x.balance ∧
      u'.totalStaked + t'.totalStaked = u.totalStaked + t.totalStaked := by
  obtain ⟨v, q, r, hv, hq, -, -, hy, hr, ht⟩ := deposit_eq_ok.1 hdeposit
  obtain ⟨w, q', r', hw, hq', hp, hz, hr', hu⟩ := withdraw_eq_ok.1 hwithdraw
  have hvx := (updateRewards_frame x t).elim hv
  have hwy := (updateRewards_frame y u).elim hw
  have hbalance : w.balance = x.balance + n := by rw [hwy, hy, hvx]
  have hpn : p = n := by
    rw [hp, hbalance]
    omega
  have hback : z.balance = x.balance := by
    rw [hz]
    dsimp only
    omega
  -- The weight before the withdrawal is the one after the deposit, and the other way round.
  have hsame : w.weightedUnits = y.weightedUnits := by
    rw [hwy]
    exact weightedUnits_congr rfl rfl rfl rfl
  have hsame' : z.weightedUnits = v.weightedUnits := by
    refine weightedUnits_congr ?_ ?_ ?_ ?_
    · rw [hback, hvx]
    · rw [hz, hwy, hy]
    · rw [hz, hwy, hy]
    · rw [hz, hwy, hy]
  rw [hsame, hr] at hq'
  rw [hsame', hq] at hr'
  cases hq'
  cases hr'
  obtain ⟨total, rfl, htotal⟩ := (moveTotalStaked_spec t q r).elim ht
  obtain ⟨total', rfl, htotal'⟩ := (moveTotalStaked_spec u r q).elim hu
  refine ⟨hpn, hback, ?_⟩
  dsimp only
  omega

/-- A stake with a smaller balance, a shorter lock or without the NFT weighs no more. -/
theorem weightedUnits_mono (hx : x.multiplier < u64Bound) (hy : y.multiplier < u64Bound)
    (hrate : x.rate ≤ y.rate) (hbalance : x.balance ≤ y.balance)
    (hnft : x.isNftStaked ≠ 0 → y.isNftStaked ≠ 0) (h : y.weightedUnits = .ok n) :
    ∃ m ≤ n, x.weightedUnits = .ok m := by
  obtain ⟨rfl, hlt⟩ := (weightedUnits_eq_ok hy).1 h
  have hle := weight_mono hrate hbalance hnft
  exact ⟨x.weight, hle, (weightedUnits_eq_ok hx).2 ⟨rfl, hle.trans_lt hlt⟩⟩

/-- The stake with another balance. -/
def withBalance (x : StakeV2) (b : ℕ) : StakeV2 := { x with balance := b }

/-- **The parts of a stake weigh no more than the whole**, however many they are. -/
theorem weightedUnits_split (hm : x.multiplier < u64Bound) (balances : List ℕ) :
    ∀ n, (x.withBalance balances.sum).weightedUnits = .ok n →
      ∃ weights, balances.mapM (fun b => (x.withBalance b).weightedUnits) =
        .ok weights ∧ weights.sum ≤ n := by
  induction balances with
  | nil =>
    intro n _
    exact ⟨[], rfl, Nat.zero_le n⟩
  | cons b balances ih =>
    intro n h
    have hwithin : ∀ b, (x.withBalance b).multiplier < u64Bound := fun _ => hm
    obtain ⟨rfl, hlt⟩ := (weightedUnits_eq_ok (hwithin _)).1 h
    have hsum : (x.withBalance b).weight + (x.withBalance balances.sum).weight ≤
        (x.withBalance (b :: balances).sum).weight := weight_add_le x b balances.sum
    have hb := (weightedUnits_eq_ok (hwithin b)).2 ⟨rfl, by omega⟩
    obtain ⟨weights, hweights, hle⟩ := ih _ ((weightedUnits_eq_ok (hwithin _)).2 ⟨rfl, by omega⟩)
    refine ⟨(x.withBalance b).weight :: weights, ?_, ?_⟩
    · rw [List.mapM_cons, hb, ok_bind, hweights]
      rfl
    · rw [List.sum_cons]
      omega

end StakeV2

/-- **Neither locks nor splits game the weight.**  On either curve the weight of a stake, with
the multiplier of its lock, grows with the balance, the lock and the NFT; its parts together
weigh no more than the whole; and what is deposited and withdrawn again leaves the total where
it was. -/
theorem weightedUnits_fair :
    (∀ x y : StakeV2, x.multiplier = stakeMultiplier x.lockDuration →
      y.multiplier = stakeMultiplier y.lockDuration →
      (x.weightVersion = 0 ↔ y.weightVersion = 0) → x.balance ≤ y.balance →
      x.lockDuration ≤ y.lockDuration → (x.isNftStaked ≠ 0 → y.isNftStaked ≠ 0) →
      ∀ n, y.weightedUnits = .ok n → ∃ m ≤ n, x.weightedUnits = .ok m) ∧
    (∀ x : StakeV2, x.multiplier = stakeMultiplier x.lockDuration → ∀ (balances : List ℕ) (n : ℕ),
      (x.withBalance balances.sum).weightedUnits = .ok n →
        ∃ weights, balances.mapM (fun b => (x.withBalance b).weightedUnits) =
          .ok weights ∧ weights.sum ≤ n) ∧
    ∀ (x y z : StakeV2) (amount sender n p : ℕ) (clock clock' : Clock) (t t' u u' : Treasury),
      x.deposit amount clock t sender = .ok (n, y, t') → y.withdraw n clock' u = .ok (p, z, u') →
        p = n ∧ z.balance = x.balance ∧
          u'.totalStaked + t'.totalStaked = u.totalStaked + t.totalStaked := by
  refine ⟨?_, ?_, ?_⟩
  · intro x y hx hy hversion hbalance hlock hnft n h
    have hm : x.multiplier ≤ y.multiplier := by
      rw [hx, hy]
      exact stakeMultiplier_mono hlock
    have hmy : y.multiplier < u64Bound := hy ▸ stakeMultiplier_lt _
    exact StakeV2.weightedUnits_mono (hm.trans_lt hmy) hmy (StakeV2.rate_mono hversion hm)
      hbalance hnft h
  · intro x hx balances n h
    exact StakeV2.weightedUnits_split (hx ▸ stakeMultiplier_lt _) balances n h
  · intro x y z amount sender n p clock clock' t t' u u' hdeposit hwithdraw
    exact StakeV2.deposit_withdraw_total hdeposit hwithdraw

/-- A stake on the root, locked for a year and with an NFT. -/
def yearStake : StakeV2 := { StakeV2.zeroed with
  multiplier := stakeMultiplier 31536000
  lockDuration := 31536000
  isNftStaked := 1
  weightVersion := 1 }

/-- Its parts of 333 and 668 round more than the whole. -/
theorem weightedUnits_fair_parts :
    (yearStake.withBalance 1001).weightedUnits = .ok 3567 ∧
    ∃ weights, [333, 668].mapM (fun b => (yearStake.withBalance b).weightedUnits) = .ok weights ∧
      weights.sum ≤ 3567 := by
  have hwhole : (yearStake.withBalance [333, 668].sum).weightedUnits = .ok 3567 := by
    decide +kernel
  exact ⟨hwhole, weightedUnits_fair.2.1 yearStake rfl [333, 668] 3567 hwhole⟩

end Godl
