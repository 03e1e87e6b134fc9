import Godl.Lib.Passes
import Godl.Proof.StakeHandlers

/-!
# Migrating the weight of a stake

Anyone may move a stake to the square-root curve at any time.  The instructions that do this
on their own see no difference afterwards; for the other ones it makes no difference whether
the stake is moved before or after.

## Main definitions

* `StakeV2.migrateWeight_claim`, `StakeV2.migrateWeight_withdraw`,
  `StakeV2.migrateWeight_comm` — migrating a stake before or after something else.
* `State.restake` — rewriting a stake and the treasury.
* `Migrates` — migrating a stake of a state.
-/

namespace Godl

open Lib

/-! ## Two moves of the total -/

section Moves

variable {t t₁ t₂ u₁ u₂ : Treasury} {p q q' r m n : ℕ}

/-- The total telescopes. -/
theorem moveTotalStaked_telescope (h₁ : moveTotalStaked t p q = .ok t₁)
    (h₂ : moveTotalStaked t₁ q r = .ok t₂) (h₁' : moveTotalStaked t p q' = .ok u₁)
    (h₂' : moveTotalStaked u₁ q' r = .ok u₂) : t₂ = u₂ := by
  obtain ⟨a, rfl, ha⟩ := (moveTotalStaked_spec t p q).elim h₁
  obtain ⟨b, rfl, hb⟩ := (moveTotalStaked_spec _ q r).elim h₂
  obtain ⟨c, rfl, hc⟩ := (moveTotalStaked_spec t p q').elim h₁'
  obtain ⟨d, rfl, hd⟩ := (moveTotalStaked_spec _ q' r).elim h₂'
  have hbd : b = d := by
    dsimp only at hb hd
    omega
  rw [hbd]

/-- Two moves of the total commute. -/
theorem moveTotalStaked_comm (h₁ : moveTotalStaked t p q = .ok t₁)
    (h₂ : moveTotalStaked t₁ m n = .ok t₂) (h₁' : moveTotalStaked t m n = .ok u₁)
    (h₂' : moveTotalStaked u₁ p q = .ok u₂) : t₂ = u₂ := by
  obtain ⟨a, rfl, ha⟩ := (moveTotalStaked_spec t p q).elim h₁
  obtain ⟨b, rfl, hb⟩ := (moveTotalStaked_spec _ m n).elim h₂
  obtain ⟨c, rfl, hc⟩ := (moveTotalStaked_spec t m n).elim h₁'
  obtain ⟨d, rfl, hd⟩ := (moveTotalStaked_spec _ p q).elim h₂'
  have hbd : b = d := by
    dsimp only at hb hd
    omega
  rw [hbd]

theorem moveTotalStaked_factor (h : moveTotalStaked t p q = .ok t₁) :
    t₁.stakeRewardsFactor = t.stakeRewardsFactor := by
  obtain ⟨a, rfl, -⟩ := (moveTotalStaked_spec t p q).elim h
  rfl

end Moves

/-! ## Migrating a stake before or after something else -/

namespace StakeV2

variable {x x' x'' y y' y'' z : StakeV2} {t t' t₁ t₂ u u₁ u₂ : Treasury} {n p q : ℕ}
  {clock : Clock}

/-- Settling reads the factor of the treasury only. -/
theorem updateRewards_congr (x : StakeV2) (h : t.stakeRewardsFactor = u.stakeRewardsFactor) :
    x.updateRewards t = x.updateRewards u := by
  simp only [updateRewards, h]

/-- A settled stake stays as it is. -/
theorem updateRewards_of_settled (h : x.rewardsFactor = t.stakeRewardsFactor) :
    x.updateRewards t = .ok x := by
  unfold updateRewards
  rw [if_neg]
  · rw [← h]
    rfl
  · rw [h]
    exact Nat.lt_irrefl _

/-- Settling changes what is owed and the factor only. -/
theorem updateRewards_frame (x : StakeV2) (t : Treasury) :
    Ensures (x.updateRewards t) fun y => y = { x with
      rewards := y.rewards
      lifetimeRewards := y.lifetimeRewards
      rewardsFactor := t.stakeRewardsFactor } := by
  simp only [updateRewards, ensures_ite, ensures_bind, ensures_pure]
  refine ⟨fun _ => ?_, fun _ => trivial⟩
  refine ensures_of_forall fun _ => ensures_of_forall fun _ => ensures_of_forall fun _ => ?_
  exact ensures_of_forall fun _ => ensures_of_forall fun _ => trivial

/-- What a migration does: it settles the stake and puts it on the other curve. -/
theorem migrateWeight_eq_ok (hold : x.weightVersion = 0) :
    x.migrateWeight t = .ok (x', t') ↔ ∃ y p q, x.updateRewards t = .ok y ∧
      y.weightedUnits = .ok p ∧ ({ y with weightVersion := 1 } : StakeV2).weightedUnits = .ok q ∧
      moveTotalStaked t p q = .ok t' ∧ { y with weightVersion := 1 } = x' := by
  simp only [migrateWeight, hold, ne_eq, not_true, if_false, reweigh, bind_eq_ok, pure_eq_ok,
    Prod.mk.injEq]
  constructor
  · rintro ⟨y, hy, p, hp, q, hq, _, ht, hx, rfl⟩
    exact ⟨y, p, q, hy, hp, hq, ht, hx⟩
  · rintro ⟨y, p, q, hy, hp, hq, ht, hx⟩
    exact ⟨y, hy, p, hp, q, hq, t', ht, hx, rfl⟩

/-- A stake that is on the other curve stays as it is. -/
theorem migrateWeight_of_ne (h : x.weightVersion ≠ 0) (t : Treasury) :
    x.migrateWeight t = .ok (x, t) := if_pos h

/-- What a migration keeps. -/
theorem migrateWeight_frame (hold : x.weightVersion = 0) (h : x.migrateWeight t = .ok (x', t')) :
    x' = { x with
      rewards := x'.rewards
      lifetimeRewards := x'.lifetimeRewards
      rewardsFactor := t.stakeRewardsFactor
      weightVersion := 1 } ∧ t'.stakeRewardsFactor = t.stakeRewardsFactor := by
  obtain ⟨y, p, q, hy, -, -, ht, rfl⟩ := (migrateWeight_eq_ok hold).1 h
  have hframe := (updateRewards_frame x t).elim hy
  refine ⟨?_, moveTotalStaked_factor ht⟩
  rw [hframe]

/-- **Migrating before a claim is migrating after it.** -/
theorem migrateWeight_claim (hold : x.weightVersion = 0)
    (hmigrate : x.migrateWeight t = .ok (x', t')) (hclaim' : x'.claim n clock t' = .ok (p, y'))
    (hclaim : x.claim n clock t = .ok (q, y)) :
    p = q ∧ y.weightVersion = 0 ∧ y.migrateWeight t = .ok (y', t') := by
  obtain ⟨w, m, k, hw, hm, hk, ht, rfl⟩ := (migrateWeight_eq_ok hold).1 hmigrate
  have hframe := (updateRewards_frame x t).elim hw
  have hfactor : w.rewardsFactor = t.stakeRewardsFactor := by rw [hframe]
  have hfactor' : ({ w with weightVersion := 1 } : StakeV2).rewardsFactor =
      t'.stakeRewardsFactor := hfactor.trans (moveTotalStaked_factor ht).symm
  simp only [claim, updateRewards_of_settled hfactor', hw, ok_bind, pure_eq_ok,
    Prod.mk.injEq] at hclaim hclaim'
  obtain ⟨rfl, rfl⟩ := hclaim
  obtain ⟨rfl, rfl⟩ := hclaim'
  have hversion : w.weightVersion = 0 := by rw [hframe]; exact hold
  refine ⟨rfl, hversion, (migrateWeight_eq_ok ?_).2 ⟨{ w with
    rewards := w.rewards - min w.rewards n
    lastClaimAt := clock.unixTimestamp }, m, k, ?_, ?_, ?_, ht, rfl⟩⟩
  · exact hversion
  · exact updateRewards_of_settled hfactor
  · exact (weightedUnits_congr rfl rfl rfl rfl).trans hm
  · exact (weightedUnits_congr rfl rfl rfl rfl).trans hk

/-- What a deposit does. -/
theorem deposit_eq_ok : x.deposit n clock t q = .ok (p, z, t') ↔ ∃ y m r,
    x.updateRewards t = .ok y ∧ y.weightedUnits = .ok m ∧ p = min q n ∧
    y.balance + p < u64Bound ∧
    z = { y with balance := y.balance + p, lastDepositAt := clock.unixTimestamp } ∧
    z.weightedUnits = .ok r ∧ moveTotalStaked t m r = .ok t' := by
  simp only [deposit, bind_eq_ok, pure_eq_ok, Prod.mk.injEq, addU64_eq_ok]
  constructor
  · rintro ⟨y, hy, m, hm, _, ⟨hfits, rfl⟩, r, hr, _, ht, rfl, rfl, rfl⟩
    exact ⟨y, m, r, hy, hm, rfl, hfits, rfl, hr, ht⟩
  · rintro ⟨y, m, r, hy, hm, rfl, hfits, rfl, hr, ht⟩
    exact ⟨y, hy, m, hm, _, ⟨hfits, rfl⟩, r, hr, t', ht, rfl, rfl, rfl⟩

/-- What a withdrawal does. -/
theorem withdraw_eq_ok : x.withdraw n clock t = .ok (p, x', t') ↔ ∃ y q r,
    x.updateRewards t = .ok y ∧ y.weightedUnits = .ok q ∧ p = min y.balance n ∧
    x' = { y with balance := y.balance - p, lastWithdrawAt := clock.unixTimestamp } ∧
    x'.weightedUnits = .ok r ∧ moveTotalStaked t q r = .ok t' := by
  simp only [withdraw, bind_eq_ok, pure_eq_ok, Prod.mk.injEq]
  constructor
  · rintro ⟨y, hy, q, hq, r, hr, _, ht, rfl, rfl, rfl⟩
    exact ⟨y, q, r, hy, hq, rfl, rfl, hr, ht⟩
  · rintro ⟨y, q, r, hy, hq, rfl, rfl, hr, ht⟩
    exact ⟨y, hy, q, hq, r, hr, t', ht, rfl, rfl, rfl⟩

/-- **Migrating before a withdrawal is migrating after it.** -/
theorem migrateWeight_withdraw (hold : x.weightVersion = 0)
    (hmigrate : x.migrateWeight t = .ok (x', t'))
    (hwithdraw' : x'.withdraw n clock t' = .ok (p, y', u₁))
    (hwithdraw : x.withdraw n clock t = .ok (q, y, u))
    (hmigrate' : y.migrateWeight u = .ok (z, u₂)) :
    p = q ∧ y.weightVersion = 0 ∧ z = y' ∧ u₂ = u₁ := by
  obtain ⟨w, m, k, hw, hm, hk, ht, rfl⟩ := (migrateWeight_eq_ok hold).1 hmigrate
  have hframe := (updateRewards_frame x t).elim hw
  have hversion : w.weightVersion = 0 := by rw [hframe]; exact hold
  have hfactor : w.rewardsFactor = t.stakeRewardsFactor := by rw [hframe]
  obtain ⟨w₁, a, b, hw₁, ha, rfl, hy', hb, hu₁⟩ := withdraw_eq_ok.1 hwithdraw'
  obtain ⟨w₂, c, d, hw₂, hc, rfl, hy, hd, hu⟩ := withdraw_eq_ok.1 hwithdraw
  have hfactor' : ({ w with weightVersion := 1 } : StakeV2).rewardsFactor =
      t'.stakeRewardsFactor := hfactor.trans (moveTotalStaked_factor ht).symm
  rw [updateRewards_of_settled hfactor'] at hw₁
  rw [hw] at hw₂
  cases hw₁
  cases hw₂
  have hversion' : y.weightVersion = 0 := by rw [hy]; exact hversion
  obtain ⟨w₃, e, f, hw₃, he, hf, hu₂, rfl⟩ := (migrateWeight_eq_ok hversion').1 hmigrate'
  rw [updateRewards_of_settled] at hw₃
  · cases hw₃
    have hyy' : ({ y with weightVersion := 1 } : StakeV2) = y' := by rw [hy, hy']
    -- The weights before, on either curve, and after.
    rw [hk] at ha
    rw [hm] at hc
    rw [hd] at he
    rw [hyy', hb] at hf
    cases ha
    cases hc
    cases he
    cases hf
    exact ⟨rfl, hversion', hyy', moveTotalStaked_telescope hu hu₂ ht hu₁⟩
  · rw [hy, moveTotalStaked_factor hu, hfactor]

/-- **Two migrations commute.** -/
theorem migrateWeight_comm (hx : x.weightVersion = 0)
    (h₁ : x.migrateWeight t = .ok (x', t₁)) (h₂ : y.migrateWeight t₁ = .ok (y', t₂))
    (h₁' : y.migrateWeight t = .ok (y'', u₁)) (h₂' : x.migrateWeight u₁ = .ok (x'', u₂)) :
    x' = x'' ∧ y' = y'' ∧ t₂ = u₂ := by
  by_cases hy : y.weightVersion = 0
  · obtain ⟨w, p, q, hw, hp, hq, ht₁, rfl⟩ := (migrateWeight_eq_ok hx).1 h₁
    obtain ⟨v, m, n, hv, hm, hn, ht₂, rfl⟩ := (migrateWeight_eq_ok hy).1 h₂
    obtain ⟨v', m', n', hv', hm', hn', hu₁, rfl⟩ := (migrateWeight_eq_ok hy).1 h₁'
    obtain ⟨w', p', q', hw', hp', hq', hu₂, rfl⟩ := (migrateWeight_eq_ok hx).1 h₂'
    rw [updateRewards_congr y (moveTotalStaked_factor ht₁), hv'] at hv
    rw [updateRewards_congr x (moveTotalStaked_factor hu₁), hw] at hw'
    cases hv
    cases hw'
    rw [hp] at hp'
    rw [hq] at hq'
    rw [hm] at hm'
    rw [hn] at hn'
    cases hp'
    cases hq'
    cases hm'
    cases hn'
    exact ⟨rfl, rfl, moveTotalStaked_comm ht₁ ht₂ hu₁ hu₂⟩
  · rw [migrateWeight_of_ne hy] at h₂ h₁'
    cases h₂
    cases h₁'
    rw [h₁] at h₂'
    cases h₂'
    exact ⟨rfl, rfl, rfl⟩

/-! ### The curve is kept -/

theorem updateRewards_version (x : StakeV2) (t : Treasury) :
    Ensures (x.updateRewards t) fun y => y.weightVersion = x.weightVersion :=
  Ensures.mono (updateRewards_frame x t) fun y hy => by rw [hy]

theorem claim_version (x : StakeV2) (amount : ℕ) (clock : Clock) (t : Treasury) :
    Ensures (x.claim amount clock t) fun r => r.2.weightVersion = x.weightVersion := by
  simp only [claim, ensures_bind, ensures_pure]
  exact updateRewards_version x t

theorem deposit_version (x : StakeV2) (amount : ℕ) (clock : Clock) (t : Treasury) (sender : ℕ) :
    Ensures (x.deposit amount clock t sender) fun r => r.2.1.weightVersion = x.weightVersion := by
  simp only [deposit, ensures_bind, ensures_addU64, ensures_pure]
  refine Ensures.mono (updateRewards_version x t) fun y hy => ?_
  exact ensures_of_forall fun _ _ => ensures_of_forall fun _ => ensures_of_forall fun _ => hy

theorem withdraw_version (x : StakeV2) (amount : ℕ) (clock : Clock) (t : Treasury) :
    Ensures (x.withdraw amount clock t) fun r => r.2.1.weightVersion = x.weightVersion := by
  simp only [withdraw, ensures_bind, ensures_pure]
  refine Ensures.mono (updateRewards_version x t) fun y hy => ?_
  exact ensures_of_forall fun _ => ensures_of_forall fun _ => ensures_of_forall fun _ => hy

theorem reweigh_version (x : StakeV2) (t : Treasury) {change : StakeV2 → StakeV2}
    (hchange : ∀ y, (change y).weightVersion = y.weightVersion) :
    Ensures (x.reweigh t change) fun r => r.1.weightVersion = x.weightVersion := by
  simp only [reweigh, ensures_bind, ensures_pure]
  refine Ensures.mono (updateRewards_version x t) fun y hy => ?_
  exact ensures_of_forall fun _ => ensures_of_forall fun _ => ensures_of_forall fun _ =>
    (hchange y).trans hy

theorem stakeNft_version (x : StakeV2) (t : Treasury) :
    Ensures (x.stakeNft t) fun r => r.1.weightVersion = x.weightVersion := by
  unfold stakeNft
  split
  · exact ensures_error.2 trivial
  · exact reweigh_version x t fun _ => rfl

theorem unstakeNft_version (x : StakeV2) (t : Treasury) :
    Ensures (x.unstakeNft t) fun r => r.1.weightVersion = x.weightVersion := by
  unfold unstakeNft
  split
  · exact ensures_error.2 trivial
  · exact reweigh_version x t fun _ => rfl

/-- A migration leaves the linear curve. -/
theorem migrateWeight_version (x : StakeV2) (t : Treasury) :
    Ensures (x.migrateWeight t) fun r => r.1.weightVersion ≠ 0 := by
  unfold migrateWeight
  split
  · next h => exact ensures_ok.2 h
  · simp only [reweigh, ensures_bind, ensures_pure]
    refine ensures_of_forall fun _ => ensures_of_forall fun _ => ?_
    exact ensures_of_forall fun _ => ensures_of_forall fun _ => one_ne_zero

end StakeV2

/-! ## Migrating a stake of a state -/

/-- A stake and the treasury are rewritten. -/
def State.restake (s : State) (a : StakeV2Account) (x : StakeV2) (t : Treasury) : State :=
  { s.putStakeV2 a x with treasury := t }

section Restake

variable {s : State} {a b : StakeV2Account} {x y : StakeV2} {t u : Treasury}

@[simp] theorem State.restake_treasury : (s.restake a x t).treasury = t := rfl

@[simp] theorem State.restake_get :
    (s.restake a x t).stakesV2.get a.address = some { a with stake := x } := get_restaked s a x

theorem State.restake_get_of_ne {k : Pubkey} (h : k ≠ a.address) :
    (s.restake a x t).stakesV2.get k = s.stakesV2.get k := get_restaked_of_ne s a x h

/-- The second time counts. -/
theorem State.restake_restake (s : State) (a : StakeV2Account) (x y : StakeV2) (t u : Treasury) :
    (s.restake a x t).restake { a with stake := x } y u = s.restake a y u := by
  have hput : (s.stakesV2.put { a with stake := x }).put { a with stake := y } =
      s.stakesV2.put { a with stake := y } := Store.put_put _ rfl
  simp only [restake, putStakeV2, hput]

theorem State.restake_write (s : State) (a : StakeV2Account) (x y : StakeV2) (t u : Treasury) :
    ({ (s.restake a x t).putStakeV2 { a with stake := x } y with treasury := u } : State) =
      { s.putStakeV2 a y with treasury := u } := State.restake_restake s a x y t u

/-- No stake appears or disappears. -/
theorem State.isSome_restake (h : s.stakesV2.get a.address = some b) (k : Pubkey) :
    ((s.restake a x t).stakesV2.get k).isSome = (s.stakesV2.get k).isSome := by
  by_cases hk : k = a.address
  · rw [hk, State.restake_get, h]
    rfl
  · rw [State.restake_get_of_ne hk]

theorem State.dataIsEmpty_restake (h : s.stakesV2.get a.address = some b) (k : Pubkey) :
    (s.restake a x t).dataIsEmpty k = s.dataIsEmpty k := by
  have hnone : ((s.restake a x t).stakesV2.get k).isNone = (s.stakesV2.get k).isNone := by
    rw [← Option.not_isSome, State.isSome_restake h, Option.not_isSome]
  rw [dataIsEmpty, dataIsEmpty, hnone]
  rfl

theorem State.loadError_restake (h : s.stakesV2.get a.address = some b) (k : Pubkey) :
    (s.restake a x t).loadError k = s.loadError k := by
  rw [loadError, loadError, isOwned, isOwned, State.isSome_restake h]
  rfl

/-! ### What does not look at stakes -/

@[simp] theorem State.restake_tokens : (s.restake a x t).tokens = s.tokens := rfl

theorem State.asTokens_restake (info : AccountInfo) (owner mint : Pubkey) :
    (s.restake a x t).asAssociatedTokenAccount info owner mint =
      s.asAssociatedTokenAccount info owner mint := rfl

theorem State.asSingleton_restake (h : s.stakesV2.get a.address = some b) (info : AccountInfo)
    (w : Singleton) : (s.restake a x t).asSingleton w info = s.asSingleton w info := by
  rw [asSingleton, asSingleton, State.loadError_restake h]
  rfl

theorem transferTokens_passes (source dest : Pubkey) (n : ℕ) :
    Passes (State.restake · a x t) (State.transferTokens · source dest n) s := by
  simp only [Passes, State.transferTokens, map_bind, map_pure]
  rfl

theorem burnTokens_passes (source : Pubkey) (n : ℕ) :
    Passes (State.restake · a x t) (State.burnTokens · source n) s := by
  simp only [Passes, State.burnTokens, map_bind, map_pure]
  rfl

theorem openTokenAccount_passes (h : s.stakesV2.get a.address = some b) (info : AccountInfo)
    (owner mint : Pubkey) (payer : AccountInfo) :
    Passes (State.restake · a x t) (State.openTokenAccount · info owner mint payer) s := by
  simp only [Passes, State.openTokenAccount, State.createTokenAccount, State.createAccount,
    State.collect, State.dataIsEmpty_restake h, apply_ite (Functor.map _), map_bind, map_pure,
    bind_assoc]
  rfl

/-! ### What does -/

theorem State.asStakeV2_of_get {info : AccountInfo} (h : s.stakesV2.get info.key = some a) :
    s.asStakeV2 info = .ok a := by
  rw [State.asStakeV2, State.load, h]
  rfl

theorem State.asStakeV2_restake {info : AccountInfo} (h : info.key = a.address) :
    (s.restake a x t).asStakeV2 info = .ok { a with stake := x } :=
  State.asStakeV2_of_get (by rw [h, State.restake_get])

end Restake

/-- Migrating the stake `a` of a state leaves `x` and the treasury `t`. -/
structure Migrates (s : State) (a : StakeV2Account) (x : StakeV2) (t : Treasury) : Prop where
  get : s.stakesV2.get a.address = some a
  old : a.stake.weightVersion = 0
  migrate : a.stake.migrateWeight s.treasury = .ok (x, t)

namespace Migrates

variable {s : State} {a : StakeV2Account} {x : StakeV2} {t : Treasury}

/-- The stake is on the other curve then. -/
theorem version (h : Migrates s a x t) : x.weightVersion ≠ 0 :=
  (StakeV2.migrateWeight_version a.stake s.treasury).elim h.migrate

theorem again (h : Migrates s a x t) : x.migrateWeight t = .ok (x, t) :=
  StakeV2.migrateWeight_of_ne h.version t

theorem frame (h : Migrates s a x t) : x = { a.stake with
    rewards := x.rewards
    lifetimeRewards := x.lifetimeRewards
    rewardsFactor := s.treasury.stakeRewardsFactor
    weightVersion := 1 } := (StakeV2.migrateWeight_frame h.old h.migrate).1

theorem authority (h : Migrates s a x t) : x.authority = a.stake.authority := by rw [h.frame]

theorem id (h : Migrates s a x t) : x.id = a.stake.id := by rw [h.frame]

theorem executor (h : Migrates s a x t) : x.executor = a.stake.executor := by rw [h.frame]

theorem balance (h : Migrates s a x t) : x.balance = a.stake.balance := by rw [h.frame]

theorem isNftStaked (h : Migrates s a x t) : x.isNftStaked = a.stake.isNftStaked := by
  rw [h.frame]

end Migrates

/-- No stake at an address is on the linear curve. -/
def State.Migrated (s : State) (k : Pubkey) : Prop :=
  ∀ b, s.stakesV2.get k = some b → b.stake.weightVersion ≠ 0

/-- From `s`, the computation `f` migrates the stake `a` on its own. -/
structure MigratesFirst (f : State → Result State) (s : State) (a : StakeV2Account) : Prop where
  same : ∀ x t, Migrates s a x t → f (s.restake a x t) = f s
  migrated : Ensures (f s) (State.Migrated · a.address)

/-- A stake that was written back on the other curve. -/
theorem migrated_of_put {s s' : State} {a : StakeV2Account} {y : StakeV2}
    (hstakes : s'.stakesV2 = (s.putStakeV2 a y).stakesV2) (hy : y.weightVersion ≠ 0) :
    s'.Migrated a.address := by
  intro b hb
  have hget : (s.putStakeV2 a y).stakesV2.get a.address = some { a with stake := y } :=
    get_restaked s a y
  rw [hstakes, hget, Option.some.injEq] at hb
  rw [← hb]
  exact hy

/-- Moving tokens leaves the stakes alone. -/
theorem transferTokens_stakesV2 (s : State) (source dest : Pubkey) (n : ℕ) :
    Ensures (s.transferTokens source dest n) fun s' => s'.stakesV2 = s.stakesV2 := by
  refine Ensures.mono (State.transferTokens_spec s source dest n) ?_
  rintro _ ⟨tok, rfl, -⟩
  rfl

section Handlers

variable {s : State} {a : StakeV2Account} {clock : Clock} {signerInfo mintInfo recipientInfo
  senderInfo stakeInfo stakeTokensInfo treasuryInfo treasuryTokensInfo assetInfo collectionInfo
  mplCoreInfo systemProgram tokenProgram associatedTokenProgram : AccountInfo}

theorem processWithdrawV2_migratesFirst (id amount : ℕ)
    (hget : s.stakesV2.get stakeInfo.key = some a) :
    MigratesFirst (processWithdrawV2 clock id amount signerInfo mintInfo recipientInfo stakeInfo
      stakeTokensInfo treasuryInfo systemProgram tokenProgram associatedTokenProgram) s a := by
  have hkey : stakeInfo.key = a.address := (s.stakesV2.key_of_get _ _ hget).symm
  have hstake := State.asStakeV2_of_get hget
  constructor
  · intro x t h
    simp only [processWithdrawV2, loadStakeV2, State.asStakeV2_restake hkey, hstake,
      State.asTokens_restake, State.asSingleton_restake h.get, State.restake_treasury, h.migrate,
      h.again, h.authority, h.id, ok_bind, pure_bind, bind_assoc]
    simp only [(openTokenAccount_passes h.get _ _ _ _).bind_eq, State.restake_write]
  · simp only [processWithdrawV2, loadStakeV2, hstake, ensures_bind, ensures_ok, ensures_require,
      ensures_fromOption, ensures_pure]
    intro _ _ _ _ _ _ _ _ _ _ _ _ _
    refine Ensures.mono (StakeV2.migrateWeight_version _ _) fun r hr _ _ => ?_
    refine Ensures.mono (openTokenAccount_quiet s _ _ _ _) fun s₁ _ => ?_
    refine Ensures.mono (StakeV2.withdraw_version _ _ _ _) fun r' hr' => ?_
    refine Ensures.mono (transferTokens_stakesV2 _ _ _ _) fun s₂ hs₂ _ _ _ _ => ?_
    exact migrated_of_put hs₂ (hr' ▸ hr)

theorem processCompoundYieldV2_migratesFirst (id : ℕ)
    (hget : s.stakesV2.get stakeInfo.key = some a) :
    MigratesFirst (processCompoundYieldV2 clock id signerInfo mintInfo stakeInfo stakeTokensInfo
      treasuryInfo treasuryTokensInfo systemProgram tokenProgram associatedTokenProgram) s a := by
  have hkey : stakeInfo.key = a.address := (s.stakesV2.key_of_get _ _ hget).symm
  have hstake := State.asStakeV2_of_get hget
  constructor
  · intro x t h
    simp only [processCompoundYieldV2, compoundYieldV2, State.asStakeV2_restake hkey, hstake,
      State.asTokens_restake, State.asSingleton_restake h.get, State.restake_treasury, h.migrate,
      h.again, h.authority, h.id, h.executor, ok_bind, pure_bind, bind_assoc]
    simp only [(burnTokens_passes _ _).bind_eq, (transferTokens_passes _ _ _).bind_eq,
      State.restake_tokens, State.restake_write]
  · simp only [processCompoundYieldV2, compoundYieldV2, hstake, ensures_bind, ensures_ok,
      ensures_require, ensures_fromOption]
    intro _ _ _ _ _ _ _ _ _ _ _ _ _ _ _ _ _ _ _ _
    refine Ensures.mono (StakeV2.migrateWeight_version _ _) fun r hr => ?_
    refine Ensures.mono (StakeV2.claim_version _ _ _ _) fun r' hr' _ => ?_
    have hdeposit : ∀ (s₂ : State) (n amount : ℕ),
        Ensures (r'.2.deposit amount clock r.2 n) fun r'' => r''.2.1.balance ≤ n →
          State.Migrated { s₂.putStakeV2 a r''.2.1 with treasury := r''.2.2 } a.address := by
      intro s₂ n amount
      refine Ensures.mono (StakeV2.deposit_version _ _ _ _ _) fun r'' hr'' _ => ?_
      exact migrated_of_put (s := s₂) rfl ((hr''.trans hr') ▸ hr)
    simp only [ensures_ite, ensures_bind, ensures_require, ensures_fromOption, ensures_pure]
    exact ⟨fun _ => ensures_of_forall fun _ => ensures_of_forall fun s₂ _ n _ => hdeposit s₂ n _,
      fun _ => ensures_of_forall fun s₂ _ n _ => hdeposit s₂ n _⟩

theorem processTopUpStakeV2_migratesFirst (id amount : ℕ)
    (hget : s.stakesV2.get stakeInfo.key = some a) :
    MigratesFirst (processTopUpStakeV2 clock id amount signerInfo mintInfo senderInfo stakeInfo
      stakeTokensInfo treasuryInfo systemProgram tokenProgram associatedTokenProgram) s a := by
  have hkey : stakeInfo.key = a.address := (s.stakesV2.key_of_get _ _ hget).symm
  have hstake := State.asStakeV2_of_get hget
  constructor
  · intro x t h
    simp only [processTopUpStakeV2, topUpStakeV2, loadStakeV2, State.asStakeV2_restake hkey, hstake,
      State.dataIsEmpty_restake h.get, State.asTokens_restake, State.asSingleton_restake h.get,
      State.restake_treasury, h.migrate, h.again, h.authority, h.id, ok_bind, pure_bind,
      bind_assoc, State.restake_write]
  · simp only [processTopUpStakeV2, topUpStakeV2, loadStakeV2, hstake, ensures_bind, ensures_ok,
      ensures_require, ensures_fromOption, ensures_pure, State.transferTokensFrom]
    intro _ _ _ _ _ _ _ _ _ _ _ _ _ _ _ _ _
    refine Ensures.mono (StakeV2.migrateWeight_version _ _) fun r hr _ _ _ => ?_
    refine Ensures.mono (StakeV2.deposit_version _ _ _ _ _) fun r' hr' _ _ => ?_
    refine Ensures.mono (transferTokens_stakesV2 _ _ _ _) fun s₂ hs₂ _ _ _ _ => ?_
    exact migrated_of_put hs₂ (hr' ▸ hr)

theorem processStakeNft_migratesFirst (id : ℕ) (hget : s.stakesV2.get stakeInfo.key = some a) :
    MigratesFirst (processStakeNft id signerInfo assetInfo collectionInfo stakeInfo treasuryInfo
      mplCoreInfo systemProgram) s a := by
  have hkey : stakeInfo.key = a.address := (s.stakesV2.key_of_get _ _ hget).symm
  have hstake := State.asStakeV2_of_get hget
  constructor
  · intro x t h
    simp only [processStakeNft, loadStakeV2, State.asStakeV2_restake hkey, hstake,
      State.asSingleton_restake h.get, State.restake_treasury, h.migrate, h.again, h.authority,
      h.id, ok_bind, pure_bind, bind_assoc, State.restake_write]
  · simp only [processStakeNft, loadStakeV2, transferAsset, hstake, ensures_bind, ensures_ok,
      ensures_require, ensures_pure]
    intro _ _ _ _ _ _ _ _
    refine Ensures.mono (StakeV2.migrateWeight_version _ _) fun r hr => ?_
    refine Ensures.mono (StakeV2.stakeNft_version _ _) fun r' hr' _ => ?_
    exact migrated_of_put (s := s) rfl (hr' ▸ hr)

theorem processUnstakeNft_migratesFirst (id : ℕ) (hget : s.stakesV2.get stakeInfo.key = some a) :
    MigratesFirst (processUnstakeNft id signerInfo assetInfo collectionInfo stakeInfo treasuryInfo
      mplCoreInfo systemProgram) s a := by
  have hkey : stakeInfo.key = a.address := (s.stakesV2.key_of_get _ _ hget).symm
  have hstake := State.asStakeV2_of_get hget
  constructor
  · intro x t h
    simp only [processUnstakeNft, loadStakeV2, State.asStakeV2_restake hkey, hstake,
      State.asSingleton_restake h.get, State.restake_treasury, h.migrate, h.again, h.authority,
      h.id, ok_bind, pure_bind, bind_assoc, State.restake_write]
  · simp only [processUnstakeNft, loadStakeV2, transferAsset, hstake, ensures_bind, ensures_ok,
      ensures_require, ensures_pure]
    intro _ _ _ _ _ _ _ _
    refine Ensures.mono (StakeV2.migrateWeight_version _ _) fun r hr => ?_
    refine Ensures.mono (StakeV2.unstakeNft_version _ _) fun r' hr' _ => ?_
    exact migrated_of_put (s := s) rfl (hr' ▸ hr)

end Handlers

end Godl
