import Godl.Proof.StakeBook

/-!
# The terms of a v2 stake, and what it is credited

The lock and its multiplier are set when a stake is created or merged.  An operation on a
stake keeps them; if it settles the stake at all, it credits what accrued at the weight that
the stake had before.

## Main definitions

* `StakeV2.Kept F x x'` — what an operation keeps, and what it credits at the factor `F`.
* `StakeV2.Called` — what an instruction does to a stake.
* `StakesV2Step` — what an instruction does to the v2 stakes.
-/

namespace Godl

open Lib

namespace StakeV2

/-- What settling at a factor would credit. -/
def pendingAt (x : StakeV2) (F : Numeric) : ℕ := x.position.pending factorScale F.bits

/-- An operation credits a stake with what accrued up to the factor `F`, or does not settle
it and keeps its weight. -/
abbrev Accrued (F : Numeric) (x x' : StakeV2) : Prop :=
  Position.Accrued factorScale F.bits x.position x.lifetimeRewards x'.position
    x'.lifetimeRewards

/-- An operation on a stake keeps its terms, and credits it with what accrued. -/
structure Kept (F : Numeric) (x x' : StakeV2) : Prop where
  multiplier : x'.multiplier = x.multiplier
  lockDuration : x'.lockDuration = x.lockDuration
  createdAt : x'.createdAt = x.createdAt
  accrued : Accrued F x x'

section Kept

variable {F : Numeric} {x x' x'' : StakeV2} {t : Treasury}

theorem Kept.refl (F : Numeric) (x : StakeV2) : Kept F x x :=
  ⟨rfl, rfl, rfl, .refl _ _ _ _⟩

theorem Kept.trans (h : Kept F x x') (h' : Kept F x' x'') : Kept F x x'' :=
  ⟨h'.multiplier.trans h.multiplier, h'.lockDuration.trans h.lockDuration,
    h'.createdAt.trans h.createdAt, h.accrued.trans h'.accrued⟩

/-- A settled stake is changed without touching its terms, its factor or what it earned. -/
theorem Kept.settled_change (h : Kept F x x') (hmark : x'.rewardsFactor = F)
    (hmultiplier : x''.multiplier = x'.multiplier)
    (hlockDuration : x''.lockDuration = x'.lockDuration) (hcreatedAt : x''.createdAt = x'.createdAt)
    (hmark' : x''.rewardsFactor = x'.rewardsFactor)
    (hlifetime : x''.lifetimeRewards = x'.lifetimeRewards) : Kept F x x'' := by
  have hseen : x'.position.mark = F.bits := congrArg Fixed.bits hmark
  have hseen' : x''.position.mark = F.bits := congrArg Fixed.bits (hmark'.trans hmark)
  refine h.trans ⟨hmultiplier, hlockDuration, hcreatedAt, .settled hseen' ?_⟩
  rw [hlifetime, Position.pending_of_le hseen.ge, Nat.add_zero]

/-- Settling credits what accrued. -/
theorem updateRewards_kept (x : StakeV2) (t : Treasury) :
    Ensures (x.updateRewards t) fun x' => Kept t.stakeRewardsFactor x x' ∧
      x'.rewardsFactor = t.stakeRewardsFactor ∧ x'.balance = x.balance := by
  simp only [updateRewards, ensures_ite, ensures_bind, Fixed.ensures_mul, Fixed.ensures_floor,
    ensures_addU64, ensures_pure]
  refine ⟨fun _ => ensures_weightedUnits fun _ _ _ _ _ => ?_, fun hle => ?_⟩
  · refine ⟨⟨rfl, rfl, rfl, .settled rfl ?_⟩, trivial, trivial⟩
    simp only [position, Position.pending, Fixed.bits_ofNat, Fixed.bits_sub,
      Fixed.bits_mul_ofNat, factorScale_eq]
  · refine ⟨⟨rfl, rfl, rfl, .settled rfl ?_⟩, trivial, trivial⟩
    rw [Position.pending_of_le (not_lt.1 hle), Nat.add_zero]

theorem claim_kept (x : StakeV2) (amount : ℕ) (clock : Clock) (t : Treasury) :
    Ensures (x.claim amount clock t) fun r => Kept t.stakeRewardsFactor x r.2 ∧
      r.2.balance = x.balance := by
  simp only [claim, ensures_bind, ensures_pure]
  refine Ensures.mono (updateRewards_kept x t) fun y hy => ?_
  obtain ⟨hkept, hmark, hbalance⟩ := hy
  exact ⟨hkept.settled_change hmark rfl rfl rfl rfl rfl, hbalance⟩

theorem deposit_kept (x : StakeV2) (amount : ℕ) (clock : Clock) (t : Treasury) (sender : ℕ) :
    Ensures (x.deposit amount clock t sender) fun r => Kept t.stakeRewardsFactor x r.2.1 := by
  simp only [deposit, ensures_bind, ensures_addU64, ensures_pure]
  refine Ensures.mono (updateRewards_kept x t) fun y hy => ?_
  obtain ⟨hkept, hmark, -⟩ := hy
  refine ensures_of_forall fun _ _ => ensures_of_forall fun _ => ensures_of_forall fun _ => ?_
  exact hkept.settled_change hmark rfl rfl rfl rfl rfl

theorem withdraw_kept (x : StakeV2) (amount : ℕ) (clock : Clock) (t : Treasury) :
    Ensures (x.withdraw amount clock t) fun r => Kept t.stakeRewardsFactor x r.2.1 ∧
      r.2.1.balance ≤ x.balance := by
  simp only [withdraw, ensures_bind, ensures_pure]
  refine Ensures.mono (updateRewards_kept x t) fun y hy => ?_
  obtain ⟨hkept, hmark, hbalance⟩ := hy
  refine ensures_of_forall fun _ => ensures_of_forall fun _ => ensures_of_forall fun _ => ?_
  refine ⟨hkept.settled_change hmark rfl rfl rfl rfl rfl, ?_⟩
  rw [← hbalance]
  exact Nat.sub_le _ _

/-- A change of the weight that keeps the balance. -/
theorem reweigh_kept (x : StakeV2) (t : Treasury) {change : StakeV2 → StakeV2}
    (hchange : ∀ y : StakeV2, ∃ nft version,
      change y = { y with isNftStaked := nft, weightVersion := version }) :
    Ensures (x.reweigh t change) fun r => Kept t.stakeRewardsFactor x r.1 ∧
      r.1.balance = x.balance := by
  simp only [reweigh, ensures_bind, ensures_pure]
  refine Ensures.mono (updateRewards_kept x t) fun y hy => ?_
  obtain ⟨hkept, hmark, hbalance⟩ := hy
  obtain ⟨nft, version, hy⟩ := hchange y
  rw [hy]
  refine ensures_of_forall fun _ => ensures_of_forall fun _ => ensures_of_forall fun _ => ?_
  exact ⟨hkept.settled_change hmark rfl rfl rfl rfl rfl, hbalance⟩

theorem stakeNft_kept (x : StakeV2) (t : Treasury) :
    Ensures (x.stakeNft t) fun r => Kept t.stakeRewardsFactor x r.1 ∧
      r.1.balance = x.balance := by
  unfold stakeNft
  split
  · simp
  · exact reweigh_kept x t fun y => ⟨1, y.weightVersion, rfl⟩

theorem unstakeNft_kept (x : StakeV2) (t : Treasury) :
    Ensures (x.unstakeNft t) fun r => Kept t.stakeRewardsFactor x r.1 ∧
      r.1.balance = x.balance := by
  unfold unstakeNft
  split
  · simp
  · exact reweigh_kept x t fun y => ⟨0, y.weightVersion, rfl⟩

theorem migrateWeight_kept (x : StakeV2) (t : Treasury) :
    Ensures (x.migrateWeight t) fun r => Kept t.stakeRewardsFactor x r.1 ∧
      r.1.balance = x.balance := by
  unfold migrateWeight
  split
  · exact ensures_ok.2 ⟨Kept.refl _ x, rfl⟩
  · exact reweigh_kept x t fun y => ⟨y.isNftStaked, 1, rfl⟩

end Kept

/-- A stake on the terms of a deposit made now. -/
structure Fresh (clock : Clock) (x : StakeV2) : Prop where
  createdAt : x.createdAt = clock.unixTimestamp
  multiplier : x.multiplier = stakeMultiplier x.lockDuration

/-- A settled stake that was never credited with anything. -/
structure Uncredited (F : Numeric) (x : StakeV2) : Prop where
  mark : x.rewardsFactor = F
  lifetimeRewards : x.lifetimeRewards = 0

/-- A settled stake that was credited with all that two stakes were. -/
structure CreditedWith (x y : StakeV2) (F : Numeric) (z : StakeV2) : Prop where
  mark : z.rewardsFactor = F
  lifetimeRewards : z.lifetimeRewards =
    x.lifetimeRewards + x.pendingAt F + (y.lifetimeRewards + y.pendingAt F)

/-- A stake that has seen the factor and was never credited stays like that. -/
theorem Kept.uncredited {F : Numeric} {x x' : StakeV2} (h : Kept F x x')
    (hx : x.Uncredited F) : x'.Uncredited F := by
  obtain ⟨hmark, hlifetime⟩ := hx
  rcases h.accrued with ⟨-, hsame, hcredited⟩ | ⟨hseen, hcredited⟩
  · refine ⟨?_, hcredited.trans hlifetime⟩
    rw [← hmark]
    exact congrArg Fixed.mk hsame
  · refine ⟨congrArg Fixed.mk hseen, ?_⟩
    rw [hcredited, hlifetime, Position.pending_of_le]
    exact (congrArg Fixed.bits hmark).ge

/-- What an instruction does to one stake: its lock starts over, or its balance does not
grow, unless the instruction compounds. -/
structure Called (clock : Clock) (compounds : Prop) (F : Numeric) (x x' : StakeV2) : Prop where
  multiplier : x'.multiplier = x.multiplier
  lockDuration : x'.lockDuration = x.lockDuration
  accrued : Accrued F x x'
  compounded : compounds → x'.createdAt = x.createdAt
  lock : x'.createdAt = clock.unixTimestamp ∨
    x'.createdAt = x.createdAt ∧ (¬ compounds → x'.balance ≤ x.balance)

/-- An operation whose balance does not grow. -/
theorem Kept.called {clock : Clock} {compounds : Prop} {F : Numeric} {x x' : StakeV2}
    (h : Kept F x x') (hbalance : ¬ compounds → x'.balance ≤ x.balance) :
    Called clock compounds F x x' :=
  ⟨h.multiplier, h.lockDuration, h.accrued, fun _ => h.createdAt, .inr ⟨h.createdAt, hbalance⟩⟩

end StakeV2

/-- What an instruction does to the v2 stakes, at the treasury's factor.  It may compound, and
fold a stake into another one. -/
inductive StakesV2Step (clock : Clock) (compounds : Prop) (merges : Pubkey → Pubkey → Prop)
    (s s' : State) : Prop
  | same (stakes : s'.stakesV2 = s.stakesV2)
  | called {a : StakeV2Account} {x' : StakeV2} (get : s.stakesV2.get a.address = some a)
      (stakes : s'.stakesV2 = s.stakesV2.put { a with stake := x' })
      (called : a.stake.Called clock compounds s.treasury.stakeRewardsFactor x')
  | created {a : StakeV2Account} (get : s.stakesV2.get a.address = none)
      (stakes : s'.stakesV2 = s.stakesV2.put a) (fresh : a.stake.Fresh clock)
      (uncredited : a.stake.Uncredited s.treasury.stakeRewardsFactor)
  | merged {a b : StakeV2Account} {z : StakeV2} (merges : merges a.address b.address)
      (stakes : s'.stakesV2 = (s.stakesV2.put { a with stake := z }).erase b.address)
      (fresh : z.Fresh clock) (target : s.stakesV2.get a.address = some a)
      (source : s.stakesV2.get b.address = some b) (ne : a.address ≠ b.address)
      (credited : a.stake.CreditedWith b.stake s.treasury.stakeRewardsFactor z)
      (lockDuration : z.lockDuration = max a.stake.lockDuration b.stake.lockDuration)
  | closed {k : Pubkey} (stakes : s'.stakesV2 = s.stakesV2.erase k)

/-- Every v2 stake has the multiplier that its lock is worth. -/
def State.StakesPriced (s : State) : Prop :=
  s.stakesV2.All fun a => a.stake.multiplier = stakeMultiplier a.stake.lockDuration

/-- The balance of a v2 stake, zero without one. -/
def State.stakeBalance (s : State) : Pubkey → ℕ := s.stakesV2.view 0 fun a => a.stake.balance

section Terms

variable {clock : Clock} {compounds : Prop} {merges : Pubkey → Pubkey → Prop} {s s' : State}
  {k : Pubkey} {a a' : StakeV2Account}

/-- The account of a stake that was replaced. -/
theorem get_restaked (s : State) (a : StakeV2Account) (x : StakeV2) :
    (s.stakesV2.put { a with stake := x }).get a.address = some { a with stake := x } :=
  Store.get_put_self s.stakesV2 { a with stake := x }

theorem get_restaked_of_ne (s : State) (a : StakeV2Account) (x : StakeV2) (h : k ≠ a.address) :
    (s.stakesV2.put { a with stake := x }).get k = s.stakesV2.get k :=
  Store.get_put_of_ne s.stakesV2 h

/-- Multipliers follow the locks. -/
theorem StakesV2Step.priced (h : StakesV2Step clock compounds merges s s')
    (hpriced : s.StakesPriced) : s'.StakesPriced := by
  rw [State.StakesPriced]
  cases h with
  | same hstakes =>
    rw [hstakes]
    exact hpriced
  | @called a x' hget hstakes hcalled =>
    have ha := hpriced _ _ hget
    rw [hstakes]
    refine Store.All.put hpriced ?_
    dsimp only
    rw [hcalled.multiplier, hcalled.lockDuration, ha]
  | created hget hstakes hfresh =>
    rw [hstakes]
    exact Store.All.put hpriced hfresh.multiplier
  | merged hmerges hstakes hfresh =>
    rw [hstakes]
    exact Store.All.erase (Store.All.put hpriced hfresh.multiplier) _
  | closed hstakes =>
    rw [hstakes]
    exact Store.All.erase hpriced _

/-- A stake that is left alone does not grow. -/
theorem not_grown (hsame : s'.stakesV2.get k = s.stakesV2.get k)
    (hget : s'.stakesV2.get k = some a') : ¬ s.stakeBalance k < a'.stake.balance := by
  rw [hsame] at hget
  rw [State.stakeBalance, Store.view_of_get hget]
  exact lt_irrefl _

/-- **A stake that grew is on the terms of a deposit made now**, unless it was compounded and
its lock had not just started. -/
theorem StakesV2Step.grown (h : StakesV2Step clock compounds merges s s')
    (hpriced : s.StakesPriced) (hcompounds : compounds → ∀ j j', ¬ merges j j')
    (hget : s'.stakesV2.get k = some a') (hgrew : s.stakeBalance k < a'.stake.balance) :
    a'.stake.Fresh clock ↔ (compounds → ∀ a, s.stakesV2.get k = some a →
      a.stake.createdAt = clock.unixTimestamp) := by
  have hprice := h.priced hpriced k a' hget
  cases h with
  | same hstakes => exact absurd hgrew (not_grown (by rw [hstakes]) hget)
  | @called a x' hold hstakes hcalled =>
    by_cases hk : k = a.address
    · subst hk
      rw [hstakes, get_restaked] at hget
      cases hget
      have hbefore : x'.balance ≤ a.stake.balance → False := by
        rw [State.stakeBalance, Store.view_of_get hold] at hgrew
        exact fun hle => absurd hgrew (not_lt.2 hle)
      refine ⟨fun hfresh hcompound b hb => ?_, fun hterms => ⟨?_, hprice⟩⟩
      · rw [hold, Option.some.injEq] at hb
        rw [← hb, ← hcalled.compounded hcompound]
        exact hfresh.createdAt
      · obtain hrestarted | ⟨hkept, hle⟩ := hcalled.lock
        · exact hrestarted
        · have hcompound : compounds := by
            by_contra hnot
            exact hbefore (hle hnot)
          exact hkept.trans (hterms hcompound a hold)
    · refine absurd hgrew (not_grown ?_ hget)
      rw [hstakes, get_restaked_of_ne s a x' hk]
  | @created a hnone hstakes hfresh =>
    by_cases hk : k = a.address
    · subst hk
      rw [hstakes, Store.get_put_self] at hget
      cases hget
      refine ⟨fun _ _ b hb => ?_, fun _ => hfresh⟩
      rw [hnone] at hb
      cases hb
    · exact absurd hgrew (not_grown (by rw [hstakes, Store.get_put_of_ne _ hk]) hget)
  | @merged a b z hmerges hstakes hfresh =>
    have hnot : ¬ compounds := fun hcompound => hcompounds hcompound _ _ hmerges
    have hkb : k ≠ b.address := by
      rintro rfl
      rw [hstakes, Store.get_erase_self] at hget
      cases hget
    rw [hstakes, Store.get_erase, if_neg hkb] at hget
    by_cases hk : k = a.address
    · subst hk
      rw [get_restaked] at hget
      cases hget
      exact ⟨fun _ hcompound => absurd hcompound hnot, fun _ => hfresh⟩
    · rw [get_restaked_of_ne s a z hk] at hget
      have hsame : s.stakesV2.get k = s.stakesV2.get k := rfl
      exact absurd hgrew (not_grown hsame hget)
  | @closed j hstakes =>
    have hkj : k ≠ j := by
      rintro rfl
      rw [hstakes, Store.get_erase_self] at hget
      cases hget
    refine absurd hgrew (not_grown ?_ hget)
    rw [hstakes, Store.get_erase, if_neg hkj]

/-- **A stake that is there before and after an instruction that does not merge it** was
credited with what accrued, or not settled. -/
theorem StakesV2Step.accrued (h : StakesV2Step clock compounds merges s s')
    (hget : s.stakesV2.get k = some a) (hget' : s'.stakesV2.get k = some a')
    (hmerges : ∀ j j', merges j j' → k ≠ j) :
    a.stake.Accrued s.treasury.stakeRewardsFactor a'.stake := by
  have hsame : s'.stakesV2.get k = s.stakesV2.get k →
      a.stake.Accrued s.treasury.stakeRewardsFactor a'.stake := by
    intro hsame
    rw [hsame, hget] at hget'
    cases hget'
    exact .refl _ _ _ _
  cases h with
  | same hstakes => exact hsame (by rw [hstakes])
  | @called b x' hold hstakes hcalled =>
    by_cases hk : k = b.address
    · subst hk
      rw [hstakes, get_restaked] at hget'
      rw [hold] at hget
      cases hget
      cases hget'
      exact hcalled.accrued
    · exact hsame (by rw [hstakes, get_restaked_of_ne s b x' hk])
  | @created b hnone hstakes hfresh =>
    by_cases hk : k = b.address
    · subst hk
      rw [hnone] at hget
      cases hget
    · exact hsame (by rw [hstakes, Store.get_put_of_ne _ hk])
  | @merged b c z hmerged hstakes hfresh =>
    have hkc : k ≠ c.address := by
      rintro rfl
      rw [hstakes, Store.get_erase_self] at hget'
      cases hget'
    refine hsame ?_
    rw [hstakes, Store.get_erase, if_neg hkc,
      get_restaked_of_ne s b z (hmerges _ _ hmerged)]
  | @closed j hstakes =>
    have hkj : k ≠ j := by
      rintro rfl
      rw [hstakes, Store.get_erase_self] at hget'
      cases hget'
    exact hsame (by rw [hstakes, Store.get_erase, if_neg hkj])

end Terms

end Godl
