import Godl.Proof.QuietHandlers

/-!
# The book of stakes

The book holds two sums over all stakes of both versions: their weight, which the
treasury's total follows, and what they are owed at the treasury's factor.  An
instruction on a stake moves the total by what the weight moved, and takes out of what
is owed at least what it pays.

## Main definitions

* `State.stakeWeight`, `State.stakeOwed` — the two sums.
* `State.Weighed` — every v2 stake's weight can be computed.
* `Restaked s s' paid` — what an instruction that pays `paid` does to the book.
* `StakeStep s s' paid out` — the same, with the other books unchanged.
-/

namespace Godl

open Lib

namespace State

/-- The weight of all stakes. -/
def stakeWeight (s : State) : ℕ :=
  s.stakes.sum (fun x => x.position.units) + s.stakesV2.sum (fun a => a.stake.position.units)

/-- What all stakes are owed, scaled, when the factor stands at `F`. -/
def stakeOwed (s : State) (F : ℕ) : ℕ :=
  s.stakes.sum (fun x => x.position.owed factorScale F) +
    s.stakesV2.sum (fun a => a.stake.position.owed factorScale F)

/-- Every v2 stake's weight can be computed. -/
def Weighed (s : State) : Prop := s.stakesV2.All fun a => a.stake.Weighs

end State

/-- What an instruction that pays `paid` out of stake rewards does to the book. -/
structure Restaked (s s' : State) (paid : ℕ) : Prop where
  weighed : s.Weighed → s'.Weighed
  factor : s'.treasury.stakeRewardsFactor = s.treasury.stakeRewardsFactor
  total : s'.treasury.totalStaked + s.stakeWeight = s.treasury.totalStaked + s'.stakeWeight
  owed : s'.stakeOwed s.treasury.stakeRewardsFactor.bits + paid * factorScale ≤
    s.stakeOwed s.treasury.stakeRewardsFactor.bits

/-- Every book but the one of stakes is unchanged, and `out` tokens left the treasury at
most. -/
structure OffStakes (s s' : State) (out : ℕ) : Prop where
  ledger : SameLedger s s'
  gold : SameGold s s'
  game : SameGame s s'
  motherlode : s'.treasury.motherlode = s.treasury.motherlode
  funds : KeepsFunds s s' out

/-- An instruction on stakes: it pays `paid` out of their rewards, takes `out` tokens out
of the treasury at most, and leaves the other books alone. -/
structure StakeStep (s s' : State) (paid out : ℕ) : Prop extends OffStakes s s' out where
  restaked : Restaked s s' paid

section Compose

variable {s s' s'' : State} {m n : ℕ}

theorem SameStakes.stakeWeight (h : SameStakes s s') : s'.stakeWeight = s.stakeWeight := by
  rw [State.stakeWeight, State.stakeWeight, h.stakes, h.stakesV2]

theorem SameStakes.stakeOwed (h : SameStakes s s') (F : ℕ) :
    s'.stakeOwed F = s.stakeOwed F := by
  rw [State.stakeOwed, State.stakeOwed, h.stakes, h.stakesV2]

theorem SameStakes.weighed (h : SameStakes s s') : s.Weighed → s'.Weighed := by
  rw [State.Weighed, State.Weighed, h.stakesV2]
  exact id

theorem SameStakes.restaked (h : SameStakes s s') : Restaked s s' 0 := by
  refine ⟨h.weighed, h.factor, ?_, ?_⟩
  · rw [h.totalStaked, h.stakeWeight]
  · rw [h.stakeOwed, Nat.zero_mul, Nat.add_zero]

theorem Restaked.trans (h : Restaked s s' m) (h' : Restaked s' s'' n) :
    Restaked s s'' (m + n) := by
  have htotal := h.total
  have htotal' := h'.total
  have howed := h.owed
  have howed' := h'.owed
  rw [h.factor] at howed'
  refine ⟨h'.weighed ∘ h.weighed, h'.factor.trans h.factor, by omega, ?_⟩
  rw [Nat.add_mul]
  omega

theorem OffStakes.trans (h : OffStakes s s' m) (h' : OffStakes s' s'' n) :
    OffStakes s s'' (m + n) :=
  ⟨h.ledger.trans h'.ledger, h.gold.trans h'.gold, h.game.trans h'.game,
    h'.motherlode.trans h.motherlode, h.funds.trans h'.funds⟩

theorem Drains.offStakes (h : Drains s s' n) : OffStakes s s' n :=
  ⟨h.ledger, h.gold, h.game, h.motherlode, h.funds⟩

theorem StakeStep.trans {i j : ℕ} (h : StakeStep s s' m i) (h' : StakeStep s' s'' n j) :
    StakeStep s s'' (m + n) (i + j) :=
  ⟨h.toOffStakes.trans h'.toOffStakes, h.restaked.trans h'.restaked⟩

theorem Drains.stakeStep (h : Drains s s' n) : StakeStep s s' 0 n :=
  ⟨h.offStakes, h.stakes.restaked⟩

/-- After an instruction on stakes, tokens leave the treasury. -/
theorem StakeStep.drains {i j : ℕ} (h : StakeStep s s' m i) (h' : Drains s' s'' j) :
    StakeStep s s'' m (i + j) := h.trans h'.stakeStep

theorem StakeStep.quiet {i : ℕ} (h : StakeStep s s' m i) (h' : Quiet s' s'') :
    StakeStep s s'' m i := h.drains h'

theorem Quiet.step {j : ℕ} (h : Quiet s s') (h' : StakeStep s' s'' n j) :
    StakeStep s s'' n j := by
  have := (Drains.stakeStep h).trans h'
  rwa [Nat.zero_add, Nat.zero_add] at this

end Compose

/-! ## Writes -/

section Write

variable {s : State} {k : Pubkey} {t : Treasury} {paid : ℕ}

/-- A v1 stake is replaced. -/
theorem restaked_put {x x' : Stake} (hget : s.stakes.get k = some x)
    (hauth : x'.authority = x.authority)
    (h : StakeTurn x.position s.treasury x'.position t paid) :
    Restaked s { s with stakes := s.stakes.put x', treasury := t } paid := by
  have hold : s.stakes.get x'.pda = some x := by
    rw [← hget, ← s.stakes.key_of_get k x hget, Stake.pda, hauth]
    rfl
  have htotal := h.total
  have howed := h.owed
  have hunits := Store.sum_put_old (fun y : Stake => y.position.units) hold
  have hsum := Store.sum_put_old (fun y : Stake =>
    y.position.owed factorScale s.treasury.stakeRewardsFactor.bits) hold
  refine ⟨id, h.factor, ?_, ?_⟩
  · simp only [State.stakeWeight]
    omega
  · simp only [State.stakeOwed]
    omega

/-- A v2 stake is replaced. -/
theorem restaked_putV2 {a : StakeV2Account} {x' : StakeV2} (hget : s.stakesV2.get k = some a)
    (h : StakeV2.Turn a.stake s.treasury x' t paid) :
    Restaked s { s.putStakeV2 a x' with treasury := t } paid := by
  have hold : s.stakesV2.get a.address = some a := by rw [s.stakesV2.key_of_get k a hget, hget]
  have htotal := h.turn.total
  have howed := h.turn.owed
  have hunits := Store.sum_put_old (t := s.stakesV2) (a := { a with stake := x' })
    (fun y : StakeV2Account => y.stake.position.units) hold
  have hsum := Store.sum_put_old (t := s.stakesV2) (a := { a with stake := x' })
    (fun y : StakeV2Account =>
      y.stake.position.owed factorScale s.treasury.stakeRewardsFactor.bits) hold
  dsimp only at hunits hsum
  refine ⟨fun hw => Store.All.put hw (h.weighs (hw k a hget)), h.turn.factor, ?_, ?_⟩
  · simp only [State.stakeWeight, State.putStakeV2]
    omega
  · simp only [State.stakeOwed, State.putStakeV2]
    omega

/-- A v2 stake is created: it weighs nothing yet and is owed nothing. -/
theorem restaked_putV2_new {a : StakeV2Account} (hget : s.stakesV2.get a.address = none)
    (hunits : a.stake.units = 0) (hweighs : a.stake.Weighs) (hrewards : a.stake.rewards = 0) :
    Restaked s { s with stakesV2 := s.stakesV2.put a } 0 := by
  have hsum := Store.sum_put_new (fun y : StakeV2Account => y.stake.position.units) hget
  have hsum' := Store.sum_put_new (fun y : StakeV2Account =>
    y.stake.position.owed factorScale s.treasury.stakeRewardsFactor.bits) hget
  have hzero : a.stake.position.owed factorScale s.treasury.stakeRewardsFactor.bits = 0 := by
    simp [Position.owed, StakeV2.position, hunits, hrewards]
  have hzero' : a.stake.position.units = 0 := hunits
  refine ⟨fun hw => Store.All.put hw hweighs, rfl, ?_, ?_⟩
  · simp only [State.stakeWeight]
    omega
  · simp only [State.stakeOwed]
    omega

/-- An empty v2 stake is deleted, with what it is owed paid. -/
theorem restaked_erase {a : StakeV2Account} (hget : s.stakesV2.get k = some a)
    (hunits : a.stake.units = 0)
    (hpaid : paid * factorScale ≤
      a.stake.position.owed factorScale s.treasury.stakeRewardsFactor.bits) :
    Restaked s { s with stakesV2 := s.stakesV2.erase k } paid := by
  have hsum := Store.sum_erase (fun y : StakeV2Account => y.stake.position.units) hget
  have hsum' := Store.sum_erase (fun y : StakeV2Account =>
    y.stake.position.owed factorScale s.treasury.stakeRewardsFactor.bits) hget
  have hzero : a.stake.position.units = 0 := hunits
  refine ⟨fun hw => Store.All.erase hw k, rfl, ?_, ?_⟩
  · simp only [State.stakeWeight]
    omega
  · simp only [State.stakeOwed]
    omega

/-- A write to the stakes and to the total. -/
theorem offStakes_write {stakes : Store Pubkey Stake Stake.pda}
    {stakesV2 : Store Pubkey StakeV2Account StakeV2Account.address}
    (ht : t = { s.treasury with totalStaked := t.totalStaked }) :
    OffStakes s { s with stakes := stakes, stakesV2 := stakesV2, treasury := t } 0 := by
  refine ⟨⟨rfl, ?_, ?_, ?_⟩, ⟨rfl, rfl⟩, ⟨rfl, rfl, rfl, rfl, rfl⟩, ?_, .of_eq rfl rfl rfl rfl⟩
  all_goals rw [ht]

/-- Only the stakes and the total changed. -/
theorem Restaked.stakeStep {stakes : Store Pubkey Stake Stake.pda}
    {stakesV2 : Store Pubkey StakeV2Account StakeV2Account.address}
    (h : Restaked s { s with stakes := stakes, stakesV2 := stakesV2, treasury := t } paid)
    (ht : t = { s.treasury with totalStaked := t.totalStaked }) :
    StakeStep s { s with stakes := stakes, stakesV2 := stakesV2, treasury := t } paid 0 :=
  ⟨offStakes_write ht, h⟩

/-- A v1 stake is replaced, as an instruction. -/
theorem stakeStep_put {x x' : Stake} (hget : s.stakes.get k = some x)
    (hauth : x'.authority = x.authority)
    (h : StakeTurn x.position s.treasury x'.position t paid) :
    StakeStep s { s with stakes := s.stakes.put x', treasury := t } paid 0 :=
  (restaked_put hget hauth h).stakeStep h.treasury

/-- A v2 stake is replaced, as an instruction. -/
theorem stakeStep_putV2 {a : StakeV2Account} {x' : StakeV2} (hget : s.stakesV2.get k = some a)
    (h : StakeV2.Turn a.stake s.treasury x' t paid) :
    StakeStep s { s.putStakeV2 a x' with treasury := t } paid 0 :=
  (restaked_putV2 hget h).stakeStep h.turn.treasury

end Write

end Godl
