import Godl.Proof.Steps
import Godl.Script

/-!
# The stakers

The treasury's total is the weight of all stakes, and the stakers never take more than
what was shared with them.

## Main definitions

* `yieldPaid`, `yieldShared` — what a step paid out of the stakers' rewards, and what it
  shared with them.
* `StakeChange` — what a step does to the stakes.
* `totalStaked_eq_sum_weight` — the total is the weight of all stakes.
* `yieldPaid_add_pending_le_yieldShared` — payments are covered by what was shared.
-/

namespace Godl

open Lib

/-- Every instruction but the one that overwrites the total. -/
def GodlInstruction.KeepsTotalStaked : GodlInstruction → Prop
  | .rebaseTotalStaked .. => False
  | _ => True

/-- Every instruction but the one that overwrites the total, once the program is set up. -/
def GodlInstruction.MovesTotalStaked : GodlInstruction → Prop
  | .rebaseTotalStaked .. | .initializeProgram .. => False
  | _ => True

/-- The GODL that left the treasury's token account in a step which pays out or compounds
stake rewards. -/
def yieldPaid (t : Transition State Label) : ℕ :=
  match t.label.instruction with
  | some (.claimYield _) | some (.claimYieldV2 ..) | some (.compoundYieldV2 _)
  | some (.closeStakeV2 _) =>
      t.before.tokensAt treasuryTokensAddress - t.after.tokensAt treasuryTokensAddress
  | _ => 0

/-- The GODL that a step shared with the stakers, as the log has it. -/
def yieldShared (t : Transition State Label) : ℕ :=
  match t.label.instruction, t.after.events with
  | some .bury, .bury _ shared _ _ _ :: _ => shared
  | some (.buryTokens _), .bury _ shared _ _ _ :: _ => shared
  | _, _ => 0

/-- What a step does to the stakes: they are restaked, with some of their rewards paid, or
a bury shares GODL with them. -/
inductive StakeChange (t : Transition State Label) : Prop
  | restaked {paid : ℕ} (h : Restaked t.before t.after paid) (hpaid : yieldPaid t ≤ paid)
  | buried {shared : ℕ} (h : Buried t.before t.after shared) (hpaid : yieldPaid t = 0)
      (hshared : yieldShared t = shared)

section Change

variable {env : Env} {allowed : GodlInstruction → Prop} {s s' : State} {l : Label} {h : History}
  {clock : Clock} {ix : GodlInstruction} {accounts : List AccountInfo} {cpi : Cpi}

/-- Only instructions on stakes pay stake rewards. -/
theorem yieldPaid_of_not_stakes (hkind : ix.kind ≠ .stakes) :
    yieldPaid ⟨s, .call clock ix accounts cpi, s'⟩ = 0 := by
  cases ix <;> first
    | rfl
    | exact absurd rfl hkind

/-- What a step pays is at most what left the treasury's token account. -/
theorem yieldPaid_le (t : Transition State Label) :
    yieldPaid t ≤
      t.before.tokensAt treasuryTokensAddress - t.after.tokensAt treasuryTokensAddress := by
  unfold yieldPaid
  split <;> omega

/-- A step that restakes without paying. -/
theorem StakeChange.of_restaked (hkind : ix.kind ≠ .stakes) (h : Restaked s s' 0) :
    StakeChange ⟨s, .call clock ix accounts cpi, s'⟩ :=
  .restaked h (yieldPaid_of_not_stakes hkind).le

/-- A step that leaves the stakes alone. -/
theorem StakeChange.of_same (hkind : ix.kind ≠ .stakes) (h : SameStakes s s') :
    StakeChange ⟨s, .call clock ix accounts cpi, s'⟩ :=
  .of_restaked hkind h.restaked

/-- A bury logs what it shares. -/
theorem Buried.yieldShared {shared : ℕ} (hkind : ix.kind = .bury ∨ ix.kind = .buryTokens)
    (h : Buried s s' shared) :
    yieldShared ⟨s, .call clock ix accounts cpi, s'⟩ = shared := by
  obtain ⟨buried, sol, supply, ts, hevents⟩ := h.event
  cases ix
  case bury => simp only [Godl.yieldShared, Label.instruction, hevents]
  case buryTokens => simp only [Godl.yieldShared, Label.instruction, hevents]
  all_goals
    simp only [GodlInstruction.kind] at hkind
    cases hkind <;> contradiction

/-- **What a step does to the stakes**, unless it overwrites the total. -/
theorem StepEffect.stakeChange (h : StepEffect allowed s s' l)
    (hrebase : ∀ ix, allowed ix → ix.kind ≠ .rebaseTotalStaked)
    (hinit : ∀ ix, allowed ix → ix.kind = .initializeProgram → s.opened .treasury = true) :
    StakeChange ⟨s, l, s'⟩ := by
  cases h with
  | world hidle => exact .restaked hidle.stakes.restaked (le_refl _)
  | @call clock ix accounts cpi hallowed heffect =>
    have hkind := hrebase ix hallowed
    have hopen := hinit ix hallowed
    cases hix : ix.kind
    all_goals rw [hix] at heffect hkind
    case quiet => exact .of_same (by simp [hix]) heffect.stakes
    case initializeProgram =>
      have hclosed : s.opened .treasury = false := heffect
      rw [hopen hix] at hclosed
      cases hclosed
    case checkpoint legacy =>
      obtain ⟨-, a, ⟨rfl⟩ | ⟨_, -, -, -, rfl⟩ | ⟨_, _, _, _, _, _, hcredited⟩⟩ := heffect
      · exact .of_same (by simp [hix]) (.refl _)
      · exact .of_same (by simp [hix]) ⟨rfl, rfl, rfl, rfl⟩
      · exact .of_same (by simp [hix]) hcredited.stakes
    case deploy =>
      obtain ⟨_, _, _, _, _, _, _, _, hwagered, -⟩ := heffect
      exact .of_same (by simp [hix]) hwagered.stakes
    case reset =>
      obtain ⟨_, _, _, _, _, hreset⟩ := heffect
      exact .of_same (by simp [hix]) hreset.sameStakes
    case close =>
      obtain ⟨_, hclosed⟩ := heffect
      exact .of_same (by simp [hix]) hclosed.stakes
    case unrefined =>
      obtain ⟨_, _, htraded, -⟩ := heffect
      exact .of_restaked (by simp [hix]) htraded.restaked
    case stakes =>
      obtain ⟨paid, hstep⟩ := heffect
      exact .restaked hstep.restaked
        ((yieldPaid_le _).trans (Nat.sub_le_iff_le_add'.2 hstep.funds.treasuryTokens))
    case bury =>
      obtain ⟨shared, hburied, -⟩ := heffect
      exact .buried hburied (yieldPaid_of_not_stakes (by simp [hix]))
        (hburied.yieldShared (.inl hix))
    case buryTokens =>
      obtain ⟨shared, hburied⟩ := heffect
      exact .buried hburied (yieldPaid_of_not_stakes (by simp [hix]))
        (hburied.yieldShared (.inr hix))
    case motherlode =>
      obtain ⟨_, hinjected⟩ := heffect
      exact .of_same (by simp [hix]) hinjected.stakes
    case rebaseTotalStaked => exact absurd rfl hkind
    case rebaseTotalUnclaimed =>
      obtain ⟨_, rfl⟩ := heffect
      exact .of_same (by simp [hix]) ⟨rfl, rfl, rfl, rfl⟩
    case initializeGoldVault => exact .of_same (by simp [hix]) heffect.stakes
    case distributeGold =>
      obtain ⟨-, _, hdistributed⟩ := heffect
      exact .of_same (by simp [hix]) hdistributed.stakes
    case claimGold =>
      obtain ⟨_, hclaimed⟩ := heffect
      exact .of_same (by simp [hix]) hclaimed.stakes

/-- The total is the weight of all stakes, and every weight can be computed. -/
structure State.StakesBooked (s : State) : Prop where
  weighed : s.Weighed
  total : s.treasury.totalStaked = s.stakeWeight

theorem StakeChange.booked {t : Transition State Label} (h : StakeChange t)
    (hbooked : t.before.StakesBooked) : t.after.StakesBooked := by
  cases h with
  | restaked hrestaked hpaid =>
    have hbefore := hbooked.total
    have hafter := hrestaked.total
    exact ⟨hrestaked.weighed hbooked.weighed, by omega⟩
  | buried hburied hpaid hshared =>
    refine ⟨?_, ?_⟩
    · rw [State.Weighed, hburied.stakesV2]
      exact hbooked.weighed
    · rw [hburied.totalStaked, hbooked.total, State.stakeWeight, State.stakeWeight,
        hburied.stakes, hburied.stakesV2]

theorem State.StakesBooked.weightedUnits_eq (h : s.StakesBooked) :
    s.stakesV2.All fun a => a.stake.weightedUnits = .ok a.stake.units := by
  intro k a ha
  obtain ⟨n, hn⟩ := h.weighed k a ha
  rw [StakeV2.units_of_eq hn, hn]

/-- The balances of all v1 stakes and the weighted units of all v2 stakes. -/
theorem State.StakesBooked.sum_units (h : s.StakesBooked) :
    ∃ units : StakeV2Account → ℕ,
      (s.stakesV2.All fun a => a.stake.weightedUnits = .ok (units a)) ∧
      s.treasury.totalStaked = s.stakes.sum (fun x => x.balance) + s.stakesV2.sum units :=
  ⟨fun a => a.stake.units, h.weightedUnits_eq, h.total⟩

end Change

/-! ## The total is the weight of all stakes -/

theorem GodlInstruction.MovesTotalStaked.kind_ne {ix : GodlInstruction}
    (h : ix.MovesTotalStaked) : ix.kind ≠ .rebaseTotalStaked ∧ ix.kind ≠ .initializeProgram := by
  cases ix <;> first
    | exact h.elim
    | simp [GodlInstruction.kind]

theorem GodlInstruction.KeepsTotalStaked.kind_ne {ix : GodlInstruction}
    (h : ix.KeepsTotalStaked) : ix.kind ≠ .rebaseTotalStaked := by
  cases ix <;> first
    | exact h.elim
    | simp [GodlInstruction.kind]

section Weight

variable {env : Env} {s s' : State} {h : History}

/-- **The treasury's total stays the sum of the balances of all v1 stakes and of the
weighted units of all v2 stakes**, wherever they live, along every run. -/
theorem totalStaked_eq_sum_weight {units : StakeV2Account → ℕ}
    (hunits : s.stakesV2.All fun a => a.stake.weightedUnits = .ok (units a))
    (htotal : s.treasury.totalStaked =
      s.stakes.sum (fun x => x.balance) + s.stakesV2.sum units)
    (hrun : Run (Step env GodlInstruction.MovesTotalStaked) s h s') :
    ∃ units' : StakeV2Account → ℕ,
      (s'.stakesV2.All fun a => a.stake.weightedUnits = .ok (units' a)) ∧
      s'.treasury.totalStaked =
        s'.stakes.sum (fun x => x.balance) + s'.stakesV2.sum units' := by
  have hstart : s.StakesBooked := by
    refine ⟨fun k a ha => ⟨units a, hunits k a ha⟩, ?_⟩
    rw [htotal, State.stakeWeight]
    congr 1
    exact Store.sum_congr fun k a ha => (StakeV2.units_of_eq (hunits k a ha)).symm
  refine State.StakesBooked.sum_units (hrun.invariant hstart fun t l u ht hstep => ?_)
  exact (hstep.effect.stakeChange (fun ix hix => hix.kind_ne.1)
    fun ix hix hkind => absurd hkind hix.kind_ne.2).booked ht

end Weight

/-- A set-up program with one v1 stake of 1000, which belongs to the key pair 7, and the
treasury's and the stake's tokens. -/
def stakedState : State := { State.genesis with
  opened := fun w => w = .config ∨ w = .treasury ∨ w = .board
  configResized := true
  config := { (default : Config) with buryAuthority := .key 5 }
  treasury := { State.genesis.treasury with totalStaked := 1000 }
  stakes := Store.empty.put ⟨.key 7, 1000, 0, 0, 0, Fixed.zero, 0, 0⟩
  tokens := fun k =>
    if k = treasuryTokensAddress then some 600
    else if k = .associatedTokenAddress (.stakePda (.key 7)) mintAddress then some 1000
    else if k = .associatedTokenAddress (.key 7) mintAddress then some 0
    else if k = .associatedTokenAddress adminGodlFee mintAddress then some 0
    else none
  mintSupply := 1600 }

/-- The stake 1 of the key pair 7, which weighs by the linear curve. -/
def linearStake : StakeV2 :=
  { StakeV2.create 1 (.key 7) (.key 7) 31536000 ⟨0, 0⟩ State.genesis.treasury with
    balance := 1001, weightVersion := 0 }

/-- Its stake 2, which weighs by the root, with or without an NFT. -/
def curvedStake (isNftStaked : ℕ) : StakeV2 :=
  { StakeV2.create 2 (.key 7) (.key 7) maxLockDuration ⟨0, 0⟩ State.genesis.treasury with
    balance := 777, isNftStaked := isNftStaked }

/-- The v1 stake and the two v2 stakes, with their tokens. -/
def mixedState (isNftStaked : ℕ) : State := { stakedState with
  treasury := { State.genesis.treasury with
    totalStaked := 1000 + linearStake.units + (curvedStake isNftStaked).units }
  stakesV2 := (Store.empty.put (.derived (.key 7) 1 linearStake)).put
    (.derived (.key 7) 2 (curvedStake isNftStaked))
  tokens := fun k =>
    if k = treasuryTokensAddress then some 200000
    else if k = .associatedTokenAddress (.stakeV2Pda (.key 7) 1) mintAddress then some 1001
    else if k = .associatedTokenAddress (.stakeV2Pda (.key 7) 2) mintAddress then some 777
    else stakedState.tokens k
  mintSupply := 202778 }

namespace Call

/-- The owner deposits `amount` GODL into the v2 stake `id`. -/
def depositV2 (id amount : ℕ) (lockDuration : ℤ) : Call :=
  .plain 1 1 (.depositV2 id amount lockDuration) [.signer 7, .writable mintAddress,
    .writable (.associatedTokenAddress (.key 7) mintAddress), .writable (.stakeV2Pda (.key 7) id),
    .writable (.associatedTokenAddress (.stakeV2Pda (.key 7) id) mintAddress),
    .writable .treasuryPda, .writable (.key 7), .program systemProgramId, .program splTokenId,
    .program associatedTokenProgramId]

/-- The owner withdraws from a v2 stake. -/
def withdrawV2 (time : ℤ) (id amount : ℕ) : Call :=
  .plain 1 time (.withdrawV2 id amount) [.signer 7, .writable mintAddress,
    .writable (.associatedTokenAddress (.key 7) mintAddress), .writable (.stakeV2Pda (.key 7) id),
    .writable (.associatedTokenAddress (.stakeV2Pda (.key 7) id) mintAddress),
    .writable .treasuryPda, .program systemProgramId, .program splTokenId,
    .program associatedTokenProgramId]

/-- The owner claims what a v2 stake earned. -/
def claimYieldV2 (id amount : ℕ) : Call :=
  .plain 2 2 (.claimYieldV2 id amount) [.signer 7, .writable mintAddress,
    .writable (.associatedTokenAddress (.key 7) mintAddress), .writable (.stakeV2Pda (.key 7) id),
    .writable .treasuryPda, .writable treasuryTokensAddress, .program systemProgramId,
    .program splTokenId, .program associatedTokenProgramId]

/-- A stranger moves a v2 stake to the root. -/
def migrateStakeWeight (id : ℕ) : Call :=
  .plain 2 2 .migrateStakeWeight
    [.signer 9, .writable (.stakeV2Pda (.key 7) id), .writable .treasuryPda]

/-- GODL is buried. -/
def buryTokens (amount : ℕ) : Call :=
  .plain 1 1 (.buryTokens amount) [.signer 5, .writable .boardPda, .writable .configPda,
    .writable mintAddress, .writable .treasuryPda, .writable treasuryTokensAddress,
    .writable adminGodlFee, .writable (.associatedTokenAddress adminGodlFee mintAddress),
    .writable Pubkey.default, .writable Pubkey.default, .program splTokenId,
    .program godlApiId]

end Call

/-- The owner withdraws 400 from its v1 stake; its stake 1 is moved to the root, and it withdraws
100 from its stake 2 when the lock is over. -/
def withdrawScript : List Call :=
  [.plain 1 1 (.withdraw 400) [.signer 7, .writable mintAddress,
    .writable (.associatedTokenAddress (.key 7) mintAddress), .writable (.stakePda (.key 7)),
    .writable (.associatedTokenAddress (.stakePda (.key 7)) mintAddress),
    .writable .treasuryPda, .program systemProgramId, .program splTokenId,
    .program associatedTokenProgramId],
   .migrateStakeWeight 1, .withdrawV2 70000000 2 100]

/-- The total follows withdrawals and a migration. -/
theorem totalStaked_eq_sum_weight_withdraw :
    ∃ (h : History) (s' : State) (units' : StakeV2Account → ℕ),
      Run (Step .plain GodlInstruction.MovesTotalStaked) (mixedState 1) h s' ∧ h.length = 3 ∧
      (mixedState 1).treasury.totalStaked = 15331 ∧ s'.treasury.totalStaked = 7172 ∧
      (s'.stakesV2.All fun a => a.stake.weightedUnits = .ok (units' a)) ∧
      s'.treasury.totalStaked =
        s'.stakes.sum (fun x => x.balance) + s'.stakesV2.sum units' := by
  obtain ⟨h, s', hrun, hlabels, htotal⟩ := exists_run_of_perform .plain
    GodlInstruction.MovesTotalStaked (mixedState 1) withdrawScript
    (fun s => s.treasury.totalStaked = 7172)
    (by simp [withdrawScript, Call.plain, Call.migrateStakeWeight, Call.withdrawV2,
      GodlInstruction.MovesTotalStaked]) (by decide +kernel)
  have hunits : (mixedState 1).stakesV2.All fun a =>
      a.stake.weightedUnits = .ok a.stake.units :=
    Store.All.put (Store.All.put (Store.all_empty _) (by decide +kernel)) (by decide +kernel)
  obtain ⟨units', hunits', h'⟩ := totalStaked_eq_sum_weight hunits (by decide +kernel) hrun
  exact ⟨h, s', units', hrun, by simpa [withdrawScript] using congrArg List.length hlabels,
    by decide +kernel, by simpa using htotal, hunits', h'⟩

/-! ## Payments are covered by what was shared -/

section Yield

variable {env : Env} {s s' : State} {h : History}

/-- The program is set up, the total is the weight of all stakes, and what was paid and
what is owed was shared. -/
structure State.YieldCovered (s : State) (paid shared : ℕ) : Prop where
  setup : s.opened .treasury = true
  booked : s.StakesBooked
  covered : paid * factorScale + s.stakeOwed s.treasury.stakeRewardsFactor.bits ≤
    shared * factorScale

/-- Sharing raises what all stakes are owed by at most what is shared. -/
theorem Buried.stakeOwed_le {shared : ℕ} (h : Buried s s' shared)
    (htotal : s.treasury.totalStaked = s.stakeWeight) :
    s'.stakeOwed s'.treasury.stakeRewardsFactor.bits ≤
      s.stakeOwed s.treasury.stakeRewardsFactor.bits + shared * factorScale := by
  have hgrow : s.treasury.stakeRewardsFactor.bits ≤ s'.treasury.stakeRewardsFactor.bits := by
    rw [h.factor]
    exact Nat.le_add_right _ _
  have hv1 := Store.sum_owed_raise_le s.stakes Stake.position (S := factorScale) hgrow
    (le_refl _)
  have hv2 := Store.sum_owed_raise_le s.stakesV2 (fun a => a.stake.position) (S := factorScale)
    hgrow (le_refl _)
  have hraise : (s'.treasury.stakeRewardsFactor.bits - s.treasury.stakeRewardsFactor.bits) *
      s.stakeWeight ≤ shared * factorScale := by
    rw [h.factor, Nat.add_sub_cancel_left, ← htotal]
    exact Nat.div_mul_le_self _ _
  rw [State.stakeWeight, Nat.mul_add] at hraise
  rw [State.stakeOwed, State.stakeOwed, h.stakes, h.stakesV2]
  omega

/-- A step pays out of what is owed, and what it shares covers what it adds. -/
theorem StakeChange.covered {t : Transition State Label} {paid shared : ℕ} (h : StakeChange t)
    (hcovered : t.before.YieldCovered paid shared) (hsetup : t.after.opened .treasury = true) :
    t.after.YieldCovered (yieldPaid t + paid) (Godl.yieldShared t + shared) := by
  refine ⟨hsetup, h.booked hcovered.booked, ?_⟩
  have hbefore := hcovered.covered
  simp only [Nat.add_mul]
  cases h with
  | @restaked n hrestaked hpaid =>
    have howed := hrestaked.owed
    have hn := Nat.mul_le_mul_right factorScale hpaid
    rw [hrestaked.factor]
    omega
  | @buried n hburied hpaid hshared =>
    have howed := hburied.stakeOwed_le hcovered.booked.total
    rw [hpaid, hshared]
    omega

/-- Stakes that have earned nothing yet are owed nothing. -/
theorem State.yieldCovered_start (hsetup : s.opened .treasury = true)
    (hstakes : s.stakes.All fun x =>
      x.rewards = 0 ∧ x.rewardsFactor = s.treasury.stakeRewardsFactor)
    (hstakesV2 : s.stakesV2.All fun a =>
      a.stake.rewards = 0 ∧ a.stake.rewardsFactor = s.treasury.stakeRewardsFactor)
    (hbooked : s.StakesBooked) : s.YieldCovered 0 0 := by
  refine ⟨hsetup, hbooked, ?_⟩
  have hv1 : s.stakes.sum (fun x => x.position.owed factorScale
      s.treasury.stakeRewardsFactor.bits) = s.stakes.sum fun _ => 0 := by
    refine Store.sum_congr fun k x hx => ?_
    obtain ⟨hrewards, hfactor⟩ := hstakes k x hx
    simp [Stake.position, hrewards, hfactor]
  have hv2 : s.stakesV2.sum (fun a => a.stake.position.owed factorScale
      s.treasury.stakeRewardsFactor.bits) = s.stakesV2.sum fun _ => 0 := by
    refine Store.sum_congr fun k a ha => ?_
    obtain ⟨hrewards, hfactor⟩ := hstakesV2 k a ha
    simp [StakeV2.position, hrewards, hfactor]
  simp [State.stakeOwed, hv1, hv2]

/-- **What stakes may claim was shared with them**, along every run. -/
theorem State.YieldCovered.run (hstart : s.YieldCovered 0 0)
    (hrun : Run (Step env GodlInstruction.KeepsTotalStaked) s h s') :
    s'.YieldCovered (total yieldPaid h) (total yieldShared h) := by
  refine hrun.induct (P := fun h u => u.YieldCovered (total yieldPaid h) (total yieldShared h))
    hstart fun h t l u ht hstep => ?_
  have hchange := hstep.effect.stakeChange (fun ix hix => hix.kind_ne) fun _ _ _ => ht.setup
  have hopened := hstep.effect.opened ht.setup ht.setup
  simpa only [total_cons] using hchange.covered ht hopened

/-- **What left the treasury as stake rewards and what all stakes may still claim is at
most what was shared with the stakers**, along every run that starts with stakes that have
earned nothing yet. -/
theorem yieldPaid_add_pending_le_yieldShared (hsetup : s.opened .treasury = true)
    (hstakes : s.stakes.All fun x =>
      x.rewards = 0 ∧ x.rewardsFactor = s.treasury.stakeRewardsFactor)
    (hstakesV2 : s.stakesV2.All fun a =>
      a.stake.rewards = 0 ∧ a.stake.rewardsFactor = s.treasury.stakeRewardsFactor ∧
        a.stake.Weighs)
    (htotal : s.treasury.totalStaked =
      s.stakes.sum (fun x => x.balance) + s.stakesV2.sum (fun a => a.stake.units))
    (hrun : Run (Step env GodlInstruction.KeepsTotalStaked) s h s') :
    (s'.stakesV2.All fun a => a.stake.weightedUnits = .ok a.stake.units) ∧
    total yieldPaid h +
      (s'.stakes.sum (fun x => x.rewards + (s'.treasury.stakeRewardsFactor.bits -
          x.rewardsFactor.bits) * x.balance / 2 ^ 48) +
        s'.stakesV2.sum (fun a => a.stake.rewards + (s'.treasury.stakeRewardsFactor.bits -
          a.stake.rewardsFactor.bits) * a.stake.units / 2 ^ 48)) ≤
      total yieldShared h := by
  have hstart : s.YieldCovered 0 0 :=
    State.yieldCovered_start hsetup hstakes
      (fun k a ha => ⟨(hstakesV2 k a ha).1, (hstakesV2 k a ha).2.1⟩)
      ⟨fun k a ha => (hstakesV2 k a ha).2.2, htotal⟩
  have hcovered := hstart.run hrun
  have hv1 := Store.sum_reward_add_pending_le factorScale s'.treasury.stakeRewardsFactor.bits
    Stake.position s'.stakes
  have hv2 := Store.sum_reward_add_pending_le factorScale s'.treasury.stakeRewardsFactor.bits
    (fun a : StakeV2Account => a.stake.position) s'.stakesV2
  have hle := hcovered.covered
  rw [State.stakeOwed] at hle
  refine ⟨hcovered.booked.weightedUnits_eq, ?_⟩
  refine Nat.le_of_mul_le_mul_right (c := factorScale) ?_ (by rw [factorScale_eq]; decide)
  simp only [Position.pending, Stake.position, StakeV2.position] at hv1 hv2 hle
  rw [← factorScale_eq, Nat.add_mul, Nat.add_mul]
  omega

end Yield

/-- 100000 GODL are buried, and the owner of the stakes claims what the v1 stake and its stake 2
earned, and a part of what its stake 1 did. -/
def buryScript : List Call :=
  [.buryTokens 100000,
   .plain 2 2 (.claimYield 1000) [.signer 7, .writable mintAddress,
    .writable (.associatedTokenAddress (.key 7) mintAddress), .writable (.stakePda (.key 7)),
    .writable .treasuryPda, .writable treasuryTokensAddress, .program systemProgramId,
    .program splTokenId, .program associatedTokenProgramId],
   .claimYieldV2 1 100, .claimYieldV2 2 100000]

/-- The owner gets GODL, and no more than what was shared. -/
theorem yieldPaid_add_pending_le_yieldShared_bury :
    ∃ (h : History) (s' : State), Run (Step .plain GodlInstruction.KeepsTotalStaked)
      (mixedState 1) h s' ∧ h.length = 4 ∧
      s'.tokensAt (.associatedTokenAddress (.key 7) mintAddress) = 1042 ∧
      total yieldPaid h + s'.stakesV2.sum (fun a => a.stake.rewards) ≤ total yieldShared h := by
  obtain ⟨h, s', hrun, hlabels, hpaid⟩ := exists_run_of_perform .plain
    GodlInstruction.KeepsTotalStaked (mixedState 1) buryScript
    (fun s => s.tokensAt (.associatedTokenAddress (.key 7) mintAddress) = 1042)
    (by simp [buryScript, Call.plain, Call.buryTokens, Call.claimYieldV2,
      GodlInstruction.KeepsTotalStaked]) (by decide +kernel)
  have hstakesV2 : (mixedState 1).stakesV2.All fun a => a.stake.rewards = 0 ∧
      a.stake.rewardsFactor = (mixedState 1).treasury.stakeRewardsFactor ∧ a.stake.Weighs :=
    Store.All.put (Store.All.put (Store.all_empty _) ⟨rfl, rfl, 10510, by decide +kernel⟩)
      ⟨rfl, rfl, 3821, by decide +kernel⟩
  obtain ⟨-, hle⟩ := yieldPaid_add_pending_le_yieldShared (by decide +kernel)
    (Store.All.put (Store.all_empty _) ⟨rfl, rfl⟩) hstakesV2 (by decide +kernel) hrun
  have hrewards : s'.stakesV2.sum (fun a => a.stake.rewards) ≤ s'.stakesV2.sum fun a =>
      a.stake.rewards + (s'.treasury.stakeRewardsFactor.bits -
        a.stake.rewardsFactor.bits) * a.stake.units / 2 ^ 48 :=
    Store.sum_le_sum fun _ _ _ => Nat.le_add_right _ _
  exact ⟨h, s', hrun, by simpa [buryScript] using congrArg List.length hlabels,
    by simpa using hpaid, by omega⟩

end Godl
