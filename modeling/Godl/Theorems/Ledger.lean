import Godl.Proof.Steps
import Godl.Script

/-!
# The ledger of GODL

The treasury books the unrefined GODL of all miners exactly and covers their refined GODL,
so no claim is ever stuck on the ledger.

## Main definitions

* `StepEffect.ledgerStep` — what a step does to the ledger.
* `State.LedgerOk.run` — the ledger stays in order along every run.
* `claimGodl_of_run` — a claim never runs into a checked subtraction.
* `ledger_covers_claims` — what the treasury books covers what claims take off it.
-/

namespace Godl

open Lib

/-- Every instruction but the one that overwrites the total of unrefined GODL. -/
def GodlInstruction.KeepsTotalUnclaimed : GodlInstruction → Prop
  | .rebaseTotalUnclaimed .. => False
  | _ => True

theorem GodlInstruction.KeepsTotalUnclaimed.kind_ne {ix : GodlInstruction}
    (h : ix.KeepsTotalUnclaimed) : ix.kind ≠ .rebaseTotalUnclaimed := by
  cases ix <;> first
    | exact h.elim
    | simp [GodlInstruction.kind]

/-- A claim whose subtractions are those of natural numbers, which are not checked. -/
def Miner.claimGodlUnchecked (m : Miner) (clock : Clock) (treasury : Treasury) :
    Result (ℕ × Miner × Treasury) := do
  let m ← m.updateRewards treasury
  let amount ← addU64 overflow m.refinedGodl m.rewardsGodl
  let totalUnclaimed := treasury.totalUnclaimed - m.rewardsGodl
  let totalRefined := treasury.totalRefined - m.refinedGodl
  let t := { treasury with totalUnclaimed := totalUnclaimed, totalRefined := totalRefined }
  let m' := { m with refinedGodl := 0, rewardsGodl := 0, lastClaimGodlAt := clock.unixTimestamp }
  if 0 < totalUnclaimed then
    let fee := m.rewardsGodl / 10
    let share ← Fixed.ofFraction (.panic .divisionByZero) fee totalUnclaimed
    let factor ← Fixed.add overflow t.minerRewardsFactor share
    let totalRefined ← addU64 overflow totalRefined fee
    return (amount - fee, { m' with lifetimeRewardsGodl := m'.lifetimeRewardsGodl - fee },
      { t with minerRewardsFactor := factor, totalRefined := totalRefined })
  else
    return (amount, m', t)

section Change

variable {allowed : GodlInstruction → Prop} {s s' : State} {l : Label}

/-- **What a step does to the ledger**, unless it overwrites the total. -/
theorem StepEffect.ledgerStep (h : StepEffect allowed s s' l)
    (hrebase : ∀ ix, allowed ix → ix.kind ≠ .rebaseTotalUnclaimed)
    (hsetup : s.opened .treasury = true) : ∃ credited out, LedgerStep s s' credited out := by
  cases h with
  | world hidle => exact ⟨0, 0, hidle.ledger.step⟩
  | @call clock ix accounts cpi hallowed heffect =>
    have hkind := hrebase ix hallowed
    cases hix : ix.kind
    all_goals rw [hix] at heffect hkind
    case quiet => exact ⟨0, 0, heffect.ledger.step⟩
    case initializeProgram =>
      have hclosed : s.opened .treasury = false := heffect
      rw [hsetup] at hclosed
      cases hclosed
    case checkpoint legacy =>
      obtain ⟨-, a, ⟨rfl⟩ | ⟨m, hm, -, -, rfl⟩ | ⟨_, _, _, _, _, godl, hcredited⟩⟩ := heffect
      · exact ⟨0, 0, (SameLedger.refl _).step⟩
      · exact ⟨0, 0, (forfeit_sameLedger hm).step⟩
      · exact ⟨godl, 0, hcredited.ledger⟩
    case deploy =>
      obtain ⟨_, _, _, _, _, _, _, _, hwagered, -⟩ := heffect
      exact ⟨0, 0, hwagered.ledger.step⟩
    case reset =>
      obtain ⟨_, _, _, _, _, hreset⟩ := heffect
      exact ⟨0, 0, hreset.sameLedger.step⟩
    case close =>
      obtain ⟨_, hclosed⟩ := heffect
      exact ⟨0, 0, hclosed.ledger.step⟩
    case unrefined =>
      obtain ⟨credited, out, htraded, -⟩ := heffect
      exact ⟨credited, out, htraded.ledger⟩
    case stakes =>
      obtain ⟨_, hstep⟩ := heffect
      exact ⟨0, 0, hstep.ledger.step⟩
    case bury =>
      obtain ⟨_, hburied, -⟩ := heffect
      exact ⟨0, 0, hburied.ledger.step⟩
    case buryTokens =>
      obtain ⟨_, hburied⟩ := heffect
      exact ⟨0, 0, hburied.ledger.step⟩
    case motherlode =>
      obtain ⟨_, hinjected⟩ := heffect
      exact ⟨0, 0, hinjected.ledger.step⟩
    case rebaseTotalStaked =>
      obtain ⟨_, rfl⟩ := heffect
      exact ⟨0, 0, SameLedger.step ⟨rfl, rfl, rfl, rfl⟩⟩
    case rebaseTotalUnclaimed => exact absurd rfl hkind
    case initializeGoldVault => exact ⟨0, 0, heffect.ledger.step⟩
    case distributeGold =>
      obtain ⟨-, _, hdistributed⟩ := heffect
      exact ⟨0, 0, hdistributed.ledger.step⟩
    case claimGold =>
      obtain ⟨_, hclaimed⟩ := heffect
      exact ⟨0, 0, hclaimed.ledger.step⟩

end Change

section Ledger

variable {env : Env} {s s' : State} {h : History} {k : Pubkey} {m : Miner} {r : Miner}

/-- Without miners and without unrefined GODL on the books the ledger is in order. -/
theorem State.ledgerOk_of_no_miners (hminers : s.miners = .empty)
    (hzero : s.treasury.totalUnclaimed = 0) : s.LedgerOk := by
  refine ⟨?_, ?_, fun k => ?_⟩
  · rw [hzero, State.unrefinedSum, hminers, Store.sum_empty]
  · rw [State.refinedOwed, hminers, Store.sum_empty]
    exact Nat.zero_le _
  · rw [State.ledgers, hminers, Store.view_of_none (Store.get_empty k)]

/-- The ledger stays in order along every run. -/
theorem State.LedgerOk.run (hsetup : s.opened .treasury = true) (hok : s.LedgerOk)
    (hrun : Run (Step env GodlInstruction.KeepsTotalUnclaimed) s h s') : s'.LedgerOk := by
  refine (hrun.invariant (P := fun u => u.opened .treasury = true ∧ u.LedgerOk) ⟨hsetup, hok⟩
    fun t l u ht hstep => ?_).2
  obtain ⟨_, _, hledger⟩ := hstep.effect.ledgerStep (fun ix hix => hix.kind_ne) ht.1
  exact ⟨hstep.effect.opened ht.1 ht.1, hledger.ok ht.2⟩

/-- What a miner is owed in refined GODL, as an exact rational. -/
theorem Miner.refined_rat_le (m : Miner) (F : ℕ) :
    (m.refinedGodl : ℚ) + ((F : ℚ) - m.rewardsFactor.bits) / 2 ^ 48 * m.rewardsGodl ≤
      (m.position.owed factorScale F : ℚ) * (2 ^ 48)⁻¹ := by
  have hsub : (F : ℚ) - m.rewardsFactor.bits ≤ ((F - m.rewardsFactor.bits : ℕ) : ℚ) := by
    rw [sub_le_iff_le_add]
    exact_mod_cast Nat.sub_le_iff_le_add.1 (le_refl _)
  have howed : (m.position.owed factorScale F : ℚ) * (2 ^ 48)⁻¹ =
      m.refinedGodl + ((F - m.rewardsFactor.bits : ℕ) : ℚ) / 2 ^ 48 * m.rewardsGodl := by
    simp only [Position.owed, Miner.position, factorScale_eq]
    push_cast
    field_simp
    norm_num
  have hunits : (0 : ℚ) ≤ m.rewardsGodl := Nat.cast_nonneg _
  rw [howed]
  gcongr

/-- What the ledger covers, as exact rationals. -/
theorem State.LedgerOk.refined_rat (h : s.LedgerOk) :
    s.miners.sum (fun m => (m.refinedGodl : ℚ) +
      ((s.treasury.minerRewardsFactor.bits : ℚ) - m.rewardsFactor.bits) / 2 ^ 48 *
        m.rewardsGodl) ≤ (s.treasury.totalRefined : ℚ) := by
  have hcast := Store.sum_hom ((AddMonoidHom.mulRight ((2 ^ 48 : ℚ)⁻¹)).comp
    (Nat.castAddMonoidHom ℚ)) (fun m : Miner => m.position.owed factorScale
      s.treasury.minerRewardsFactor.bits) s.miners
  have hrefined : (s.refinedOwed s.treasury.minerRewardsFactor.bits : ℚ) ≤
      s.treasury.totalRefined * 2 ^ 48 := by
    have := h.refined
    rw [factorScale_eq] at this
    exact_mod_cast this
  calc _ ≤ s.miners.sum (fun m => (m.position.owed factorScale
            s.treasury.minerRewardsFactor.bits : ℚ) * (2 ^ 48)⁻¹) :=
        Store.sum_le_sum fun _ m _ => m.refined_rat_le _
    _ = (s.refinedOwed s.treasury.minerRewardsFactor.bits : ℚ) * (2 ^ 48)⁻¹ := hcast.symm
    _ ≤ s.treasury.totalRefined * 2 ^ 48 * (2 ^ 48)⁻¹ := by gcongr
    _ = s.treasury.totalRefined := by field_simp

/-- After settling, a miner's part of the ledger covers what a claim takes off it. -/
theorem State.LedgerOk.covers_claim (h : s.LedgerOk) (hget : s.miners.get k = some m)
    (hsettled : Miner.Settled m s.treasury r) :
    r.rewardsGodl ≤ s.treasury.totalUnclaimed ∧ r.refinedGodl ≤ s.treasury.totalRefined ∧
      r.rewardsGodl / 10 ≤ r.lifetimeRewardsGodl := by
  refine ⟨?_, ?_, ?_⟩
  · rw [hsettled.rewardsGodl, h.unclaimed]
    exact Store.le_sum (fun m => m.ledger.position.units) hget
  · have howed := Store.le_sum (fun m => m.ledger.position.owed factorScale
      s.treasury.minerRewardsFactor.bits) hget
    have hpaid := Position.reward_add_pending_le factorScale
      s.treasury.minerRewardsFactor.bits m.position
    rw [hsettled.refinedGodl]
    refine Nat.le_of_mul_le_mul_right (c := factorScale) ?_ (by rw [factorScale_eq]; decide)
    exact hpaid.trans (howed.trans h.refined)
  · have hlifetime := h.lifetime k
    rw [ledgers_of_get hget] at hlifetime
    have hle : m.rewardsGodl ≤ m.lifetimeRewardsGodl := hlifetime
    rw [hsettled.rewardsGodl, hsettled.lifetime]
    omega

/-- **A claim never runs into one of its checked subtractions**: it computes what it would
compute without the checks. -/
theorem State.LedgerOk.claimGodl_eq (h : s.LedgerOk) (hget : s.miners.get k = some m)
    (clock : Clock) : m.claimGodl clock s.treasury = m.claimGodlUnchecked clock s.treasury := by
  cases hupdate : m.updateRewards s.treasury with
  | error e =>
    rw [Miner.claimGodl, Miner.claimGodlUnchecked, hupdate]
    rfl
  | ok r =>
    obtain ⟨hunclaimed, hrefined, hlifetime⟩ :=
      h.covers_claim hget ((Miner.updateRewards_spec m s.treasury).elim hupdate)
    have hfee : r.rewardsGodl / 10 ≤ r.refinedGodl + r.rewardsGodl := by omega
    simp only [Miner.claimGodl, Miner.claimGodlUnchecked, hupdate, ok_bind,
      subU64_of_le hunclaimed, subU64_of_le hrefined]
    by_cases hamount : r.refinedGodl + r.rewardsGodl < u64Bound
    · simp only [addU64_of_lt hamount, ok_bind, subU64_of_le hfee, subU64_of_le hlifetime]
    · simp only [addU64, if_neg hamount]
      rfl

/-- **No claim is ever stuck on the ledger** in a run from a state without miners. -/
theorem claimGodl_of_run (hsetup : s.opened .treasury = true) (hminers : s.miners = .empty)
    (hzero : s.treasury.totalUnclaimed = 0)
    (hrun : Run (Step env GodlInstruction.KeepsTotalUnclaimed) s h s') (clock : Clock) :
    s'.miners.All fun m =>
      m.claimGodl clock s'.treasury = m.claimGodlUnchecked clock s'.treasury :=
  fun _ _ hget => ((State.ledgerOk_of_no_miners hminers hzero).run hsetup hrun).claimGodl_eq
    hget clock

/-- **Along every run from a state without miners, the treasury books exactly the unrefined
GODL of all miners and covers their refined GODL, no miner holds more than it ever earned,
and so no subtraction of a claim underflows.** -/
theorem ledger_covers_claims (hsetup : s.opened .treasury = true) (hminers : s.miners = .empty)
    (hzero : s.treasury.totalUnclaimed = 0)
    (hrun : Run (Step env GodlInstruction.KeepsTotalUnclaimed) s h s') :
    s'.treasury.totalUnclaimed = s'.miners.sum (fun m => m.rewardsGodl) ∧
    s'.miners.sum (fun m => (m.refinedGodl : ℚ) +
      ((s'.treasury.minerRewardsFactor.bits : ℚ) - m.rewardsFactor.bits) / 2 ^ 48 *
        m.rewardsGodl) ≤ (s'.treasury.totalRefined : ℚ) ∧
    (s'.miners.All fun m => m.rewardsGodl ≤ m.lifetimeRewardsGodl) ∧
    s'.miners.All fun m => Ensures (m.updateRewards s'.treasury) fun r =>
      r.rewardsGodl ≤ s'.treasury.totalUnclaimed ∧ r.refinedGodl ≤ s'.treasury.totalRefined ∧
        r.rewardsGodl / 10 ≤ r.lifetimeRewardsGodl := by
  have hok := (State.ledgerOk_of_no_miners hminers hzero).run hsetup hrun
  refine ⟨hok.unclaimed, hok.refined_rat, fun k m hget => ?_, fun k m hget => ?_⟩
  · have hlifetime := hok.lifetime k
    rwa [ledgers_of_get hget] at hlifetime
  · exact Ensures.mono (Miner.updateRewards_spec m s'.treasury) fun r hr =>
      hok.covers_claim hget hr

end Ledger

/-- A key pair opens a miner, and the bury authority pays it 100 unrefined GODL. -/
def injectScript : List Call :=
  [.plain 1 1 (.automate ⟨0, 0, 0, 0, 0, false, false⟩) [.signer 7,
    .writable (.automationV2Pda (.key 7)), .writable (.key 8), .writable (.minerPda (.key 7)),
    .writable (.poolMemberPda (.key 7)), .program systemProgramId],
   .plain 2 2 (.injectUnrefinedRewards 100) [.signer 5, .writable .configPda,
    .writable (.minerPda (.key 7)), .writable .treasuryPda,
    .writable (.associatedTokenAddress (.key 5) mintAddress), .writable treasuryTokensAddress,
    .program splTokenId, .writable .goldVaultPda, .writable (.minerExtendedPda (.key 7)),
    .program systemProgramId]]

/-- A set-up program whose bury authority holds 500 GODL. -/
def fundedState : State :=
  .waiting 1 (fun k => if k.isKeypair then 10 ^ 12 else 0) fun k =>
    if k = treasuryTokensAddress then some 0
    else if k = .associatedTokenAddress (.key 5) mintAddress then some 500
    else none

/-- The unrefined GODL of the miner is on the books. -/
theorem ledger_covers_claims_inject : ∃ (h : History) (s' : State),
    Run (Step .plain GodlInstruction.KeepsTotalUnclaimed) fundedState h s' ∧ h.length = 2 ∧
    s'.treasury.totalUnclaimed = 100 ∧
    s'.treasury.totalUnclaimed = s'.miners.sum (fun m => m.rewardsGodl) := by
  obtain ⟨h, s', hrun, hlabels, hunclaimed⟩ := exists_run_of_perform .plain
    GodlInstruction.KeepsTotalUnclaimed fundedState injectScript
    (fun s => s.treasury.totalUnclaimed = 100)
    (by simp [injectScript, Call.plain, GodlInstruction.KeepsTotalUnclaimed]) (by decide +kernel)
  exact ⟨h, s', hrun, by simpa [injectScript] using congrArg List.length hlabels,
    by simpa using hunclaimed,
    (ledger_covers_claims rfl rfl rfl hrun).1⟩

end Godl
