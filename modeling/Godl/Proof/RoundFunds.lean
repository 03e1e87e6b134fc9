import Godl.Proof.GameSteps

/-!
# The lamports of the current round

Until it is reset, a round holds the rent of its account and everything that was deployed
in it: a deployment pays what it bets, nothing else in the program takes lamports out of
the round, and the next round is opened with its rent.

## Main definitions

* `State.RoundFunded` — the current round holds its rent and what was deployed.
* `State.RoundFunded.step`, `State.RoundFunded.run` — it always does.
-/

namespace Godl

open Lib

/-- The current round holds its rent and everything that was deployed in it. -/
def State.RoundFunded (s : State) : Prop :=
  ∀ round, s.rounds.get (.roundPda s.board.roundId) = some round →
    minimumBalance roundSize + round.totalDeployed ≤ s.lamports (.roundPda s.board.roundId)

section Funded

variable {env : Env} {allowed : GodlInstruction → Prop} {s s' t : State} {l : Label} {h : History}

/-- The round stays, and keeps its lamports. -/
theorem State.RoundFunded.kept (hfunded : s.RoundFunded) (hboard : s'.board.roundId =
    s.board.roundId) (hround : s'.rounds.get (.roundPda s.board.roundId) =
      s.rounds.get (.roundPda s.board.roundId))
    (hl : s.lamports (.roundPda s.board.roundId) ≤ s'.lamports (.roundPda s.board.roundId)) :
    s'.RoundFunded := by
  intro round hget
  rw [hboard] at hget ⊢
  rw [hround] at hget
  exact (hfunded round hget).trans hl

/-- The game stands still, and rounds keep their lamports. -/
theorem State.RoundFunded.still (hfunded : s.RoundFunded) (hsame : SameGame s s')
    (hl : Grew IsRound s.lamports s'.lamports) : s'.RoundFunded :=
  hfunded.kept (by rw [hsame.board]) (by rw [hsame.rounds]) (hl _ ⟨_, rfl⟩)

/-- A checkpoint pays out of another round. -/
theorem State.RoundFunded.checkpointed (hfunded : s.RoundFunded) {clock : Clock}
    {a : CheckpointAccounts} {legacy : Prop} (h : Checkpointed clock a legacy s s') :
    s'.RoundFunded := by
  obtain ⟨hboard, hround⟩ := h.current
  refine hfunded.kept (by rw [hboard]) hround ?_
  rcases h with ⟨rfl⟩ | ⟨_, -, -, -, rfl⟩ | ⟨_, round, _, _, _, _, hcredited⟩
  · exact le_refl _
  · exact le_refl _
  · have hpays := hcredited.lamports (.roundPda s.board.roundId) ⟨_, rfl⟩
    rw [if_neg (by simpa using hcredited.past.symm)] at hpays
    exact hpays.ge

/-- **The current round stays funded**, if the setup funds the first one. -/
theorem State.RoundFunded.step (hfunded : s.RoundFunded)
    (hinitial : ∀ ix, l.instruction = some ix → ix.kind = .initializeProgram → s'.RoundFunded)
    (h : StepEffect allowed s s' l) : s'.RoundFunded := by
  cases h with
  | world hidle => exact hfunded.still hidle.game hidle.funds.rounds
  | @call clock ix accounts cpi hallowed heffect =>
    cases hix : ix.kind
    all_goals rw [hix] at heffect
    case quiet => exact hfunded.still heffect.game heffect.funds.rounds
    case initializeProgram => exact hinitial ix rfl hix
    case checkpoint legacy =>
      obtain ⟨-, a, hcheckpointed⟩ := heffect
      exact hfunded.checkpointed hcheckpointed
    case deploy =>
      obtain ⟨_, round, round', _, _, wager, _, _, hwagered, hgains⟩ := heffect
      intro round₁ hget
      rw [hwagered.roundId] at hget ⊢
      rw [hwagered.getRound_after] at hget
      cases hget
      have hbefore := hfunded round hwagered.getRound
      have hgain := hgains (.roundPda s.board.roundId) ⟨_, rfl⟩
      rw [if_pos rfl] at hgain
      rw [hwagered.total]
      omega
    case reset =>
      obtain ⟨_, _, _, _, _, hreset⟩ := heffect
      intro round₁ hget
      rw [hreset.board] at hget ⊢
      rw [hreset.roundsAfter, if_neg (by simp), if_pos rfl] at hget
      cases hget
      exact hreset.nextRent
    case close =>
      obtain ⟨round, hclosed⟩ := heffect
      have hne : Pubkey.roundPda s.board.roundId ≠ .roundPda round.id := by
        have hpast := hclosed.past
        simp only [ne_eq, Pubkey.roundPda.injEq]
        omega
      refine hfunded.kept (by rw [hclosed.board]) ?_ (hclosed.lamports _ ⟨_, rfl⟩ hne)
      rw [hclosed.rounds, Store.get_erase, if_neg hne]
    case unrefined =>
      obtain ⟨_, _, htraded, hfunds, -⟩ := heffect
      exact hfunded.still htraded.game hfunds.rounds
    case stakes =>
      obtain ⟨_, hstep⟩ := heffect
      exact hfunded.still hstep.game hstep.funds.rounds
    case bury =>
      obtain ⟨_, hburied, -⟩ := heffect
      exact hfunded.still hburied.game hburied.rounds
    case buryTokens =>
      obtain ⟨_, hburied⟩ := heffect
      exact hfunded.still hburied.game hburied.rounds
    case motherlode =>
      obtain ⟨_, hinjected⟩ := heffect
      exact hfunded.still hinjected.game hinjected.funds.rounds
    case rebaseTotalStaked =>
      obtain ⟨_, rfl⟩ := heffect
      exact hfunded
    case rebaseTotalUnclaimed =>
      obtain ⟨_, rfl⟩ := heffect
      exact hfunded
    case initializeGoldVault => exact hfunded.still heffect.game heffect.funds.rounds
    case distributeGold =>
      obtain ⟨-, _, hdistributed⟩ := heffect
      exact hfunded.still hdistributed.game hdistributed.rounds
    case claimGold =>
      obtain ⟨_, hclaimed⟩ := heffect
      exact hfunded.still hclaimed.game hclaimed.rounds

/-- **In every state of a run, the current round is funded.** -/
theorem State.RoundFunded.run (hfunded : s.RoundFunded) (hsetup : s.opened .treasury = true)
    (hrun : Run (Step env allowed) s h t) : t.RoundFunded := by
  refine (hrun.invariant (P := fun u => u.opened .treasury = true ∧ u.RoundFunded)
    ⟨hsetup, hfunded⟩ fun u l u' hu hstep => ?_).2
  have heffect := hstep.effect
  refine ⟨heffect.opened hu.1 hu.1, hu.2.step (fun ix hix hkind => ?_) heffect⟩
  -- The setup comes before the treasury.
  cases hstep with
  | call hallowed hok =>
    obtain rfl := Option.some.inj hix
    have hclosed := processInstruction_effect env _ _ _ _ u u' hok
    rw [hkind] at hclosed
    exact absurd hu.1 (by simp [show u.opened .treasury = false from hclosed])
  | world => cases hix

/-- A fresh round only needs its rent. -/
theorem State.RoundFunded.fresh {rounds : Store Pubkey Round Round.pda}
    {rentPayer : Pubkey} (hboard : s.board.roundId = 0)
    (hrounds : s.rounds = rounds.put (Round.fresh 0 rentPayer))
    (hl : minimumBalance roundSize ≤ s.lamports (.roundPda 0)) : s.RoundFunded := by
  intro round hget
  rw [hboard] at hget ⊢
  have hput : s.rounds.get (.roundPda 0) = some (Round.fresh 0 rentPayer) := by
    rw [hrounds]
    exact Store.get_put_self _ _
  obtain rfl := Option.some.inj (hput.symm.trans hget)
  exact hl

/-- An account that a signer pays for has its rent. -/
theorem createAccount_rent (s : State) (target : AccountInfo) (len : ℕ) {payer : AccountInfo}
    (hpayer : payer.isSigner = true) (htarget : IsDerived target.key) :
    Ensures (s.createAccount target len payer) fun s' =>
      ∃ l, s' = { s with lamports := l } ∧ minimumBalance len ≤ l target.key := by
  refine Ensures.mono (s.createAccount_spec target len payer) ?_
  rintro _ ⟨-, l, rfl, hl, -⟩
  have hne : target.key ≠ payer.key := by
    intro h
    rw [IsDerived, h, payer.isKeypair_of_isSigner hpayer] at htarget
    cases htarget
  have hpaid := hl.balance target.key
  rw [if_neg hne, if_pos rfl] at hpaid
  exact ⟨l, rfl, by omega⟩

/-- The setup opens the first round, with its rent and without deployments. -/
theorem processInitialize_funded (admin buryAuthority feeCollector : Pubkey) (godlPerRound : ℕ)
    (signerInfo configInfo treasuryInfo boardInfo roundInfo systemProgram : AccountInfo)
    (s : State) :
    Ensures (processInitialize admin buryAuthority feeCollector godlPerRound signerInfo configInfo
      treasuryInfo boardInfo roundInfo systemProgram s) State.RoundFunded := by
  simp only [processInitialize, ensures_bind, ensures_require, ensures_pure]
  intro _ hsigner _ _ _ _ _ _ _ _ _ _ _ _ _ hround
  refine ensures_of_forall fun s₁ => ensures_of_forall fun s₂ => ensures_of_forall fun s₃ => ?_
  have hderived : IsDerived roundInfo.key := by rw [hround]; rfl
  refine Ensures.mono (createAccount_rent s₃ roundInfo roundSize hsigner hderived) ?_
  rintro _ ⟨l, rfl, hl⟩
  rw [hround] at hl
  exact State.RoundFunded.fresh rfl rfl hl

end Funded

end Godl
