import Godl.Proof.Intervals
import Godl.Proof.ResetHandler

/-!
# What a round pays out

What a checkpoint pays to a miner is a function of the settled round and of what the miner
deployed in it.  The sum over the miners that have not been paid yet falls by what each
checkpoint pays, and only then.

## Main definitions

* `Round.payout` — what a miner gets out of a round.
* `State.payouts`, `State.unpaid` — what all of them get, and those that are still to be paid.
* `checkpointRewards_payout` — a checkpoint computes the payout.
* `KeepsOwed` — a round keeps what it owes.
* `StepEffect.keepsOwed` — every step keeps it once the round is over.
-/

namespace Godl

open Lib

/-! ## Payouts -/

/-- The fee on a deployment that won: at least one lamport. -/
def winnerFee (d : ℕ) : ℕ :=
  if 0 < d then max (d * (adminFeeBps + solMotherlodeBps) / denominatorBps) 1 else 0

/-- The share of a deployment in the winnings of the round. -/
def Round.share (round : Round) (ws : Square) (d : ℕ) : ℕ :=
  round.totalWinnings * d / round.deployed ws

/-- What a round pays to a miner by what it deployed. -/
def Round.payout (round : Round) (deployed : Square → ℕ) : ℕ :=
  match round.rng with
  | some r =>
      let ws := Round.winningSquare r
      deployed ws - winnerFee (deployed ws) + round.share ws (deployed ws)
  | none => ∑ sq, deployed sq

/-- What a round pays for a wager. -/
def Round.pays (round : Round) (w : Miner.Wager) : ℕ :=
  if w.roundId = round.id then round.payout w.deployed else 0

/-- What a round still has to pay for a wager. -/
def Round.owes (round : Round) (w : Miner.Wager) : ℕ :=
  if w.roundId = round.id ∧ w.checkpointId ≠ w.roundId then round.payout w.deployed else 0

/-- What the miners of a round get out of it. -/
def State.payouts (s : State) (round : Round) : ℕ := s.miners.sum fun m => round.pays m.wager

/-- What the miners of a round that are not paid yet get out of it. -/
def State.unpaid (s : State) (round : Round) : ℕ := s.miners.sum fun m => round.owes m.wager

section Payout

variable {round round' : Round} {miner : Miner} {poolMember : Option PoolMember} {s s' : State}
  {a : CheckpointAccounts} {d : ℕ} {deployed : Square → ℕ}

theorem winnerFee_zero : winnerFee 0 = 0 := rfl

theorem winnerFee_le (d : ℕ) : winnerFee d ≤ d := by
  unfold winnerFee
  split
  · simp only [adminFeeBps, solMotherlodeBps, denominatorBps]
    omega
  · exact Nat.zero_le d

theorem Round.share_zero (round : Round) (ws : Square) : round.share ws 0 = 0 := by
  rw [Round.share, Nat.mul_zero, Nat.zero_div]

/-- A share of winnings that fit into a word fits as well. -/
theorem Round.share_lt (hwinnings : round.totalWinnings < u64Bound) {ws : Square}
    (hd : d ≤ round.deployed ws) : round.share ws d < u64Bound := by
  refine lt_of_le_of_lt ?_ hwinnings
  exact Nat.div_le_of_le_mul ((Nat.mul_le_mul_left _ hd).trans_eq (Nat.mul_comm _ _))

/-- The payout depends on what is frozen. -/
theorem Round.Frozen.payout (h : round.Frozen round') : round'.payout = round.payout := by
  rw [h]
  rfl

/-- **A checkpoint computes the payout.** -/
theorem checkpointRewards_payout (hwinnings : round.totalWinnings < u64Bound) :
    Ensures (checkpointRewards a round miner poolMember s) fun r =>
      r.1 = round.payout miner.deployed := by
  unfold checkpointRewards Round.payout
  cases round.rng with
  | none =>
    simp only [ensures_bind, ensures_require, ensures_pure]
    intro _
    refine Ensures.mono (ensures_sumU64 _ _) fun n hn => ?_
    rw [hn, Fin.sum_univ_def]
  | some r =>
    simp only [ensures_ite, ensures_bind, ensures_require, ensures_addU64, ensures_pure]
    refine ⟨fun hpos hle => ?_, fun hzero => ?_⟩
    · simp only [winnerSol, ensures_bind, ensures_mulU64, ensures_subU64, ensures_addU64]
      intro _ _ _
      refine ensures_of_forall fun p _ => ?_
      have hlt := Round.share_lt hwinnings hle
      rw [winnerFee, if_pos hpos, proRata]
      rw [Round.share] at hlt ⊢
      rw [Nat.mod_eq_of_lt hlt]
    · have hnone : miner.deployed (Round.winningSquare r) = 0 := Nat.eq_zero_of_not_pos hzero
      rw [hnone, winnerFee_zero, Round.share_zero]

/-- A round owes no more than it pays. -/
theorem State.unpaid_le (s : State) (round : Round) : s.unpaid round ≤ s.payouts round := by
  refine Store.sum_le_sum fun k m _ => ?_
  show round.owes m.wager ≤ round.pays m.wager
  unfold Round.owes Round.pays
  split
  · next h => rw [if_pos h.1]
  · exact Nat.zero_le _

theorem Round.owes_of_settled {w : Miner.Wager} (h : w.checkpointId = w.roundId) :
    round.owes w = 0 := if_neg fun hw => hw.2 h

theorem Round.owes_of_ne {w : Miner.Wager} (h : w.roundId ≠ round.id) : round.owes w = 0 :=
  if_neg fun hw => h hw.1

/-- What is owed follows one wager. -/
theorem State.unpaid_update (round : Round) {k : Pubkey} {w : Miner.Wager}
    (h : s'.wagers = Function.update s.wagers k w) :
    s'.unpaid round + round.owes (s.wagers k) = s.unpaid round + round.owes w :=
  Store.sum_view_update (g := round.owes) (Round.owes_of_settled rfl) h

theorem State.unpaid_congr (round : Round) (h : s'.wagers = s.wagers) :
    s'.unpaid round = s.unpaid round :=
  Store.sum_eq_of_view (g := round.owes) h (Round.owes_of_settled rfl)

/-- What is owed of a frozen round. -/
theorem State.unpaid_frozen (h : round.Frozen round') : s.unpaid round' = s.unpaid round := by
  have hid : round'.id = round.id := by rw [h]
  simp only [State.unpaid, Round.owes, h.payout, hid]

/-- A miner that is ready is owed nothing by a round that is over. -/
theorem Round.owes_of_ready {w : Miner.Wager} {id : ℕ} (h : w.Ready id) (hpast : round.id ≠ id) :
    round.owes w = 0 := by
  rcases h with ⟨-, hsettled⟩ | ⟨hcurrent, -⟩
  · exact Round.owes_of_settled hsettled
  · exact Round.owes_of_ne (hcurrent ▸ hpast.symm)

end Payout

/-! ## The round keeps what it has to pay -/

section Keeps

variable {allowed : GodlInstruction → Prop} {s s' : State} {l : Label} {round round' : Round}

/-- A round keeps what it owes: its lamports fall by no more than that does. -/
def KeepsOwed (s s' : State) (round : Round) : Prop :=
  s.lamports (.roundPda round.id) + s'.unpaid round ≤
    s'.lamports (.roundPda round.id) + s.unpaid round

theorem KeepsOwed.still (hwagers : s'.wagers = s.wagers)
    (hl : s.lamports (.roundPda round.id) ≤ s'.lamports (.roundPda round.id)) :
    KeepsOwed s s' round := by
  rw [KeepsOwed, State.unpaid_congr round hwagers]
  exact Nat.add_le_add_right hl _

/-- A checkpoint pays what is owed to one miner. -/
theorem Checkpointed.keepsOwed {clock : Clock} {a : CheckpointAccounts} {legacy : Prop}
    (h : Checkpointed clock a legacy s s')
    (hget : s.rounds.get (.roundPda round.id) = some round)
    (hwinnings : round.totalWinnings < u64Bound) : KeepsOwed s s' round := by
  have hdone : ∀ miner : Miner,
      round.owes { miner.wager with checkpointId := miner.roundId } = 0 := fun _ =>
    Round.owes_of_settled rfl
  rcases h with ⟨rfl⟩ | ⟨miner, hminer, -, -, rfl⟩ |
    ⟨miner, round₁, round₁', poolMember, sol, godl, hcredited⟩
  · exact le_refl _
  · have hunpaid := State.unpaid_update round (forfeit_wagers miner s)
    rw [hdone] at hunpaid
    show s.lamports (.roundPda round.id) + _ ≤ s.lamports (.roundPda round.id) + _
    omega
  · have hunpaid := State.unpaid_update round hcredited.wagers
    rw [hdone, wagers_of_get hcredited.getMiner] at hunpaid
    have hpays := hcredited.lamports (.roundPda round.id) ⟨_, rfl⟩
    rw [KeepsOwed]
    by_cases hid : round.id = round₁.id
    · have hsame : round₁ = round := by
        have hget₁ := hcredited.getRound
        rw [← hid, hget] at hget₁
        exact (Option.some.inj hget₁).symm
      subst hsame
      rw [if_pos rfl] at hpays
      have hsol := (checkpointRewards_payout hwinnings).elim hcredited.rewards
      have howes : round₁.owes miner.wager = round₁.payout miner.deployed :=
        if_pos ⟨hcredited.played.symm, hcredited.pending⟩
      dsimp only at hsol
      omega
    · rw [if_neg (by simpa using hid)] at hpays
      omega

/-- **While a round that is over is there, it keeps what it owes.** -/
theorem StepEffect.keepsOwed (h : StepEffect allowed s s' l) (hsetup : s.opened .treasury = true)
    (hpast : round.id < s.board.roundId)
    (hget : s.rounds.get (.roundPda round.id) = some round)
    (hget' : s'.rounds.get (.roundPda round.id) = some round')
    (hwinnings : round.totalWinnings < u64Bound) : KeepsOwed s s' round := by
  have hround : IsRound (.roundPda round.id) := ⟨_, rfl⟩
  cases h with
  | world hidle => exact .still hidle.game.wagers (hidle.funds.rounds _ hround)
  | @call clock ix accounts cpi hallowed heffect =>
    cases hix : ix.kind
    all_goals rw [hix] at heffect
    case quiet => exact .still heffect.game.wagers (heffect.funds.rounds _ hround)
    case initializeProgram =>
      have hclosed : s.opened .treasury = false := heffect
      rw [hsetup] at hclosed
      cases hclosed
    case checkpoint legacy =>
      obtain ⟨-, a, hcheckpointed⟩ := heffect
      exact hcheckpointed.keepsOwed hget hwinnings
    case deploy =>
      obtain ⟨_, _, _, _, _, wager, _, _, hwagered, hgains⟩ := heffect
      have hunpaid := State.unpaid_update round hwagered.wagers
      rw [Round.owes_of_ready hwagered.ready hpast.ne,
        Round.owes_of_ne (hwagered.wagerId ▸ hpast.ne')] at hunpaid
      have hgain := hgains (.roundPda round.id) hround
      rw [KeepsOwed]
      omega
    case reset =>
      obtain ⟨_, _, _, _, _, hreset⟩ := heffect
      refine .still (by rw [State.wagers, State.wagers, hreset.miners]) ?_
      have hl := hreset.lamports (.roundPda round.id) hround
      rwa [if_neg (by simpa using hpast.ne)] at hl
    case close =>
      obtain ⟨round₁, hclosed⟩ := heffect
      refine .still (by rw [State.wagers, State.wagers, hclosed.miners]) ?_
      refine hclosed.lamports _ hround fun hkey => ?_
      rw [hclosed.rounds, hkey, Store.get_erase_self] at hget'
      cases hget'
    case unrefined =>
      obtain ⟨_, _, htraded, hfunds, -⟩ := heffect
      exact .still htraded.game.wagers (hfunds.rounds _ hround)
    case stakes =>
      obtain ⟨_, hstep⟩ := heffect
      exact .still hstep.game.wagers (hstep.funds.rounds _ hround)
    case bury =>
      obtain ⟨_, hburied, -⟩ := heffect
      exact .still hburied.game.wagers (hburied.rounds _ hround)
    case buryTokens =>
      obtain ⟨_, hburied⟩ := heffect
      exact .still hburied.game.wagers (hburied.rounds _ hround)
    case motherlode =>
      obtain ⟨_, hinjected⟩ := heffect
      exact .still hinjected.game.wagers (hinjected.funds.rounds _ hround)
    case rebaseTotalStaked =>
      obtain ⟨_, rfl⟩ := heffect
      exact le_refl _
    case rebaseTotalUnclaimed =>
      obtain ⟨_, rfl⟩ := heffect
      exact le_refl _
    case initializeGoldVault => exact .still heffect.game.wagers (heffect.funds.rounds _ hround)
    case distributeGold =>
      obtain ⟨-, _, hdistributed⟩ := heffect
      exact .still hdistributed.game.wagers (hdistributed.rounds _ hround)
    case claimGold =>
      obtain ⟨_, hclaimed⟩ := heffect
      exact .still hclaimed.game.wagers (hclaimed.rounds _ hround)

end Keeps

end Godl
