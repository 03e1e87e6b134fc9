import Godl.Proof.GameSteps
import Godl.Lib.Tiling

/-!
# The intervals of a round

On every square of the current round, the deployments of its miners tile the segment from
zero to what was deployed there: each deployment takes the interval at the end, and none
ever moves while the round is played.

## Main definitions

* `State.staked` — what a miner deployed in the current round.
* `State.RoundTiled` — the intervals tile the round.
* `State.RoundTiled.step`, `State.RoundTiled.run` — they always do.
-/

namespace Godl

open Lib

/-- What the miner at `k` deployed on a square in the current round. -/
def State.staked (s : State) (sq : Square) (k : Pubkey) : ℕ :=
  if (s.wagers k).roundId = s.board.roundId then (s.wagers k).deployed sq else 0

/-- Where the interval of the miner at `k` starts. -/
def State.start (s : State) (sq : Square) (k : Pubkey) : ℕ := (s.wagers k).cumulative sq

/-- A round that is tiled by the intervals of its miners, and whose total is theirs. -/
structure Round.Tiled (round : Round) (s : State) : Prop where
  waits : round.slotHash = 0
  tiles : ∀ sq, Tiles (s.start sq) (s.staked sq) (round.deployed sq)
  total : round.totalDeployed = ∑ sq, round.deployed sq
  fits : round.totalDeployed < u64Bound

/-- The intervals of its miners tile the current round, and no miner is ahead of it. -/
structure State.RoundTiled (s : State) : Prop where
  setup : s.opened .treasury = true
  unplayed : ∀ k, s.board.roundId < (s.wagers k).roundId → (s.wagers k).deployed = fun _ => 0
  current : ∃ round, s.rounds.get (.roundPda s.board.roundId) = some round ∧ round.Tiled s

section Tiled

variable {allowed : GodlInstruction → Prop} {s s' : State} {l : Label} {round : Round}

/-- A round without deployments is tiled by nothing. -/
theorem Round.tiled_of_empty (hwaits : round.slotHash = 0)
    (hdeployed : ∀ sq, round.deployed sq = 0) (htotal : round.totalDeployed = 0)
    (hunplayed : ∀ k, (s.wagers k).roundId = s.board.roundId →
      (s.wagers k).deployed = fun _ => 0) : round.Tiled s := by
  refine ⟨hwaits, fun sq => ?_, by simp [htotal, hdeployed], by rw [htotal]; decide⟩
  rw [hdeployed sq]
  refine Tiles.of_len_eq_zero fun k => ?_
  rw [State.staked]
  split
  · next hid => rw [hunplayed k hid]
  · rfl

/-- What everyone holds is all that the tiles depend on. -/
theorem Round.Tiled.congr (h : round.Tiled s) (hboard : s'.board.roundId = s.board.roundId)
    (hbets : ∀ k, (s'.wagers k).roundId = (s.wagers k).roundId ∧
      (s'.wagers k).deployed = (s.wagers k).deployed ∧
      (s'.wagers k).cumulative = (s.wagers k).cumulative) : round.Tiled s' := by
  refine ⟨h.waits, fun sq => (h.tiles sq).congr (fun k => ?_) (fun k _ => ?_), h.total, h.fits⟩
  · rw [State.staked, State.staked, hboard, (hbets k).1, (hbets k).2.1]
  · rw [State.start, State.start, (hbets k).2.2]

/-- A miner that is ready has no interval yet. -/
theorem State.staked_of_ready {k : Pubkey} (h : (s.wagers k).Ready s.board.roundId)
    (sq : Square) : s.staked sq k = 0 := by
  rw [State.staked]
  rcases h with ⟨hnew, -⟩ | ⟨-, hnone⟩
  · rw [if_neg hnew]
  · rw [hnone]
    exact ite_self 0

/-- **A deployment puts its intervals at the end.** -/
theorem Round.Tiled.wagered {clock : Clock} {authority : Pubkey} {round' : Round}
    {pool pool' : PoolRound} {wager : Miner.Wager} {member : PoolMember.Membership}
    {isPooled : Bool} (h : round.Tiled s)
    (hwagered : Wagered clock s s' authority round round' pool pool' wager member isPooled) :
    round'.Tiled s' := by
  have hroundId := hwagered.roundId
  have hnew : s'.wagers (.minerPda authority) = wager := by
    rw [hwagered.wagers, Function.update_self]
  refine ⟨?_, fun sq => ?_, ?_, hwagered.fits h.fits⟩
  · rw [hwagered.frame]
    exact h.waits
  · rw [hwagered.deployed sq]
    have happend := (h.tiles sq).append (n := wager.deployed sq)
      (State.staked_of_ready hwagered.ready sq)
    refine happend.congr (fun k => ?_) (fun k hpos => ?_)
    · by_cases hk : k = .minerPda authority
      · subst hk
        rw [Function.update_self, State.staked, hnew, hroundId, if_pos hwagered.wagerId]
      · rw [Function.update_of_ne hk, State.staked, State.staked, hwagered.wagers,
          Function.update_of_ne hk, hroundId]
    · by_cases hk : k = .minerPda authority
      · subst hk
        rw [Function.update_self] at hpos ⊢
        rw [State.start, hnew]
        exact hwagered.cumulative sq hpos
      · rw [Function.update_of_ne hk, State.start, State.start, hwagered.wagers,
          Function.update_of_ne hk]
  · rw [hwagered.total, h.total, ← Finset.sum_add_distrib]
    exact Finset.sum_congr rfl fun sq _ => (hwagered.deployed sq).symm

/-- **The intervals tile the current round after every step.** -/
theorem State.RoundTiled.step (h : s.RoundTiled) (hstep : StepEffect allowed s s' l) :
    s'.RoundTiled := by
  have hgame := hstep.game h.setup
  have hopened := hstep.opened h.setup h.setup
  obtain ⟨round, hround, htiled⟩ := h.current
  cases hgame with
  | still _ hsame =>
    refine ⟨hopened, ?_, round, ?_, htiled.congr (by rw [hsame.board]) fun k => ?_⟩
    · rw [hsame.wagers, hsame.board]
      exact h.unplayed
    · rw [hsame.rounds, hsame.board, hround]
    · rw [hsame.wagers]
      exact ⟨rfl, rfl, rfl⟩
  | checkpoint _ hcheckpointed =>
    obtain ⟨hboard, hrounds⟩ := hcheckpointed.current
    refine ⟨hopened, fun k => ?_, round, ?_,
      htiled.congr (by rw [hboard]) fun k => hcheckpointed.bets k⟩
    · obtain ⟨hid, hdeployed, -⟩ := hcheckpointed.bets k
      rw [hboard, hid, hdeployed]
      exact h.unplayed k
    · rw [hboard, hrounds, hround]
  | deploy _ hdeployed =>
    obtain ⟨authority, round₁, round', _, _, wager, _, _, hwagered, -⟩ := hdeployed
    have hsame : round₁ = round := by
      have hget := hwagered.getRound
      rw [hround] at hget
      exact (Option.some.inj hget).symm
    rw [hsame] at hwagered
    refine ⟨hopened, fun k => ?_, round', ?_, htiled.wagered hwagered⟩
    · rw [hwagered.roundId, hwagered.wagers]
      by_cases hk : k = .minerPda authority
      · subst hk
        rw [Function.update_self, hwagered.wagerId]
        exact fun hlt => absurd hlt (lt_irrefl _)
      · rw [Function.update_of_ne hk]
        exact h.unplayed k
    · rw [hwagered.roundId, hwagered.getRound_after]
  | @reset _ _ _ _ _ a _ _ _ _ hreset =>
    -- Nobody has played the next round.
    have hwagers : s'.wagers = s.wagers := by rw [State.wagers, State.wagers, hreset.miners]
    refine ⟨hopened, fun k => ?_, Round.fresh (s.board.roundId + 1) a.signerInfo.key, ?_,
      Round.tiled_of_empty rfl (fun _ => rfl) rfl fun k => ?_⟩
    · rw [hwagers, hreset.board]
      exact fun hlt => h.unplayed k (lt_trans (Nat.lt_succ_self _) hlt)
    · rw [hreset.board, hreset.roundsAfter, if_neg (by simp), if_pos rfl]
    · rw [hwagers, hreset.board]
      exact fun hid => h.unplayed k (hid ▸ Nat.lt_succ_self _)
  | @close _ _ _ _ closed _ hclosed =>
    have hwagers : s'.wagers = s.wagers := by rw [State.wagers, State.wagers, hclosed.miners]
    have hpast := hclosed.past
    refine ⟨hopened, ?_, round, ?_, htiled.congr (by rw [hclosed.board]) fun k => ?_⟩
    · rw [hwagers, hclosed.board]
      exact h.unplayed
    · rw [hclosed.board, hclosed.rounds, Store.get_erase, if_neg]
      · exact hround
      · simp only [Pubkey.roundPda.injEq]
        omega
    · rw [hwagers]
      exact ⟨rfl, rfl, rfl⟩

end Tiled

theorem State.RoundTiled.run {env : Env} {allowed : GodlInstruction → Prop} {s t : State}
    {h : History} (hstart : s.RoundTiled) (hrun : Run (Step env allowed) s h t) : t.RoundTiled :=
  hrun.invariant hstart fun _ _ _ ht hstep => ht.step hstep.effect

end Godl
