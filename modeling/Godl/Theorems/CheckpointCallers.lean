import Godl.Proof.GodlRewards
import Godl.Theorems.ClaimWindow
import Godl.Theorems.ResetCallers

/-!
# Who checkpoints

Anyone may checkpoint a miner, and names the accounts of the pool round and of the pool member.
An account that is there is the one of the miner, but nothing says which one is meant when the
account is empty, and the share of the pool is then left out.  So a stranger may settle a miner
without its share.  Nothing else depends on the caller.

## Main definitions

* `State.poolReward` — the share of the pool's reward that is due to a miner.
* `State.winnings` — what is credited to a miner.

## Main results

* `checkpointRewards_own` — the pool accounts decide about the share of the pool, and no more.
* `checkpoints_agree_iff` — when two checkpoints of a miner credit the same.
-/

namespace Godl

open Lib

/-- The share of the pool's reward that is due to a miner: when the pool has won the round and
the miner is on the winning square. -/
def State.poolReward (s : State) (round : Round) (miner : Miner) : ℕ :=
  match round.rng with
  | some r =>
      if round.topMiner = poolAddress ∧ 0 < miner.deployed (Round.winningSquare r) then
        s.poolDue round miner.authority (Round.winningSquare r)
      else 0
  | none => 0

/-- What a miner has been credited with, in SOL and in GODL. -/
def State.winnings (s : State) (k : Pubkey) : ℕ × ℕ :=
  s.miners.view (0, 0) (fun m => (m.rewardsSol, m.rewardsGodl)) k

section Rewards

variable {s s' : State} {a : CheckpointAccounts} {round : Round} {miner : Miner}
  {poolMember : Option PoolMember} {ws : Square}

/-- The GODL of a winner, without and with the share of the pool. -/
theorem winnerGodl_own (b : CheckpointAccounts) (r : BitVec 64)
    (hplayed : round.id = miner.roundId)
    (hmember : loadPoolMember a miner s = .ok poolMember) :
    Ensures (winnerGodl a round miner poolMember r ws s) fun p => ∃ own,
      winnerGodl b round miner none r ws s = .ok (own, p.2) ∧
      p.1 = own + if s.NamesPool a ∧ round.topMiner = poolAddress then
        s.poolDue round miner.authority ws else 0 := by
  by_cases hsplit : round.topMiner = splitAddress
  · have hne : ¬ (s.NamesPool a ∧ round.topMiner = poolAddress) := by
      rw [hsplit]
      rintro ⟨-, h⟩
      exact absurd h (by decide)
    rw [winnerGodl, if_pos hsplit, if_neg hne]
    exact ensures_pure.2 ⟨_, by rw [winnerGodl, if_pos hsplit]; rfl, rfl⟩
  by_cases hpool : round.topMiner = poolAddress
  · rw [winnerGodl, if_neg hsplit, if_pos hpool]
    refine Ensures.bind (poolShare_eq hplayed hmember) fun n hn => ensures_pure.2 ⟨0, ?_, ?_⟩
    · rw [winnerGodl, if_neg hsplit, if_pos hpool]
      rfl
    · rw [Nat.zero_add, hn]
      exact if_congr (and_iff_left hpool).symm rfl rfl
  · have hne : ¬ (s.NamesPool a ∧ round.topMiner = poolAddress) := fun h => hpool h.2
    have hsame : winnerGodl a round miner poolMember r ws s = winnerGodl b round miner none r ws s
        := by rw [winnerGodl, winnerGodl, if_neg hsplit, if_neg hpool, if_neg hsplit, if_neg hpool]
    rw [hsame, if_neg hne]
    exact fun p hp => ⟨p.1, hp, rfl⟩

/-- **The pool accounts decide about the share of the pool**, and about nothing else. -/
theorem checkpointRewards_own (b : CheckpointAccounts) (hplayed : round.id = miner.roundId)
    (hmember : loadPoolMember a miner s = .ok poolMember) :
    Ensures (checkpointRewards a round miner poolMember s) fun p => ∃ own,
      checkpointRewards b round miner none s = .ok (p.1, own, p.2.2) ∧
      p.2.1 = own + if s.NamesPool a then s.poolReward round miner else 0 := by
  unfold checkpointRewards State.poolReward
  cases round.rng with
  | none =>
    intro p hp
    refine ⟨p.2.1, hp, ?_⟩
    dsimp only
    rw [ite_self, Nat.add_zero]
  | some r =>
    dsimp only
    by_cases hwon : 0 < miner.deployed (Round.winningSquare r)
    · rw [if_pos hwon, if_pos hwon]
      simp only [ensures_bind, ensures_require, ensures_pure]
      intro hle sol hsol
      refine Ensures.mono (winnerGodl_own b r hplayed hmember) ?_
      rintro ⟨godl, round'⟩ ⟨own, hown, heq⟩
      dsimp only at hown heq ⊢
      rw [ensures_addU64]
      intro hfits
      have hshare : (if s.NamesPool a then
            if round.topMiner = poolAddress ∧ 0 < miner.deployed (Round.winningSquare r) then
              s.poolDue round miner.authority (Round.winningSquare r) else 0 else 0) =
          if s.NamesPool a ∧ round.topMiner = poolAddress then
            s.poolDue round miner.authority (Round.winningSquare r) else 0 := by
        simp only [and_iff_left hwon, ite_and]
      rw [hshare]
      refine ⟨own + motherlodeShare round' miner (Round.winningSquare r), ?_, by omega⟩
      rw [require, if_pos hle, ok_bind, hsol, ok_bind, hown, ok_bind]
      dsimp only
      rw [addU64_of_lt (by omega)]
      rfl
    · rw [if_neg hwon, if_neg hwon, ensures_pure]
      refine ⟨0, rfl, ?_⟩
      rw [if_neg fun h : _ ∧ _ => hwon h.2, ite_self]

end Rewards

/-! ## Two calls -/

section Callers

variable {env : Env} {clock clock' : Clock} {r : ℕ} {a a' : CheckpointAccounts} {miner : Miner}
  {round : Round} {s t t' : State}

/-- **A checkpoint credits what the miner won by itself**, whoever calls, and the share of the
pool when the pool accounts are named. -/
theorem DueCheckpoint.winnings (hdue : DueCheckpoint env clock r a miner s t)
    (hround : s.rounds.get (.roundPda r) = some round) (hpast : r ≠ s.board.roundId)
    (hreset : round.slotHash ≠ 0) (hlive : clock.slot < round.expiresAt)
    (b : CheckpointAccounts) :
    ∃ sol own round', checkpointRewards b round miner none s = .ok (sol, own, round') ∧
      t.winnings miner.pda = (miner.rewardsSol + sol, miner.rewardsGodl +
        (own + if s.NamesPool a then s.poolReward round miner else 0)) := by
  obtain ⟨_, round₀, round', poolMember, sol, godl, hcredited⟩ :=
    (hdue.outcome hround hpast hreset).1 hlive
  have hget := hcredited.getRound
  rw [hcredited.played, hdue.played, hround, Option.some.injEq] at hget
  subst hget
  obtain ⟨own, hown, hgodl⟩ :=
    (checkpointRewards_own b hcredited.played hcredited.member).elim hcredited.rewards
  dsimp only at hown hgodl
  obtain ⟨m, hminers, hauth, hsol, hcredit⟩ := hcredited.credited
  refine ⟨sol, own, round', hown, ?_⟩
  have hpda : miner.pda = m.pda := by rw [Miner.pda, Miner.pda, hauth]
  rw [State.winnings, hminers, hpda, Store.view_put, Function.update_self, hsol, hcredit, hgodl]

/-- **When two checkpoints agree.**  Two calls in the same state that settle a miner for a round
that is reset and not expired, by anyone, at any time and with any accounts, credit it with the
same SOL and GODL exactly when no reward of the pool is due to it, or both name the accounts of
the pool, or neither does. -/
theorem checkpoints_agree_iff (hround : s.rounds.get (.roundPda r) = some round)
    (hpast : r ≠ s.board.roundId) (hreset : round.slotHash ≠ 0)
    (hdue : DueCheckpoint env clock r a miner s t) (hlive : clock.slot < round.expiresAt)
    (hdue' : DueCheckpoint env clock' r a' miner s t') (hlive' : clock'.slot < round.expiresAt) :
    t.winnings miner.pda = t'.winnings miner.pda ↔
      s.poolReward round miner = 0 ∨ (s.NamesPool a ↔ s.NamesPool a') := by
  obtain ⟨sol, own, _, hown, hcredit⟩ := hdue.winnings hround hpast hreset hlive a
  obtain ⟨sol', own', _, hown', hcredit'⟩ := hdue'.winnings hround hpast hreset hlive' a
  rw [hown] at hown'
  cases hown'
  rw [hcredit, hcredit', Prod.mk.injEq, and_iff_right rfl, Nat.add_left_cancel_iff,
    Nat.add_left_cancel_iff]
  by_cases hnames : s.NamesPool a <;> by_cases hnames' : s.NamesPool a'
  all_goals simp [hnames, hnames', eq_comm]

end Callers

/-- The accounts of a checkpoint of player 7 for round 1, with one for the pool round. -/
def namedAccounts (caller : ℕ) (poolRound : Pubkey) : CheckpointAccounts where
  signerInfo := .signer caller
  boardInfo := .writable .boardPda
  minerInfo := .writable (.minerPda (.key 7))
  roundInfo := .writable (.roundPda 1)
  treasuryInfo := .writable .treasuryPda
  poolRoundInfo := .writable poolRound
  poolMemberInfo := .writable (.poolMemberPda (.key 7))
  systemProgram := .program systemProgramId

/-- Someone checkpoints player 7 with them. -/
def namedCheckpoint (slot caller : ℕ) (poolRound : Pubkey) : Call :=
  .checkpoint slot caller 7 1 poolRound (.poolMemberPda (.key 7))

/-- Player 7 waits for its share of the pool. -/
def State.poolWaits (s : State) : Bool :=
  decide (s.board.roundId = 2) && (s.miners.get (.minerPda (.key 7))).any fun miner =>
    decide (miner.roundId = 1 ∧ miner.checkpointId ≠ 1) &&
      (s.rounds.get (.roundPda 1)).any fun round =>
        round.slotHash ≠ 0 ∧ 1000 < round.expiresAt ∧ s.poolReward round miner = 10 ^ 11

theorem exists_of_poolWaits {s : State} (h : s.poolWaits = true) : ∃ miner round,
    s.board.roundId = 2 ∧ s.miners.get (.minerPda (.key 7)) = some miner ∧ miner.roundId = 1 ∧
      miner.checkpointId ≠ 1 ∧ s.rounds.get (.roundPda 1) = some round ∧ round.slotHash ≠ 0 ∧
        1000 < round.expiresAt ∧ s.poolReward round miner = 10 ^ 11 := by
  simp only [State.poolWaits, Bool.and_eq_true, Option.any_eq_true, decide_eq_true_eq] at h
  obtain ⟨hboard, miner, hminer, ⟨hplayed, hpending⟩, round, hround, hreset, hlive, hreward⟩ := h
  exact ⟨miner, round, hboard, hminer, hplayed, hpending, hround, hreset, hlive, hreward⟩

theorem dueCheckpoint_named {slot caller : ℕ} {poolRound : Pubkey} {miner : Miner} {s t : State}
    (hminer : s.miners.get (.minerPda (.key 7)) = some miner) (hplayed : miner.roundId = 1)
    (hpending : miner.checkpointId ≠ 1)
    (hok : processInstruction .plain (namedCheckpoint slot caller poolRound).clock
      (namedCheckpoint slot caller poolRound).ix (namedCheckpoint slot caller poolRound).accounts
      (namedCheckpoint slot caller poolRound).cpi s = .ok t) :
    DueCheckpoint .plain ⟨slot, 0⟩ 1 (namedAccounts caller poolRound) miner s t where
  call := ⟨true, _, _, _, rfl, rfl, hok⟩
  getMiner := hminer
  roundKey := rfl
  played := hplayed
  pending := hplayed.symm ▸ hpending

/-- A player gets its share from whoever names the accounts of the pool. -/
theorem checkpoints_agree_iff_named : ∃ (h : History) (s t t' : State) (miner : Miner)
    (round : Round), Run (Step .plain anyInstruction) (State.table 1 32775#256) h s ∧
      s.poolReward round miner = 10 ^ 11 ∧ s.winnings miner.pda = (0, 0) ∧
        (t.winnings miner.pda).2 = 10 ^ 11 ∧ t.winnings miner.pda = t'.winnings miner.pda := by
  obtain ⟨h, s, t, t', hrun, hs, ht, ht', hcredit, -⟩ := exists_two_calls .plain anyInstruction
    (State.table 1 32775#256) [pooledBet, namedReset 9] (namedCheckpoint 500 9 (.poolRoundPda 1))
    (namedCheckpoint 900 7 (.poolRoundPda 1))
    (fun s => s.poolWaits && decide (s.winnings (.minerPda (.key 7)) = (0, 0)) &&
      decide (s.NamesPool (namedAccounts 9 (.poolRoundPda 1))) &&
      decide (s.NamesPool (namedAccounts 7 (.poolRoundPda 1))))
    (fun t => (t.winnings (.minerPda (.key 7))).2 = 10 ^ 11) (fun _ => true)
    (fun _ _ => trivial) (by decide +kernel)
  simp only [Bool.and_eq_true, decide_eq_true_eq] at hs hcredit
  obtain ⟨⟨⟨hwaits, hbefore⟩, hnames⟩, hnames'⟩ := hs
  obtain ⟨miner, round, hboard, hminer, hplayed, hpending, hround, hreset, hlive, hreward⟩ :=
    exists_of_poolWaits hwaits
  have hpda : miner.pda = .minerPda (.key 7) := s.miners.key_of_get _ _ hminer
  have hsame := (checkpoints_agree_iff hround (by omega) hreset
    (dueCheckpoint_named hminer hplayed hpending ht) (by dsimp only; omega)
    (dueCheckpoint_named hminer hplayed hpending ht') (by dsimp only; omega)).2
      (.inr (iff_of_true hnames hnames'))
  exact ⟨h, s, t, t', miner, round, hrun, hreward, hpda ▸ hbefore, hpda ▸ hcredit, hsame⟩

/-- **A stranger settles a player without its share of the pool**, naming an unused account for
the pool round. -/
theorem checkpoints_disagree : ¬ ∀ (env : Env) (clock clock' : Clock) (r : ℕ)
    (a a' : CheckpointAccounts) (miner : Miner) (round : Round) (h : History) (s t t' : State),
    Run (Step env anyInstruction) (State.table 1 32775#256) h s →
    s.rounds.get (.roundPda r) = some round → r ≠ s.board.roundId → round.slotHash ≠ 0 →
    DueCheckpoint env clock r a miner s t → clock.slot < round.expiresAt →
    DueCheckpoint env clock' r a' miner s t' → clock'.slot < round.expiresAt →
    t.winnings miner.pda = t'.winnings miner.pda := by
  intro hall
  obtain ⟨h, s, t, t', hrun, hs, ht, ht', hcredit, hcredit'⟩ := exists_two_calls .plain
    anyInstruction (State.table 1 32775#256) [pooledBet, namedReset 9]
    (namedCheckpoint 500 7 (.poolRoundPda 1)) (namedCheckpoint 500 9 (.key 90)) State.poolWaits
    (fun t => (t.winnings (.minerPda (.key 7))).2 = 10 ^ 11)
    (fun t => (t.winnings (.minerPda (.key 7))).2 = 0) (fun _ _ => trivial) (by decide +kernel)
  simp only [decide_eq_true_eq] at hcredit hcredit'
  obtain ⟨miner, round, hboard, hminer, hplayed, hpending, hround, hreset, hlive, -⟩ :=
    exists_of_poolWaits hs
  have hpda : miner.pda = .minerPda (.key 7) := s.miners.key_of_get _ _ hminer
  have hsame := hall _ _ _ _ _ _ miner round h s t t' hrun hround (by omega) hreset
    (dueCheckpoint_named hminer hplayed hpending ht) (by dsimp only; omega)
    (dueCheckpoint_named hminer hplayed hpending ht') (by dsimp only; omega)
  rw [hpda] at hsame
  rw [hsame, hcredit'] at hcredit
  omega

end Godl
