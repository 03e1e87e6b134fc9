import Godl.Proof.Lottery
import Godl.Script

/-!
# The intervals partition the round

The permissionless reset rests on this: its caller has to name the miner whose interval
contains the sample.

## Main definitions

* `State.FreshRound` — a round that nobody has deployed in.
* `intervals_partition` — the intervals partition the round, and the winner is unique.
-/

namespace Godl

open Lib

/-- The program is set up, nothing is deployed in the current round, and no miner holds a
deployment for it or for a later one. -/
structure State.FreshRound (s : State) : Prop where
  setup : s.opened .treasury = true
  round : ∃ round, s.rounds.get (.roundPda s.board.roundId) = some round ∧
    round.slotHash = 0 ∧ (∀ sq, round.deployed sq = 0) ∧ round.totalDeployed = 0
  unplayed : ∀ k, s.board.roundId ≤ (s.wagers k).roundId → (s.wagers k).deployed = fun _ => 0

/-- A fresh round is tiled. -/
theorem State.FreshRound.tiled {s : State} (h : s.FreshRound) : s.RoundTiled := by
  obtain ⟨round, hround, hwaits, hdeployed, htotal⟩ := h.round
  exact ⟨h.setup, fun k hlt => h.unplayed k hlt.le, round, hround,
    Round.tiled_of_empty hwaits hdeployed htotal fun k hid => h.unplayed k hid.ge⟩

/-- **The intervals of a round partition it, and its lottery has one winner.**  In every
state that a run from a fresh round reaches, the intervals on each square are pairwise
disjoint and make up `[0, deployed)`, the total is the sum over the squares, and for every
entropy value whose winning square is not empty exactly one miner passes the check of the
permissionless reset. -/
theorem intervals_partition {env : Env} {allowed : GodlInstruction → Prop} {s t : State}
    {h : History} (hfresh : s.FreshRound) (hrun : Run (Step env allowed) s h t) :
    ∃ round, t.rounds.get (.roundPda t.board.roundId) = some round ∧
      (∀ sq, (t.bettors sq).PairwiseDisjoint (t.interval sq) ∧
        ⋃ k ∈ t.bettors sq, t.interval sq k = Set.Ico 0 (round.deployed sq)) ∧
      round.totalDeployed = ∑ sq, round.deployed sq ∧
      ∀ (value : Hash) (r : BitVec 64), ({ round with slotHash := value } : Round).rng = some r →
        0 < round.deployed (Round.winningSquare r) →
        ∃! k, t.IsTop { round with slotHash := value } r k := by
  obtain ⟨round, hround, htiled⟩ := (hfresh.tiled.run hrun).current
  have hid := roundId_of_get hround
  exact ⟨round, hround, fun sq => ⟨htiled.pairwiseDisjoint sq, htiled.iUnion_interval sq⟩,
    htiled.total, fun value _ _ hpos => htiled.existsUnique_isTop hid value hpos⟩

/-- A fresh table is a fresh round. -/
theorem freshRound_table (roundId : ℕ) (value : Hash) : (State.table roundId value).FreshRound :=
  ⟨rfl, ⟨_, State.table_round roundId value, rfl, fun _ => rfl, rfl⟩, fun _ _ => rfl⟩

/-- Two players share a square: one of them wins it. -/
theorem intervals_partition_two : ∃ (h : History) (s : State),
    Run (Step .plain anyInstruction) (State.table 1 25#256) h s ∧
    ∃ round, s.rounds.get (.roundPda s.board.roundId) = some round ∧ round.deployed 0 = 1500 ∧
      ⋃ k ∈ s.bettors 0, s.interval 0 k = Set.Ico 0 1500 := by
  obtain ⟨h, s, hrun, -, hdeployed⟩ := exists_run_of_perform .plain anyInstruction
    (State.table 1 25#256) [openingBet, .deploy 11 8 1 500 1 true 25#256]
    (fun s => (s.rounds.get (.roundPda s.board.roundId)).all fun r => r.deployed 0 = 1500)
    (fun _ _ => trivial) (by decide +kernel)
  obtain ⟨round, hround, hpartition, -⟩ := intervals_partition (freshRound_table 1 _) hrun
  have h1500 : round.deployed 0 = 1500 := by
    rw [hround] at hdeployed
    simpa using hdeployed
  exact ⟨h, s, hrun, round, hround, h1500, h1500 ▸ (hpartition 0).2⟩

end Godl
