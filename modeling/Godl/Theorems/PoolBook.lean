import Godl.Proof.PoolBook
import Godl.Theorems.Intervals

/-!
# The pool's aggregates are exact

## Main definitions

* `State.FreshBooks` — a round whose books are empty.
* `State.PoolExact` — the aggregates of a round are exact.
* `pool_aggregates_exact` — they are, for the current round, and stay so for a round that
  is over.
-/

namespace Godl

open Lib

/-- The current round has a pool round, nothing is booked in either, and no pool member holds
anything for it or for a later one. -/
structure State.FreshBooks (s : State) : Prop where
  round : ∀ round, s.rounds.get (.roundPda s.board.roundId) = some round →
    round.count = fun _ => 0
  pool : ∃ pool, s.poolRounds.get (.poolRoundPda s.board.roundId) = some pool ∧
    pool.deployed = (fun _ => 0) ∧ pool.count = (fun _ => 0) ∧ pool.totalDeployed = 0
  unplayed : ∀ authority p, s.poolMembers.get (.poolMemberPda authority) = some p →
    s.board.roundId ≤ p.roundId → p.deployed = (fun _ => 0) ∧ p.totalDeployed = 0

/-- The aggregates of a round are exact: the pool round sums up its members, a member holds
what its miner bet and no more than one SOL, and the shares of a pooled reward fit into it. -/
structure State.PoolExact (s : State) (r : ℕ) : Prop where
  deployed : ∀ pool, s.poolRounds.get (.poolRoundPda r) = some pool → ∀ sq,
    pool.deployed sq = s.poolMembers.sum fun p => if p.roundId = r then p.deployed sq else 0
  total : ∀ pool, s.poolRounds.get (.poolRoundPda r) = some pool →
    pool.totalDeployed = ∑ sq, pool.deployed sq
  member : ∀ authority p, s.poolMembers.get (.poolMemberPda authority) = some p → p.roundId = r →
    ∀ sq, p.deployed sq = 0 ∨ ∃ m, s.miners.get (.minerPda authority) = some m ∧
      m.roundId = r ∧ p.deployed sq = m.deployed sq
  cap : ∀ authority p, s.poolMembers.get (.poolMemberPda authority) = some p → p.roundId = r →
    p.totalDeployed = ∑ sq, p.deployed sq ∧ p.totalDeployed ≤ lamportsPerSol
  below : ∀ pool round, s.poolRounds.get (.poolRoundPda r) = some pool →
    s.rounds.get (.roundPda r) = some round → ∀ sq, pool.deployed sq ≤ round.deployed sq
  shares : ∀ pool round, s.poolRounds.get (.poolRoundPda r) = some pool →
    s.rounds.get (.roundPda r) = some round → ∀ ws, (s.poolMembers.sum fun p =>
      if p.roundId = r then proRata round.topMinerReward (p.deployed ws) (pool.deployed ws)
      else 0) ≤ round.topMinerReward

section Exact

variable {env : Env} {allowed : GodlInstruction → Prop} {s t : State} {h : History} {r : ℕ}

/-- Empty books are kept. -/
theorem State.FreshBooks.kept (hbooks : s.FreshBooks) (hfresh : s.FreshRound) : s.PoolKept := by
  obtain ⟨pool, hpool, hdeployed, hcount, htotal⟩ := hbooks.pool
  -- Whoever is a member of this round, or a later one, holds nothing.
  have hfree : ∀ authority, s.board.roundId ≤ (s.members (.poolMemberPda authority)).1.roundId →
      (s.members (.poolMemberPda authority)).1.deployed = (fun _ => 0) ∧
        (s.members (.poolMemberPda authority)).2 = 0 := by
    intro authority
    cases hget : s.poolMembers.get (.poolMemberPda authority) with
    | none =>
      have hnone : s.members (.poolMemberPda authority) = (⟨0, fun _ => 0⟩, 0) :=
        Store.view_of_none hget
      rw [hnone]
      exact fun _ => ⟨rfl, rfl⟩
    | some p =>
      have hsome : s.members (.poolMemberPda authority) = (p.membership, p.totalDeployed) :=
        Store.view_of_get hget
      rw [hsome]
      exact hbooks.unplayed authority p hget
  refine ⟨hfresh.tiled, ⟨fun p hp sq => ?_, fun p hp => ?_, ?_, ?_, fun p q hp _ sq => ?_⟩,
    ⟨pool, hpool⟩, fun p q hp _ sq => ?_, fun authority hlt => hfree authority hlt.le⟩
  · rw [hpool, Option.some.injEq] at hp
    subst hp
    have hzero : s.poolMembers.sum (fun p => p.membership.share s.board.roundId sq) =
        s.poolMembers.sum fun _ => 0 := by
      refine Store.sum_congr fun k p hp => ?_
      show (if p.roundId = s.board.roundId then p.deployed sq else 0) = 0
      split
      · next hid =>
        have hkey : Pubkey.poolMemberPda p.authority = k := s.poolMembers.key_of_get k p hp
        rw [← hkey] at hp
        rw [(hbooks.unplayed p.authority p hp hid.ge).1]
      · rfl
    rw [hzero, Store.sum_zero, hdeployed]
  · rw [hpool, Option.some.injEq] at hp
    subst hp
    rw [htotal, hdeployed, Finset.sum_const_zero]
  · intro authority hid sq
    rw [(hfree authority hid.ge).1]
    exact .inl rfl
  · intro authority hid
    obtain ⟨hnothing, hnone⟩ := hfree authority hid.ge
    rw [hnothing, hnone, Finset.sum_const_zero]
    exact ⟨rfl, Nat.zero_le _⟩
  · rw [hpool, Option.some.injEq] at hp
    subst hp
    rw [hdeployed]
    exact Nat.zero_le _
  · rw [hpool, Option.some.injEq] at hp
    subst hp
    rw [hcount]
    exact Nat.zero_le _

/-- **What the books say about the accounts.** -/
theorem State.PoolBooks.exact (hbooks : s.PoolBooks r) : s.PoolExact r := by
  have hmember : ∀ authority p, s.poolMembers.get (.poolMemberPda authority) = some p →
      s.members (.poolMemberPda authority) = (p.membership, p.totalDeployed) :=
    fun _ _ hget => Store.view_of_get hget
  refine ⟨hbooks.sum, hbooks.total, fun authority p hget hid sq => ?_,
    fun authority p hget hid => ?_, hbooks.below, fun pool round hpool hround ws => ?_⟩
  · have hbet := hbooks.bets authority
    rw [hmember authority p hget] at hbet
    rcases hbet hid sq with hzero | ⟨hplayed, hbet⟩
    · exact .inl hzero
    · cases hminer : s.miners.get (.minerPda authority) with
      | none =>
        -- Without a miner there is no bet.
        have hnone : s.wagers (.minerPda authority) = ⟨0, 0, fun _ => 0, fun _ => 0⟩ :=
          Store.view_of_none hminer
        rw [hnone] at hbet
        exact .inl hbet
      | some m =>
        rw [wagers_of_get hminer] at hplayed hbet
        exact .inr ⟨m, rfl, hplayed, hbet⟩
  · have hcap := hbooks.cap authority
    rw [hmember authority p hget] at hcap
    exact hcap hid
  · have hsum := hbooks.sum pool hpool ws
    calc s.poolMembers.sum (fun p => if p.roundId = r then
          proRata round.topMinerReward (p.deployed ws) (pool.deployed ws) else 0)
        ≤ s.poolMembers.sum fun p =>
          round.topMinerReward * p.membership.share r ws / pool.deployed ws := by
          refine Store.sum_le_sum fun _ p _ => ?_
          show _ ≤ round.topMinerReward * (if p.roundId = r then p.deployed ws else 0) / _
          by_cases hid : p.roundId = r
          · rw [if_pos hid, if_pos hid]
            exact Nat.mod_le _ _
          · rw [if_neg hid]
            exact Nat.zero_le _
      _ ≤ round.topMinerReward := Store.sum_mul_div_le _ hsum.ge

end Exact

/-- **The pool's aggregates are exact.**  In every state that a run from a fresh round
reaches, those of the current round are; and they stay so, also once that round is over, in
every run in which no member of the round deploys in another one. -/
theorem pool_aggregates_exact {env : Env} {allowed : GodlInstruction → Prop} {s t : State}
    {h : History} (hfresh : s.FreshRound) (hbooks : s.FreshBooks)
    (hrun : Run (Step env allowed) s h t) :
    (∃ pool, t.poolRounds.get (.poolRoundPda t.board.roundId) = some pool) ∧
      t.PoolExact t.board.roundId ∧
      ∀ h' t', Run (Step env allowed) t h' t' →
        (∀ x ∈ h', ¬ LeavesPool t.board.roundId x.before x.label) →
        t'.PoolExact t.board.roundId := by
  have hkept := (hbooks.kept hfresh).run hrun
  refine ⟨hkept.pool, hkept.books.exact, fun h' t' hrun' hleaves => ?_⟩
  -- Along the second run the round stays kept, whether it is current or over.
  have hboth : (∀ x ∈ h', ¬ LeavesPool t.board.roundId x.before x.label) →
      t'.PoolKept ∧ t.board.roundId ≤ t'.board.roundId ∧ t'.PoolBooks t.board.roundId := by
    refine hrun'.induct (P := fun h' t' =>
      (∀ x ∈ h', ¬ LeavesPool t.board.roundId x.before x.label) →
      t'.PoolKept ∧ t.board.roundId ≤ t'.board.roundId ∧ t'.PoolBooks t.board.roundId)
      (fun _ => ⟨hkept, le_refl _, hkept.books⟩) ?_
    intro h' u l u' ih hstep hleaves
    obtain ⟨hlast, hbefore⟩ := List.forall_mem_cons.1 hleaves
    obtain ⟨hkept', hle, hbooks'⟩ := ih hbefore
    exact ⟨hkept'.step hstep, hle.trans (hstep.effect.game hkept'.tiled.setup).roundId_le,
      hbooks'.step hkept' hle hstep hlast⟩
  exact (hboth hleaves).2.2.exact

theorem freshBooks_table (roundId : ℕ) (value : Hash) :
    (State.table roundId value).FreshBooks := by
  refine ⟨fun round hround => ?_,
    ⟨PoolRound.fresh roundId (.key 3), Store.get_put_self .., rfl, rfl, rfl⟩,
    fun authority p hp => ?_⟩
  · rw [show (State.table roundId value).board.roundId = roundId from rfl,
      State.table_round, Option.some.injEq] at hround
    rw [← hround]
    rfl
  · cases hp

/-- Player 8 bets 500 through the pool, and the round is reset: the books of round 1 are
still exact. -/
theorem pool_aggregates_exact_reset : ∃ (h h' : History) (t t' : State),
    Run (Step .plain anyInstruction) (State.table 1 25#256) h t ∧
    Run (Step .plain anyInstruction) t h' t' ∧ t'.board.roundId = 2 ∧ t'.PoolExact 1 ∧
    (t'.poolRounds.get (.poolRoundPda 1)).any (fun pool => pool.deployed 0 = 500) = true := by
  obtain ⟨h, t, t', h', u, hrun, hlabels, -, hfirst, hlast⟩ := exists_step_of_perform .plain
    anyInstruction (State.table 1 25#256) [openingBet] (.deploy 11 8 1 500 1 true 25#256)
    [.reset 400 1 (.minerPda (.key 8)) (.poolMemberPda (.key 8)),
      .checkpoint 500 9 8 1 (.poolRoundPda 1) (.poolMemberPda (.key 8))]
    (fun _ => true) (fun t => t.board.roundId = 1)
    (fun u => u.board.roundId = 2 &&
      (u.poolRounds.get (.poolRoundPda 1)).any fun pool => pool.deployed 0 = 500)
    (fun _ _ => trivial) (by decide +kernel) (by decide +kernel) (by decide +kernel)
  obtain ⟨hbefore, hstep, hafter⟩ := hrun.split
  obtain ⟨-, -, hexact⟩ := pool_aggregates_exact (freshRound_table 1 _) (freshBooks_table 1 _)
    (hbefore.step hstep)
  rw [Bool.and_eq_true, decide_eq_true_eq] at hlast
  rw [decide_eq_true_eq] at hfirst
  dsimp only at hexact
  rw [hfirst] at hexact
  refine ⟨_, h', t', u, hbefore.step hstep, hafter, hlast.1, hexact h' u hafter ?_, hlast.2⟩
  rintro x hx ⟨_, _, _, _, _, hlabel, hkind, -⟩
  have hmem : x.label ∈ h'.map (·.label) := List.mem_map_of_mem hx
  rw [hlabels, hlabel] at hmem
  simp [Call.label, Call.reset, Call.checkpoint, Call.plain] at hmem
  rcases hmem with ⟨-, rfl, -⟩ | ⟨-, rfl, -⟩ <;> cases hkind

end Godl
