import Godl.Theorems.PoolBook
import Godl.Theorems.ResetCallers

/-!
# The player counts

A round counts the miners on each of its squares, and a pool round the pool members.  A
deployment of nothing is counted as well, and again whenever it is repeated, since a miner
that deployed nothing may deploy once more.  Without such deployments the counts are exact.

## Main definitions

* `State.players`, `State.poolPlayers` — how many miners and pool members are on a square.
* `DeploysNothing` — a deployment of nothing on some square.
* `player_counts_exact` — without it, the counts are exact.
-/

namespace Godl

open Lib

/-- How many miners deployed on a square in a round. -/
def State.players (s : State) (r : ℕ) (sq : Square) : ℕ :=
  s.miners.count fun m => m.roundId = r ∧ 0 < m.deployed sq

/-- How many pool members deployed on a square in a round. -/
def State.poolPlayers (s : State) (r : ℕ) (sq : Square) : ℕ :=
  s.poolMembers.count fun p => p.roundId = r ∧ 0 < p.deployed sq

/-- The counts of the current round and its pool round are exact. -/
structure State.Counted (s : State) : Prop where
  round : ∀ round, s.rounds.get (.roundPda s.board.roundId) = some round → ∀ sq,
    round.count sq = s.players s.board.roundId sq
  pool : ∀ pool, s.poolRounds.get (.poolRoundPda s.board.roundId) = some pool → ∀ sq,
    pool.count sq = s.poolPlayers s.board.roundId sq

/-- A deployment whose amount is zero and which gets to place it on some square. -/
def DeploysNothing (env : Env) (s : State) (l : Label) : Prop :=
  ∃ clock ix accounts cpi args a round squares, l = .call clock ix accounts cpi ∧
    ix.deployArgs = some args ∧ deployAccounts accounts = some a ∧
    s.rounds.get (.roundPda s.board.roundId) = some round ∧
    deploySquares env args round (s.automationOf a) = .ok squares ∧
    args.betAmount (s.automationOf a) = 0 ∧ GetsToPlace (s.automationOf a) squares

/-- One for what is on a square in a round, zero otherwise. -/
def onSquare (r : ℕ) (sq : Square) (b : ℕ × (Square → ℕ)) : ℕ :=
  if b.1 = r ∧ 0 < b.2 sq then 1 else 0

section OnSquare

variable {r : ℕ} {sq : Square} {b : ℕ × (Square → ℕ)}

theorem onSquare_zero (r n : ℕ) (sq : Square) : onSquare r sq (n, fun _ => 0) = 0 := by
  simp [onSquare]

theorem onSquare_of_ne (h : b.1 = r → b.2 = fun _ => 0) : onSquare r sq b = 0 := by
  refine if_neg ?_
  rintro ⟨hid, hpos⟩
  rw [h hid] at hpos
  exact absurd hpos (lt_irrefl 0)

/-- Whoever bets something on each square of a set is on these squares. -/
theorem onSquare_onSquares {placed : Finset Square} {n : ℕ} (h : placed.Nonempty → 0 < n) :
    onSquare r sq (r, onSquares placed n) = onSquares placed 1 sq := by
  by_cases hsq : sq ∈ placed
  · simp [onSquare, onSquares, hsq, h ⟨sq, hsq⟩]
  · simp [onSquare, onSquares, hsq]

end OnSquare

section Counts

variable {env : Env} {allowed : GodlInstruction → Prop} {s s' t : State} {l : Label}
  {h : History} {r : ℕ} {sq : Square}

/-- What a miner bet, as the counts see it. -/
def State.bets (s : State) : Pubkey → ℕ × (Square → ℕ) :=
  s.miners.view (0, fun _ => 0) fun m => (m.roundId, m.deployed)

theorem State.bets_eq (s : State) (k : Pubkey) :
    s.bets k = ((s.wagers k).roundId, (s.wagers k).deployed) := by
  rw [State.bets, State.wagers, Store.view, Store.view]
  cases s.miners.get k <;> rfl

theorem State.players_eq (s : State) (r : ℕ) (sq : Square) :
    s.players r sq = s.miners.sum fun m => onSquare r sq (m.roundId, m.deployed) := by
  rw [State.players, Store.count_eq_sum]
  exact Store.sum_congr fun _ m _ => by simp [onSquare]

theorem State.poolPlayers_eq (s : State) (r : ℕ) (sq : Square) :
    s.poolPlayers r sq = s.poolMembers.sum fun p => onSquare r sq (p.roundId, p.deployed) := by
  rw [State.poolPlayers, Store.count_eq_sum]
  exact Store.sum_congr fun _ p _ => by simp [onSquare]

/-- The counts only see what was bet. -/
theorem State.players_congr (hbets : ∀ k, (s'.wagers k).roundId = (s.wagers k).roundId ∧
    (s'.wagers k).deployed = (s.wagers k).deployed) : s'.players r sq = s.players r sq := by
  have hview : s'.bets = s.bets := by
    funext k
    rw [s'.bets_eq, s.bets_eq, (hbets k).1, (hbets k).2]
  rw [s'.players_eq, s.players_eq]
  exact Store.sum_eq_of_view hview (onSquare_zero r 0 sq)

theorem State.poolPlayers_congr (hmembers : s'.members = s.members) :
    s'.poolPlayers r sq = s.poolPlayers r sq := by
  rw [s'.poolPlayers_eq, s.poolPlayers_eq]
  exact sum_members (g := fun m => onSquare r sq (m.1.roundId, m.1.deployed))
    (onSquare_zero r 0 sq) hmembers

/-- **Nobody is on a square of a round that nobody played.** -/
theorem State.players_zero
    (hfree : ∀ k, (s.wagers k).roundId = r → (s.wagers k).deployed = fun _ => 0) :
    s.players r sq = 0 := by
  have hzero : s.miners.sum (fun m => onSquare r sq (m.roundId, m.deployed)) =
      s.miners.sum fun _ => 0 := by
    refine Store.sum_congr fun k m hm => onSquare_of_ne fun hid => ?_
    have hwager : s.wagers k = m.wager := Store.view_of_get hm
    have hdeployed := hfree k (by rw [hwager]; exact hid)
    rw [hwager] at hdeployed
    exact hdeployed
  rw [s.players_eq, hzero, Store.sum_zero]

theorem State.poolPlayers_zero
    (hfree : ∀ authority, (s.members (.poolMemberPda authority)).1.roundId = r →
      (s.members (.poolMemberPda authority)).1.deployed = fun _ => 0) :
    s.poolPlayers r sq = 0 := by
  have hzero : s.poolMembers.sum (fun p => onSquare r sq (p.roundId, p.deployed)) =
      s.poolMembers.sum fun _ => 0 := by
    refine Store.sum_congr fun k p hp => onSquare_of_ne fun hid => ?_
    have hkey : Pubkey.poolMemberPda p.authority = k := s.poolMembers.key_of_get k p hp
    rw [← hkey] at hp
    have hmember : s.members (.poolMemberPda p.authority) = (p.membership, p.totalDeployed) :=
      Store.view_of_get hp
    have hdeployed := hfree p.authority (by rw [hmember]; exact hid)
    rw [hmember] at hdeployed
    exact hdeployed
  rw [s.poolPlayers_eq, hzero, Store.sum_zero]

/-- **A deployment that is not of nothing is counted once.** -/
theorem State.Counted.deployed (hcounted : s.Counted) (hkept : s.PoolKept) {clock : Clock}
    {authority : Pubkey} {round round' : Round} {pool pool' : PoolRound} {wager : Miner.Wager}
    {member : PoolMember.Membership} {isPooled : Bool} {amount : ℕ} {placed : Finset Square}
    (hw : Wagered clock s s' authority round round' pool pool' wager member isPooled)
    (hbooked : Booked s s' authority isPooled amount placed)
    (hamount : placed.Nonempty → 0 < amount) : s'.Counted := by
  have hpool := hw.getPool
  obtain ⟨_, hround'⟩ := hbooked.round round hw.getRound
  rw [hw.getRound_after, Option.some.injEq] at hround'
  have hpoolAfter := hw.getPool_after s.board.roundId
  rw [if_pos rfl] at hpoolAfter
  have hwager : wager.deployed = onSquares placed amount := by
    rw [← hw.wager_self]
    exact hbooked.wager
  refine ⟨fun q hq sq => ?_, fun p hp sq => ?_⟩
  · rw [hw.roundId, hw.getRound_after, Option.some.injEq] at hq
    subst hq
    have hbets : s'.bets = Function.update s.bets (.minerPda authority)
        (s.board.roundId, onSquares placed amount) := by
      funext k
      rw [s'.bets_eq, hw.wagers]
      by_cases hk : k = .minerPda authority
      · subst hk
        rw [Function.update_self, Function.update_self, hw.wagerId, hwager]
      · rw [Function.update_of_ne hk, Function.update_of_ne hk, s.bets_eq]
    have hsum := Store.sum_view_update (g := onSquare s.board.roundId sq)
      (onSquare_zero _ 0 sq) hbets
    -- Before, the miner was not on any square of the round.
    have hold : onSquare s.board.roundId sq (s.bets (.minerPda authority)) = 0 := by
      refine onSquare_of_ne fun hid => ?_
      rw [s.bets_eq] at hid ⊢
      rcases hw.ready with ⟨hnew, -⟩ | ⟨-, hnothing⟩
      · exact absurd hid hnew
      · exact hnothing
    change _ + onSquare s.board.roundId sq (s.bets (.minerPda authority)) = _ at hsum
    rw [hold, Nat.add_zero, onSquare_onSquares hamount, ← s.players_eq, ← s'.players_eq,
      ← hcounted.round round hw.getRound sq] at hsum
    rw [hw.roundId, hsum, hround']
    rfl
  · rw [hw.roundId, hpoolAfter, Option.some.injEq] at hp
    subst hp
    rw [hw.roundId]
    rcases hkept.booked hpool hw.ready hbooked with ⟨hmembers, hpools, -⟩ |
      ⟨hmembers, hpools, -, -, hfree⟩
    all_goals rw [hpoolAfter, Option.some.injEq] at hpools
    · rw [hpools, State.poolPlayers_congr hmembers]
      exact hcounted.pool pool hpool sq
    · have hsum := Store.sum_view_update
        (g := fun m => onSquare s.board.roundId sq (m.1.roundId, m.1.deployed))
        (onSquare_zero _ 0 sq) hmembers
      have hold : onSquare s.board.roundId sq
          ((s.members (.poolMemberPda authority)).1.roundId,
            (s.members (.poolMemberPda authority)).1.deployed) = 0 := onSquare_of_ne hfree
      change _ + onSquare s.board.roundId sq
        ((s.members (.poolMemberPda authority)).1.roundId,
          (s.members (.poolMemberPda authority)).1.deployed) =
        _ + onSquare s.board.roundId sq (s.board.roundId, onSquares placed amount) at hsum
      rw [hold, Nat.add_zero, onSquare_onSquares hamount] at hsum
      change s'.poolMembers.sum (fun p => onSquare s.board.roundId sq (p.roundId, p.deployed)) =
        s.poolMembers.sum (fun p => onSquare s.board.roundId sq (p.roundId, p.deployed)) +
          onSquares placed 1 sq at hsum
      rw [← s.poolPlayers_eq, ← s'.poolPlayers_eq, ← hcounted.pool pool hpool sq] at hsum
      rw [hsum, hpools]
      rfl

/-- **Every step keeps the counts exact**, but for deployments of nothing. -/
theorem State.Counted.step (hcounted : s.Counted) (hkept : s.PoolKept)
    (hstep : Step env allowed s l s') (hnothing : ¬ DeploysNothing env s l) : s'.Counted := by
  have hgame := hstep.effect.game hkept.tiled.setup
  have hsameBooks : l.kind ≠ some .deploy → SameBooks s s' s.board.roundId :=
    fun hkind => hgame.sameBooks hkind (le_refl _)
  have hstays : SameBooks s s' s.board.roundId → s'.board.roundId = s.board.roundId →
      s'.Counted := by
    intro hsame hboard
    refine ⟨fun q hq sq => ?_, fun p hp sq => ?_⟩
    · rw [hboard] at hq ⊢
      obtain ⟨round, hround, -, hcount⟩ := hsame.round q hq
      rw [hcount, State.players_congr hsame.bets]
      exact hcounted.round round hround sq
    · rw [hboard] at hp ⊢
      rw [State.poolPlayers_congr hsame.members]
      exact hcounted.pool p (hsame.pool p hp) sq
  cases hgame with
  | still hkind hsame =>
    exact hstays (hsameBooks fun hdeploy => hkind _ hdeploy trivial) (by rw [hsame.board])
  | checkpoint hkind hcheckpointed =>
    exact hstays (hsameBooks (by simp [hkind])) (by rw [hcheckpointed.current.1])
  | @deploy clock ix accounts cpi hkind _ =>
    obtain ⟨args, a, hargs, haccounts, round, _, _, _, _, _, placed, squares, hw, hbooked,
      hsquares, hplaces⟩ := hstep.booked hkind
    refine hcounted.deployed hkept hw hbooked fun hne => Nat.pos_of_ne_zero fun hzero => ?_
    exact hnothing ⟨clock, ix, accounts, cpi, args, a, round, squares, rfl, hargs, haccounts,
      hw.getRound, hsquares, hzero, hplaces hne⟩
  | reset _ hreset =>
    have hboard : s'.board.roundId = s.board.roundId + 1 := by rw [hreset.board]
    have hmembers : s'.members = s.members := by
      rw [State.members, State.members, hreset.poolMembers]
    have hwagers : s'.wagers = s.wagers := by rw [State.wagers, State.wagers, hreset.miners]
    refine ⟨fun q hq sq => ?_, fun p hp sq => ?_⟩
    · rw [hboard, hreset.roundsAfter, if_neg (by simp), if_pos rfl, Option.some.injEq] at hq
      rw [hboard, State.players_zero, ← hq]
      · rfl
      · rw [hwagers]
        exact fun k hid => hkept.tiled.unplayed k (hid ▸ Nat.lt_succ_self _)
    · rw [hboard, hreset.poolsAfter, if_pos rfl, Option.some.injEq] at hp
      rw [hboard, State.poolPlayers_zero, ← hp]
      · rfl
      · rw [hmembers]
        exact fun authority hid => (hkept.ahead authority (hid ▸ Nat.lt_succ_self _)).1
  | close hkind hclosed =>
    exact hstays (hsameBooks (by simp [hkind])) (by rw [hclosed.board])

/-- In an empty round nobody is counted, and nobody plays. -/
theorem State.FreshBooks.counted (hbooks : s.FreshBooks) (hfresh : s.FreshRound) : s.Counted := by
  obtain ⟨pool, hpool, -, hcount, -⟩ := hbooks.pool
  refine ⟨fun round hround sq => ?_, fun p hp sq => ?_⟩
  · rw [hbooks.round round hround, State.players_zero]
    exact fun k hid => hfresh.unplayed k hid.ge
  · rw [hpool, Option.some.injEq] at hp
    subst hp
    rw [hcount, State.poolPlayers_zero]
    intro authority hid
    cases hget : s.poolMembers.get (.poolMemberPda authority) with
    | none =>
      have hnone : s.members (.poolMemberPda authority) = (⟨0, fun _ => 0⟩, 0) :=
        Store.view_of_none hget
      rw [hnone]
    | some p =>
      have hsome : s.members (.poolMemberPda authority) = (p.membership, p.totalDeployed) :=
        Store.view_of_get hget
      rw [hsome] at hid ⊢
      exact (hbooks.unplayed authority p hget (le_of_eq hid.symm)).1

end Counts

/-- **The player counts are exact** in every state that a run from a fresh round reaches
without a deployment of nothing. -/
theorem player_counts_exact {env : Env} {allowed : GodlInstruction → Prop} {s t : State}
    {h : History} (hfresh : s.FreshRound) (hbooks : s.FreshBooks)
    (hrun : Run (Step env allowed) s h t)
    (hnothing : ∀ x ∈ h, ¬ DeploysNothing env x.before x.label) :
    ∃ round pool, t.rounds.get (.roundPda t.board.roundId) = some round ∧
      t.poolRounds.get (.poolRoundPda t.board.roundId) = some pool ∧
      ∀ sq, round.count sq = t.players t.board.roundId sq ∧
        pool.count sq = t.poolPlayers t.board.roundId sq := by
  have hboth : (∀ x ∈ h, ¬ DeploysNothing env x.before x.label) → t.PoolKept ∧ t.Counted := by
    refine hrun.induct (P := fun h t =>
      (∀ x ∈ h, ¬ DeploysNothing env x.before x.label) → t.PoolKept ∧ t.Counted)
      (fun _ => ⟨hbooks.kept hfresh, hbooks.counted hfresh⟩) ?_
    intro h t l u ih hstep hnothing
    obtain ⟨hlast, hbefore⟩ := List.forall_mem_cons.1 hnothing
    obtain ⟨hkept, hcounted⟩ := ih hbefore
    exact ⟨hkept.step hstep, hcounted.step hkept hstep hlast⟩
  obtain ⟨hkept, hcounted⟩ := hboth hnothing
  obtain ⟨round, hround, -⟩ := hkept.round
  obtain ⟨pool, hpool⟩ := hkept.pool
  exact ⟨round, pool, hround, hpool, fun sq =>
    ⟨hcounted.round round hround sq, hcounted.pool pool hpool sq⟩⟩

/-- Player 8 bets through the pool. -/
def poolBet : Call := .deploy 11 8 1 500 1 true 25#256

/-- One player bets for itself and another one through the pool, and both are counted. -/
theorem player_counts_exact_two : ∃ (h : History) (t : State) (round : Round) (pool : PoolRound),
    Run (Step .plain anyInstruction) (State.table 1 25#256) h t ∧ h.length = 2 ∧
    t.rounds.get (.roundPda t.board.roundId) = some round ∧
    t.poolRounds.get (.poolRoundPda t.board.roundId) = some pool ∧
    round.count 0 = 2 ∧ t.players t.board.roundId 0 = 2 ∧
    round.count 1 = 1 ∧ t.players t.board.roundId 1 = 1 ∧
    pool.count 0 = 1 ∧ t.poolPlayers t.board.roundId 0 = 1 := by
  obtain ⟨s, hs, hnext⟩ := exists_of_returns
    (x := processInstruction .plain openingBet.clock openingBet.ix openingBet.accounts
      openingBet.cpi (State.table 1 25#256))
    (P := fun s => (s.automations.get (.automationV2Pda (.key 8))).isNone &&
      returns (processInstruction .plain poolBet.clock poolBet.ix poolBet.accounts poolBet.cpi s)
        fun t => ((t.rounds.get (.roundPda t.board.roundId)).all fun r =>
            r.count 0 = 2 ∧ r.count 1 = 1) &&
          (t.poolRounds.get (.poolRoundPda t.board.roundId)).all fun p => p.count 0 = 1)
    (by decide +kernel)
  obtain ⟨hmanual, hsecond⟩ := Bool.and_eq_true_iff.1 hnext
  obtain ⟨t, ht, hcounts⟩ := exists_of_returns hsecond
  have hrun : Run (Step .plain anyInstruction) (State.table 1 25#256)
      [⟨s, poolBet.label, t⟩, ⟨_, openingBet.label, s⟩] t :=
    .step (.step .start (.call trivial hs)) (.call trivial ht)
  obtain ⟨round, pool, hround, hpool, hexact⟩ := player_counts_exact (freshRound_table 1 _)
    (freshBooks_table 1 _) hrun (by
      refine List.forall_mem_cons.2 ⟨?_, List.forall_mem_singleton.2 ?_⟩
      · rintro ⟨_, _, _, _, _, _, _, _, hlabel, hargs, haccounts, -, -, hzero, -⟩
        cases hlabel
        cases hargs
        cases haccounts
        dsimp only [State.automationOf, AccountInfo.writable] at hzero
        rw [Option.isNone_iff_eq_none.1 hmanual] at hzero
        cases hzero
      · rintro ⟨_, _, _, _, _, _, _, _, hlabel, hargs, -, -, -, hzero, -⟩
        cases hlabel
        cases hargs
        cases hzero)
  rw [hround, hpool, Option.all_some, Option.all_some, Bool.and_eq_true, decide_eq_true_eq,
    decide_eq_true_eq] at hcounts
  obtain ⟨⟨hzero, hone⟩, hpooled⟩ := hcounts
  exact ⟨_, t, round, pool, hrun, rfl, hround, hpool, hzero, by rw [← (hexact 0).1, hzero], hone,
    by rw [← (hexact 1).1, hone], hpooled, by rw [← (hexact 0).2, hpooled]⟩

/-- **A deployment of nothing is counted**: nobody is on the square, and its count is one. -/
theorem player_counts_inexact : ¬ ∀ (env : Env) (s t : State) (h : History),
    s.FreshRound → s.FreshBooks → Run (Step env fun ix => ix.kind = .deploy) s h t →
    ∀ round, t.rounds.get (.roundPda t.board.roundId) = some round → ∀ sq,
      round.count sq = t.players t.board.roundId sq := by
  intro hall
  obtain ⟨h, t, hrun, -, ht⟩ := exists_run_of_perform .plain (fun ix => ix.kind = .deploy)
    (State.table 1 25#256) [.deploy 10 7 1 0 1 false 25#256]
    (fun t => (t.rounds.get (.roundPda t.board.roundId)).any fun round =>
      round.count 0 = 1 ∧ t.players t.board.roundId 0 = 0)
    (by simp [Call.deploy, GodlInstruction.kind]) (by decide +kernel)
  obtain ⟨round, hround, hcounts⟩ := (Option.any_eq_true _ _).1 ht
  rw [decide_eq_true_eq] at hcounts
  have hexact := hall _ _ _ _ (freshRound_table 1 _) (freshBooks_table 1 _) hrun round hround 0
  omega

end Godl
