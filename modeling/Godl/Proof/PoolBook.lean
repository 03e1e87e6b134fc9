import Godl.Proof.BetBook
import Godl.Proof.Intervals

/-!
# The pool's books

What the pool round of a round holds is what its members hold for that round, and what a
member holds is what its miner bet.  This stays so while the round is played and, for a
round that is over, until one of its members deploys again.

## Main definitions

* `State.PoolBooks` — the books of one round.
* `State.PoolKept` — the books of the current round, and what keeps them.
* `State.PoolKept.step` — they are kept.
* `State.PoolBooks.step` — those of a round that is over are kept too.
-/

namespace Godl

open Lib

/-- The pool round of a round holds what its members hold for it; a member holds, on each
square, nothing or what its miner bet. -/
structure State.PoolBooks (s : State) (r : ℕ) : Prop where
  sum : ∀ pool, s.poolRounds.get (.poolRoundPda r) = some pool → ∀ sq,
    pool.deployed sq = s.poolMembers.sum fun p => p.membership.share r sq
  total : ∀ pool, s.poolRounds.get (.poolRoundPda r) = some pool →
    pool.totalDeployed = ∑ sq, pool.deployed sq
  bets : ∀ authority, (s.members (.poolMemberPda authority)).1.roundId = r → ∀ sq,
    (s.members (.poolMemberPda authority)).1.deployed sq = 0 ∨
      (s.wagers (.minerPda authority)).roundId = r ∧
        (s.members (.poolMemberPda authority)).1.deployed sq =
          (s.wagers (.minerPda authority)).deployed sq
  cap : ∀ authority, (s.members (.poolMemberPda authority)).1.roundId = r →
    (s.members (.poolMemberPda authority)).2 =
        ∑ sq, (s.members (.poolMemberPda authority)).1.deployed sq ∧
      (s.members (.poolMemberPda authority)).2 ≤ lamportsPerSol
  below : ∀ pool round, s.poolRounds.get (.poolRoundPda r) = some pool →
    s.rounds.get (.roundPda r) = some round → ∀ sq, pool.deployed sq ≤ round.deployed sq

/-- The books of the current round, whose intervals tile it; nobody is ahead of it. -/
structure State.PoolKept (s : State) : Prop where
  tiled : s.RoundTiled
  books : s.PoolBooks s.board.roundId
  pool : ∃ pool, s.poolRounds.get (.poolRoundPda s.board.roundId) = some pool
  count : ∀ pool round, s.poolRounds.get (.poolRoundPda s.board.roundId) = some pool →
    s.rounds.get (.roundPda s.board.roundId) = some round → ∀ sq, pool.count sq ≤ round.count sq
  ahead : ∀ authority, s.board.roundId < (s.members (.poolMemberPda authority)).1.roundId →
    (s.members (.poolMemberPda authority)).1.deployed = (fun _ => 0) ∧
      (s.members (.poolMemberPda authority)).2 = 0

/-- A deployment, in another round than `r`, of someone who is a member of round `r`. -/
def LeavesPool (r : ℕ) (s : State) (l : Label) : Prop :=
  ∃ clock ix accounts cpi a, l = .call clock ix accounts cpi ∧ ix.kind = .deploy ∧
    deployAccounts accounts = some a ∧ s.board.roundId ≠ r ∧
    (s.memberships (.poolMemberPda a.authorityInfo.key)).roundId = r

section Books

variable {env : Env} {allowed : GodlInstruction → Prop} {s s' t : State} {l : Label}
  {h : History} {r : ℕ}

/-- Nothing that the books of a round are about changed. -/
structure SameBooks (s s' : State) (r : ℕ) : Prop where
  members : s'.members = s.members
  bets : ∀ k, (s'.wagers k).roundId = (s.wagers k).roundId ∧
    (s'.wagers k).deployed = (s.wagers k).deployed
  pool : ∀ pool, s'.poolRounds.get (.poolRoundPda r) = some pool →
    s.poolRounds.get (.poolRoundPda r) = some pool
  round : ∀ round', s'.rounds.get (.roundPda r) = some round' → ∃ round,
    s.rounds.get (.roundPda r) = some round ∧ round'.deployed = round.deployed ∧
      round'.count = round.count

/-- What a sum over the pool members sees of them. -/
theorem sum_members {g : PoolMember.Membership × ℕ → ℕ} (hz : g (⟨0, fun _ => 0⟩, 0) = 0)
    (hmembers : s'.members = s.members) :
    s'.poolMembers.sum (fun p => g (p.membership, p.totalDeployed)) =
      s.poolMembers.sum (fun p => g (p.membership, p.totalDeployed)) :=
  Store.sum_eq_of_view hmembers hz

theorem share_zero (r : ℕ) (sq : Square) :
    PoolMember.Membership.share ⟨0, fun _ => 0⟩ r sq = 0 := by
  simp [PoolMember.Membership.share]

theorem SameBooks.keeps (hsame : SameBooks s s' r) (h : s.PoolBooks r) : s'.PoolBooks r := by
  refine ⟨fun pool hpool sq => ?_, fun pool hpool => h.total pool (hsame.pool pool hpool), ?_, ?_,
    fun pool round hpool hround sq => ?_⟩
  · rw [h.sum pool (hsame.pool pool hpool) sq]
    exact (sum_members (g := fun m => m.1.share r sq) (share_zero r sq) hsame.members).symm
  · intro authority
    obtain ⟨hid, hdeployed⟩ := hsame.bets (.minerPda authority)
    rw [hsame.members, hid, hdeployed]
    exact h.bets authority
  · rw [hsame.members]
    exact h.cap
  · obtain ⟨round₀, hround₀, hdeployed, -⟩ := hsame.round round hround
    rw [hdeployed]
    exact h.below pool round₀ (hsame.pool pool hpool) hround₀ sq

/-- A verdict does not change what was deployed, or by how many. -/
theorem State.verdict_bets (s : State) (round : Round) (topMiner : Pubkey) :
    (s.verdict round topMiner).round.deployed = round.deployed ∧
      (s.verdict round topMiner).round.count = round.count := by
  unfold State.verdict
  split
  · exact ⟨rfl, rfl⟩
  · split
    · exact ⟨rfl, rfl⟩
    · dsimp only [State.winnersVerdict, payMotherlode]
      split
      · exact ⟨rfl, rfl⟩
      · exact ⟨rfl, rfl⟩

/-- **Only a deployment changes the books of a round.** -/
theorem GameStep.sameBooks (hstep : GameStep s s' l) (hkind : l.kind ≠ some .deploy)
    (hr : r ≤ s.board.roundId) : SameBooks s s' r := by
  cases hstep with
  | still _ hsame =>
    refine ⟨hsame.members, fun k => ?_, fun pool => ?_, fun round => ?_⟩
    · rw [hsame.wagers]
      exact ⟨rfl, rfl⟩
    · rw [hsame.poolRounds]
      exact id
    · rw [hsame.rounds]
      exact fun hround => ⟨round, hround, rfl, rfl⟩
  | checkpoint _ hcheckpointed =>
    have hbets := hcheckpointed.bets
    rcases hcheckpointed with ⟨rfl⟩ | ⟨_, -, -, -, rfl⟩ | ⟨_, round, round', _, _, _, hcredited⟩
    · exact ⟨rfl, fun _ => ⟨rfl, rfl⟩, fun _ => id, fun round hround => ⟨round, hround, rfl, rfl⟩⟩
    · exact ⟨rfl, fun k => ⟨(hbets k).1, (hbets k).2.1⟩, fun _ => id,
        fun round hround => ⟨round, hround, rfl, rfl⟩⟩
    · refine ⟨by rw [State.members, State.members, hcredited.poolMembers],
        fun k => ⟨(hbets k).1, (hbets k).2.1⟩, fun pool => ?_, fun found hfound => ?_⟩
      · rw [hcredited.poolRounds]
        exact id
      · rw [hcredited.rounds, Store.get_put] at hfound
        split at hfound
        · next hkey =>
          cases hfound
          have hid : r = round.id := by
            rw [hcredited.frozen] at hkey
            simpa [Round.pda] using hkey
          refine ⟨round, hid ▸ hcredited.getRound, ?_, ?_⟩
          · rw [hcredited.frozen]
          · rw [hcredited.frozen]
        · exact ⟨found, hfound, rfl, rfl⟩
  | deploy hdeploy _ => exact absurd (congrArg some hdeploy) hkind
  | @reset _ _ _ _ _ _ round value topMiner _ hreset =>
    refine ⟨by rw [State.members, State.members, hreset.poolMembers], fun k => ?_, fun pool => ?_,
      fun found => ?_⟩
    · rw [State.wagers, State.wagers, hreset.miners]
      exact ⟨rfl, rfl⟩
    · rw [hreset.poolsAfter, if_neg (by omega)]
      exact id
    · rw [hreset.roundsAfter]
      by_cases hid : r = s.board.roundId
      · rw [if_pos hid]
        rintro ⟨⟩
        obtain ⟨hdeployed, hcount⟩ := s.verdict_bets { round with slotHash := value } topMiner
        exact ⟨round, hid ▸ hreset.getRound, hdeployed, hcount⟩
      · rw [if_neg hid, if_neg (by omega)]
        exact fun hround => ⟨found, hround, rfl, rfl⟩
  | close _ hclosed =>
    refine ⟨by rw [State.members, State.members, hclosed.poolMembers], fun k => ?_, fun pool => ?_,
      fun round => ?_⟩
    · rw [State.wagers, State.wagers, hclosed.miners]
      exact ⟨rfl, rfl⟩
    · rcases hclosed.poolRounds with hpools | hpools
      · rw [hpools]
        exact id
      · rw [hpools, Store.get_erase]
        split
        · exact fun hnone => by cases hnone
        · exact id
    · rw [hclosed.rounds, Store.get_erase]
      split
      · exact fun hnone => by cases hnone
      · exact fun hround => ⟨round, hround, rfl, rfl⟩

/-! ## Deployments -/

/-- The current round, with a total that is the sum over its squares. -/
theorem State.PoolKept.round (h : s.PoolKept) :
    ∃ round, s.rounds.get (.roundPda s.board.roundId) = some round ∧
      round.id = s.board.roundId ∧ round.totalDeployed = ∑ sq, round.deployed sq := by
  obtain ⟨round, hround, htiled⟩ := h.tiled.current
  exact ⟨round, hround, roundId_of_get hround, htiled.total⟩

/-- **A miner that may bet on the round has a member that holds nothing of it.** -/
theorem State.PoolKept.clean (h : s.PoolKept) {authority : Pubkey} {round : Round}
    {pool : PoolRound} (hround : s.rounds.get (.roundPda s.board.roundId) = some round)
    (hpool : s.poolRounds.get (.poolRoundPda s.board.roundId) = some pool)
    (hready : (s.wagers (.minerPda authority)).Ready s.board.roundId) :
    s.Clean authority round pool := by
  obtain ⟨round₁, hround₁, hid, htotal⟩ := h.round
  rw [hround] at hround₁
  cases hround₁
  have hbelow := h.books.below pool round hpool hround
  refine ⟨hbelow, h.count pool round hpool hround, ?_, fun hmember => ?_⟩
  · rw [h.books.total pool hpool, htotal]
    exact Finset.sum_le_sum fun sq _ => hbelow sq
  · rw [← State.fst_members, hid] at hmember
    -- What the member holds its miner bet, and the miner bet nothing.
    have hzero : (s.members (.poolMemberPda authority)).1.deployed = fun _ => 0 := by
      funext sq
      rcases h.books.bets authority hmember sq with hzero | ⟨hplayed, hbet⟩
      · exact hzero
      · rcases hready with ⟨hnew, -⟩ | ⟨-, hnothing⟩
        · exact absurd hplayed hnew
        · rw [hbet, hnothing]
    have hsum := (h.books.cap authority hmember).1
    rw [hzero, Finset.sum_const_zero] at hsum
    rw [hid, ← hmember, ← hzero, ← hsum]

/-- What a deployment leaves with the members and the pool: through the pool, the bet. -/
theorem State.PoolKept.booked (h : s.PoolKept) {authority : Pubkey} {isPooled : Bool} {amount : ℕ}
    {placed : Finset Square} {pool : PoolRound}
    (hpool : s.poolRounds.get (.poolRoundPda s.board.roundId) = some pool)
    (hready : (s.wagers (.minerPda authority)).Ready s.board.roundId)
    (hbooked : Booked s s' authority isPooled amount placed) :
    (s'.members = s.members ∧
      s'.poolRounds.get (.poolRoundPda s.board.roundId) = some pool ∧
      (isPooled = false ∨ placed = ∅)) ∨
    (s'.members = Function.update s.members (.poolMemberPda authority)
        (⟨s.board.roundId, onSquares placed amount⟩, placed.card * amount) ∧
      s'.poolRounds.get (.poolRoundPda s.board.roundId) = some (pool.withBets placed amount) ∧
      placed.card * amount ≤ lamportsPerSol ∧ isPooled = true ∧
      ((s.members (.poolMemberPda authority)).1.roundId = s.board.roundId →
        (s.members (.poolMemberPda authority)).1.deployed = fun _ => 0)) := by
  obtain ⟨round, hround, hid, -⟩ := h.round
  have hclean := h.clean hround hpool hready
  by_cases hsolo : isPooled = false ∨ placed = ∅
  · obtain ⟨hmembers, hpools⟩ := hbooked.solo hsolo
    exact .inl ⟨hmembers, hpools.trans hpool, hsolo⟩
  · obtain ⟨hpooled, hne⟩ := not_or.1 hsolo
    have hpooled' : isPooled = true := by simpa using hpooled
    obtain ⟨hpools, hmembers, hcap⟩ := hbooked.pooled hpooled'
      (Finset.nonempty_iff_ne_empty.2 hne) round pool hround hpool hclean
    refine .inr ⟨hmembers, hpools, hcap, hpooled', fun hmember => ?_⟩
    rw [hclean.member (by rw [← State.fst_members, hmember, hid])]

section Deploy

variable {clock : Clock} {authority : Pubkey} {round round' : Round} {pool pool' : PoolRound}
  {wager : Miner.Wager} {member : PoolMember.Membership} {isPooled : Bool} {amount : ℕ}
  {placed : Finset Square}

/-- A deployment leaves all other wagers alone. -/
theorem Wagered.wager_of_ne
    (hw : Wagered clock s s' authority round round' pool pool' wager member isPooled)
    {other : Pubkey} (hne : other ≠ authority) :
    s'.wagers (.minerPda other) = s.wagers (.minerPda other) := by
  rw [hw.wagers, Function.update_of_ne]
  simpa using hne

theorem Wagered.wager_self
    (hw : Wagered clock s s' authority round round' pool pool' wager member isPooled) :
    s'.wagers (.minerPda authority) = wager := by
  rw [hw.wagers, Function.update_self]

/-- **A deployment keeps the books of the round it is in.** -/
theorem State.PoolKept.deployed (h : s.PoolKept)
    (hw : Wagered clock s s' authority round round' pool pool' wager member isPooled)
    (hbooked : Booked s s' authority isPooled amount placed) :
    s'.PoolBooks s.board.roundId ∧
      ∀ sq, pool'.count sq ≤ round'.count sq := by
  have hpool := hw.getPool
  have hround := hw.getRound
  obtain ⟨_, hround'⟩ := hbooked.round round hround
  rw [hw.getRound_after, Option.some.injEq] at hround'
  have hbelow := h.books.below pool round hpool hround
  have hcount := h.count pool round hpool hround
  have hwager : wager.deployed = onSquares placed amount := by
    rw [← hw.wager_self]
    exact hbooked.wager
  have hpoolAfter := hw.getPool_after s.board.roundId
  rw [if_pos rfl] at hpoolAfter
  -- What a member of somebody else holds is what it was.
  have hothers : ∀ other, other ≠ authority →
      s'.members (.poolMemberPda other) = s.members (.poolMemberPda other) →
      ((s'.members (.poolMemberPda other)).1.roundId = s.board.roundId → ∀ sq,
        (s'.members (.poolMemberPda other)).1.deployed sq = 0 ∨
        (s'.wagers (.minerPda other)).roundId = s.board.roundId ∧
          (s'.members (.poolMemberPda other)).1.deployed sq =
            (s'.wagers (.minerPda other)).deployed sq) := by
    intro other hne hmember
    rw [hmember, hw.wager_of_ne hne]
    exact h.books.bets other
  rcases h.booked hpool hw.ready hbooked with ⟨hmembers, hpools, -⟩ |
    ⟨hmembers, hpools, hcap, -, hfree⟩
  all_goals rw [hpoolAfter, Option.some.injEq] at hpools
  · subst hpools
    refine ⟨⟨fun p hp sq => ?_, fun p hp => ?_, fun other hmember sq => ?_, ?_,
      fun p q hp hq sq => ?_⟩, fun sq => ?_⟩
    · rw [hpoolAfter, Option.some.injEq] at hp
      subst hp
      rw [h.books.sum pool' hpool sq]
      exact (sum_members (g := fun m => m.1.share s.board.roundId sq) (share_zero _ sq)
        hmembers).symm
    · rw [hpoolAfter, Option.some.injEq] at hp
      subst hp
      exact h.books.total pool' hpool
    · by_cases hne : other = authority
      · subst hne
        -- The member of the miner that bets holds nothing of the round.
        obtain ⟨_, hround₁, hid, -⟩ := h.round
        rw [hround, Option.some.injEq] at hround₁
        subst hround₁
        rw [hmembers] at hmember ⊢
        rw [(h.clean hround hpool hw.ready).member (by rw [← State.fst_members, hmember, hid])]
        exact .inl rfl
      · exact hothers other hne (by rw [hmembers]) hmember sq
    · rw [hmembers]
      exact h.books.cap
    · rw [hpoolAfter, Option.some.injEq] at hp
      rw [hw.getRound_after, Option.some.injEq] at hq
      subst hp hq
      rw [hround']
      exact (hbelow sq).trans (Nat.le_add_right _ _)
    · rw [hround']
      exact (hcount sq).trans (Nat.le_add_right _ _)
  · have hself : s'.members (.poolMemberPda authority) =
        (⟨s.board.roundId, onSquares placed amount⟩, placed.card * amount) := by
      rw [hmembers, Function.update_self]
    have hother : ∀ other, other ≠ authority →
        s'.members (.poolMemberPda other) = s.members (.poolMemberPda other) := by
      intro other hne
      rw [hmembers, Function.update_of_ne]
      simpa using hne
    refine ⟨⟨fun p hp sq => ?_, fun p hp => ?_, fun other hmember sq => ?_,
      fun other hmember => ?_, fun p q hp hq sq => ?_⟩, fun sq => ?_⟩
    · rw [hpoolAfter, Option.some.injEq] at hp
      subst hp
      have hsum := Store.sum_view_update (g := fun m => m.1.share s.board.roundId sq)
        (share_zero _ sq) hmembers
      have hold : (s.members (.poolMemberPda authority)).1.share s.board.roundId sq = 0 := by
        rw [PoolMember.Membership.share]
        split
        · next hid => rw [hfree hid]
        · rfl
      change _ + (s.members (.poolMemberPda authority)).1.share s.board.roundId sq = _ at hsum
      rw [hold, Nat.add_zero] at hsum
      have hbet : PoolMember.Membership.share ⟨s.board.roundId, onSquares placed amount⟩
          s.board.roundId sq = onSquares placed amount sq := if_pos rfl
      rw [hsum, hpools, hbet]
      show pool.deployed sq + _ = _
      rw [h.books.sum pool hpool sq]
    · rw [hpoolAfter, Option.some.injEq] at hp
      subst hp
      rw [hpools, PoolRound.withBets, h.books.total pool hpool]
      dsimp only
      rw [Finset.sum_add_distrib, sum_onSquares]
    · by_cases hne : other = authority
      · subst hne
        rw [hself, hw.wager_self, hwager]
        exact .inr ⟨hw.wagerId, rfl⟩
      · exact hothers other hne (hother other hne) hmember sq
    · by_cases hne : other = authority
      · subst hne
        rw [hself, sum_onSquares]
        exact ⟨rfl, hcap⟩
      · rw [hother other hne] at hmember ⊢
        exact h.books.cap other hmember
    · rw [hpoolAfter, Option.some.injEq] at hp
      rw [hw.getRound_after, Option.some.injEq] at hq
      subst hp hq
      rw [hpools, hround']
      exact Nat.add_le_add_right (hbelow sq) _
    · rw [hpools, hround']
      exact Nat.add_le_add_right (hcount sq) _

/-- **A deployment keeps the books of another round**, unless its miner is a member of it. -/
theorem State.PoolBooks.deployed (h : s.PoolBooks r) (hkept : s.PoolKept)
    (hw : Wagered clock s s' authority round round' pool pool' wager member isPooled)
    (hbooked : Booked s s' authority isPooled amount placed) (hr : s.board.roundId ≠ r)
    (hleft : (s.members (.poolMemberPda authority)).1.roundId ≠ r) : s'.PoolBooks r := by
  have hpools : s'.poolRounds.get (.poolRoundPda r) = s.poolRounds.get (.poolRoundPda r) := by
    rw [hw.getPool_after, if_neg hr.symm]
  have hrounds := hw.getRound_of_ne hr.symm
  -- The member of the miner that bets is no member of the round afterwards.
  obtain ⟨m, hmembers, hm⟩ : ∃ m, s'.members =
      Function.update s.members (.poolMemberPda authority) m ∧ m.1.roundId ≠ r := by
    rcases hkept.booked hw.getPool hw.ready hbooked with ⟨hmembers, -⟩ | ⟨hmembers, -⟩
    · exact ⟨s.members (.poolMemberPda authority), by rw [hmembers, Function.update_eq_self], hleft⟩
    · exact ⟨_, hmembers, hr⟩
  have hself : s'.members (.poolMemberPda authority) = m := by rw [hmembers, Function.update_self]
  have hother : ∀ other, other ≠ authority →
      s'.members (.poolMemberPda other) = s.members (.poolMemberPda other) := by
    intro other hne
    rw [hmembers, Function.update_of_ne]
    simpa using hne
  refine ⟨?_, ?_, fun other hmember => ?_, fun other hmember => ?_, ?_⟩
  · rw [hpools]
    intro p hp sq
    have hsum := Store.sum_view_update (g := fun m => m.1.share r sq) (share_zero r sq) hmembers
    have hold : (s.members (.poolMemberPda authority)).1.share r sq = 0 := if_neg hleft
    have hnew : m.1.share r sq = 0 := if_neg hm
    change _ + (s.members (.poolMemberPda authority)).1.share r sq = _ at hsum
    rw [hold, hnew, Nat.add_zero, Nat.add_zero] at hsum
    rw [hsum]
    exact h.sum p hp sq
  · rw [hpools]
    exact h.total
  · by_cases hne : other = authority
    · subst hne
      rw [hself] at hmember
      exact absurd hmember hm
    · rw [hother other hne] at hmember ⊢
      rw [hw.wager_of_ne hne]
      exact h.bets other hmember
  · by_cases hne : other = authority
    · subst hne
      rw [hself] at hmember
      exact absurd hmember hm
    · rw [hother other hne] at hmember ⊢
      exact h.cap other hmember
  · rw [hpools, hrounds]
    exact h.below

end Deploy

/-! ## Runs -/

/-- **What a deploy step books.** -/
theorem Step.booked {clock : Clock} {ix : GodlInstruction} {accounts : List AccountInfo} {cpi : Cpi}
    (hstep : Step env allowed s (.call clock ix accounts cpi) s') (hkind : ix.kind = .deploy) :
    ∃ args a, ix.deployArgs = some args ∧ deployAccounts accounts = some a ∧
      ∃ round round' pool pool' wager member placed squares,
        Wagered clock s s' a.authorityInfo.key round round' pool pool' wager member
          (args.betPooled (s.automationOf a)) ∧
        Booked s s' a.authorityInfo.key (args.betPooled (s.automationOf a))
          (args.betAmount (s.automationOf a)) placed ∧
        deploySquares env args round (s.automationOf a) = .ok squares ∧
        (placed.Nonempty → GetsToPlace (s.automationOf a) squares) := by
  obtain ⟨args, hargs⟩ := GodlInstruction.exists_deployArgs hkind
  cases hstep with
  | call _ hok =>
    obtain ⟨a, _, haccounts, -, round, round', pool, pool', wager, member, hw, -⟩ :=
      (deployCall_spec env clock hargs accounts cpi s).elim hok
    obtain ⟨a', haccounts', placed, squares, round₁, hbooked, hround₁, hsquares, hplaces⟩ :=
      (deployCall_books env clock hargs accounts cpi s).elim hok
    rw [haccounts, Option.some.injEq] at haccounts'
    subst haccounts'
    rw [hw.getRound, Option.some.injEq] at hround₁
    subst hround₁
    exact ⟨args, a, hargs, haccounts, round, round', pool, pool', wager, member, placed, squares,
      hw, hbooked, hsquares, hplaces⟩

/-- **The books of the current round are kept by every step.** -/
theorem State.PoolKept.step (h : s.PoolKept) (hstep : Step env allowed s l s') : s'.PoolKept := by
  have htiled := h.tiled.step hstep.effect
  have hgame := hstep.effect.game h.tiled.setup
  obtain ⟨pool, hpool⟩ := h.pool
  -- A step that is no deployment and stays in the round.
  have hstays : SameBooks s s' s.board.roundId → s'.board.roundId = s.board.roundId →
      s'.poolRounds.get (.poolRoundPda s.board.roundId) =
        s.poolRounds.get (.poolRoundPda s.board.roundId) → s'.PoolKept := by
    intro hsame hboard hpools
    refine ⟨htiled, ?_, ⟨pool, ?_⟩, ?_, ?_⟩
    · rw [hboard]
      exact hsame.keeps h.books
    · rw [hboard, hpools, hpool]
    · rw [hboard]
      intro p q hp hq
      obtain ⟨round, hround, -, hcount⟩ := hsame.round q hq
      rw [hcount]
      exact h.count p round (hsame.pool p hp) hround
    · rw [hboard, hsame.members]
      exact h.ahead
  have hsameBooks : l.kind ≠ some .deploy → SameBooks s s' s.board.roundId :=
    fun hkind => hgame.sameBooks hkind (le_refl _)
  cases hgame with
  | still hkind hsame =>
    refine hstays (hsameBooks fun hdeploy => hkind _ hdeploy trivial) (by rw [hsame.board]) ?_
    rw [hsame.poolRounds]
  | checkpoint hkind hcheckpointed =>
    refine hstays (hsameBooks (by simp [hkind])) (by rw [hcheckpointed.current.1]) ?_
    rw [hcheckpointed.pool.1]
  | deploy hkind _ =>
    obtain ⟨args, a, -, -, round, round', _, pool', wager, member, placed, _, hw, hbooked, -⟩ :=
      hstep.booked hkind
    obtain ⟨hbooks, hcount⟩ := h.deployed hw hbooked
    have hboard := hw.roundId
    have hpoolAfter := hw.getPool_after s.board.roundId
    rw [if_pos rfl] at hpoolAfter
    refine ⟨htiled, ?_, ⟨pool', ?_⟩, ?_, ?_⟩
    · rw [hboard]
      exact hbooks
    · rw [hboard, hpoolAfter]
    · rw [hboard]
      intro p q hp hq
      rw [hpoolAfter, Option.some.injEq] at hp
      rw [hw.getRound_after, Option.some.injEq] at hq
      subst hp hq
      exact hcount
    · rw [hboard]
      intro other hlt
      rcases h.booked hw.getPool hw.ready hbooked with ⟨hmembers, -⟩ | ⟨hmembers, -⟩
      · rw [hmembers] at hlt ⊢
        exact h.ahead other hlt
      · rw [hmembers] at hlt ⊢
        by_cases hne : other = a.authorityInfo.key
        · subst hne
          rw [Function.update_self] at hlt
          exact absurd hlt (lt_irrefl _)
        · rw [Function.update_of_ne (by simpa using hne)] at hlt ⊢
          exact h.ahead other hlt
  | reset _ hreset =>
    have hboard : s'.board.roundId = s.board.roundId + 1 := by rw [hreset.board]
    have hmembers : s'.members = s.members := by
      rw [State.members, State.members, hreset.poolMembers]
    have hpoolAfter := hreset.poolsAfter (s.board.roundId + 1)
    rw [if_pos rfl] at hpoolAfter
    -- Whoever is a member of the next round holds nothing.
    have hnext : ∀ authority,
        (s.members (.poolMemberPda authority)).1.roundId = s.board.roundId + 1 →
        (s.members (.poolMemberPda authority)).1.deployed = (fun _ => 0) ∧
          (s.members (.poolMemberPda authority)).2 = 0 :=
      fun authority hid => h.ahead authority (hid ▸ Nat.lt_succ_self _)
    refine ⟨htiled, ?_, ⟨_, by rw [hboard, hpoolAfter]⟩, ?_, ?_⟩
    · rw [hboard]
      refine ⟨fun p hp sq => ?_, fun p hp => ?_, ?_, ?_, fun p q hp _ sq => ?_⟩
      · rw [hpoolAfter, Option.some.injEq] at hp
        subst hp
        have hzero : s'.poolMembers.sum (fun p => p.membership.share (s.board.roundId + 1) sq) =
            s'.poolMembers.sum fun _ => 0 := by
          refine Store.sum_congr fun k p hp => ?_
          show (if p.membership.roundId = s.board.roundId + 1 then p.membership.deployed sq
            else 0) = 0
          split
          · next hid =>
            have hkey : p.pda = k := s'.poolMembers.key_of_get k p hp
            have hget : s.members (.poolMemberPda p.authority) =
                (p.membership, p.totalDeployed) := by
              rw [← hmembers, State.members]
              refine Store.view_of_get ?_
              rw [← hp, ← hkey]
              rfl
            have hfree := (hnext p.authority (by rw [hget]; exact hid)).1
            rw [hget] at hfree
            exact congrFun hfree sq
          · rfl
        rw [hzero, Store.sum_zero]
        rfl
      · rw [hpoolAfter, Option.some.injEq] at hp
        subst hp
        simp [PoolRound.fresh]
      · rw [hmembers]
        intro authority hid sq
        rw [(hnext authority hid).1]
        exact .inl rfl
      · rw [hmembers]
        intro authority hid
        obtain ⟨hdeployed, htotal⟩ := hnext authority hid
        rw [hdeployed, htotal]
        simp
      · rw [hpoolAfter, Option.some.injEq] at hp
        subst hp
        exact Nat.zero_le _
    · rw [hboard]
      intro p q hp _ sq
      rw [hpoolAfter, Option.some.injEq] at hp
      subst hp
      exact Nat.zero_le _
    · rw [hboard, hmembers]
      exact fun authority hlt => h.ahead authority (lt_trans (Nat.lt_succ_self _) hlt)
  | close hkind hclosed =>
    refine hstays (hsameBooks (by simp [hkind])) (by rw [hclosed.board]) ?_
    rcases hclosed.poolRounds with hpools | hpools
    · rw [hpools]
    · have hpast := hclosed.past
      rw [hpools, Store.get_erase, if_neg]
      simp only [Pubkey.poolRoundPda.injEq]
      omega

theorem State.PoolKept.run (hkept : s.PoolKept) (hrun : Run (Step env allowed) s h t) :
    t.PoolKept :=
  hrun.invariant hkept fun _ _ _ ht hstep => ht.step hstep

/-- **The books of a round that is over, or is played, are kept by every step** that is no
deployment of a member that left it. -/
theorem State.PoolBooks.step (h : s.PoolBooks r) (hkept : s.PoolKept) (hr : r ≤ s.board.roundId)
    (hstep : Step env allowed s l s') (hleaves : ¬ LeavesPool r s l) : s'.PoolBooks r := by
  have hgame := hstep.effect.game hkept.tiled.setup
  by_cases hkind : l.kind = some .deploy
  · cases l with
    | world => cases hkind
    | call clock ix accounts cpi =>
      rw [Label.kind_call, Option.some.injEq] at hkind
      obtain ⟨args, a, -, haccounts, _, _, _, _, _, _, _, _, hw, hbooked, -⟩ := hstep.booked hkind
      by_cases hid : s.board.roundId = r
      · rw [← hid]
        exact (hkept.deployed hw hbooked).1
      · refine h.deployed hkept hw hbooked hid fun hmember => hleaves ?_
        rw [State.fst_members] at hmember
        exact ⟨clock, ix, accounts, cpi, a, rfl, hkind, haccounts, hid, hmember⟩
  · exact (hgame.sameBooks hkind hr).keeps h

end Books

end Godl
