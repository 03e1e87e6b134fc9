import Godl.Proof.Intervals

/-!
# The lottery of a round

Every lamport on the winning square belongs to exactly one miner, so the sample that the
entropy value picks there has exactly one owner.

## Main definitions

* `State.bettors`, `State.interval` — who deployed on a square, and where.
* `State.IsTop` — who passes the check of the permissionless reset.
* `Round.Tiled.existsUnique_isTop` — exactly one miner does.
-/

namespace Godl

open Lib

/-- The miners that deployed on a square in the current round. -/
def State.bettors (s : State) (sq : Square) : Set Pubkey :=
  {k | (s.wagers k).roundId = s.board.roundId ∧ 0 < (s.wagers k).deployed sq}

/-- The interval of a miner on a square. -/
def State.interval (s : State) (sq : Square) (k : Pubkey) : Set ℕ :=
  Set.Ico ((s.wagers k).cumulative sq) ((s.wagers k).cumulative sq + (s.wagers k).deployed sq)

/-- The miner at `k` passes the check of the permissionless reset. -/
def State.IsTop (s : State) (round : Round) (r : BitVec 64) (k : Pubkey) : Prop :=
  ∃ m, s.miners.get k = some m ∧ m.roundId = round.id ∧
    0 < m.deployed (Round.winningSquare r) ∧
    isWinner round m r (Round.winningSquare r) = .ok true

section Lottery

variable {s : State} {round : Round} {sq : Square} {k : Pubkey}

/-- The points of the intervals are those that the tiles contain. -/
theorem hits_iff (s : State) (sq : Square) (k : Pubkey) (x : ℕ) :
    Hits (s.start sq) (s.staked sq) x k ↔ k ∈ s.bettors sq ∧ x ∈ s.interval sq k := by
  simp only [Hits, State.start, State.staked, State.bettors, State.interval, Set.mem_ofPred_eq,
    Set.mem_Ico]
  split <;> omega

/-- The intervals of a tiled round do not meet. -/
theorem Round.Tiled.pairwiseDisjoint (h : round.Tiled s) (sq : Square) :
    (s.bettors sq).PairwiseDisjoint (s.interval sq) := by
  intro j hj k hk hne
  rw [Function.onFun, Set.disjoint_left]
  intro x hxj hxk
  exact hne ((h.tiles sq).disjoint x j k ((hits_iff s sq j x).2 ⟨hj, hxj⟩)
    ((hits_iff s sq k x).2 ⟨hk, hxk⟩))

/-- Together they make up what was deployed. -/
theorem Round.Tiled.iUnion_interval (h : round.Tiled s) (sq : Square) :
    ⋃ k ∈ s.bettors sq, s.interval sq k = Set.Ico 0 (round.deployed sq) := by
  ext x
  simp only [Set.mem_iUnion, exists_prop, Set.mem_Ico, Nat.zero_le, true_and]
  constructor
  · rintro ⟨k, hk, hx⟩
    exact (h.tiles sq).within x k ((hits_iff s sq k x).2 ⟨hk, hx⟩)
  · intro hx
    obtain ⟨k, hk⟩ := (h.tiles sq).covered x hx
    exact ⟨k, (hits_iff s sq k x).1 hk⟩

/-- The check on the winner is that its interval contains the sample; it may also fail on an
interval that ends beyond 64 bits. -/
theorem isWinner_iff (round : Round) (m : Miner) (r : BitVec 64) (ws : Square) :
    isWinner round m r ws = .ok true ↔
      m.cumulative ws + m.deployed ws < u64Bound ∧
        m.cumulative ws ≤ round.topMinerSample r ws ∧
        round.topMinerSample r ws < m.cumulative ws + m.deployed ws := by
  by_cases hfits : m.cumulative ws + m.deployed ws < u64Bound
  · rw [isWinner, addU64, if_pos hfits]
    show Except.ok (decide _) = .ok true ↔ _
    rw [Except.ok.injEq, decide_eq_true_iff]
    exact ⟨fun h => ⟨hfits, h⟩, fun h => h.2⟩
  · rw [isWinner, addU64, if_neg hfits]
    constructor
    · intro h
      cases h
    · rintro ⟨h, -⟩
      exact absurd h hfits

/-- **The miner that passes the check is the one whose interval contains the sample.** -/
theorem Round.Tiled.isTop_iff (h : round.Tiled s) (hid : round.id = s.board.roundId)
    {r : BitVec 64} (value : Hash) :
    s.IsTop { round with slotHash := value } r k ↔
      Hits (s.start (Round.winningSquare r)) (s.staked (Round.winningSquare r))
        (round.topMinerSample r (Round.winningSquare r)) k := by
  set ws := Round.winningSquare r
  rw [hits_iff]
  constructor
  · rintro ⟨m, hget, hround, hpos, hwinner⟩
    obtain ⟨-, hle, hlt⟩ := (isWinner_iff _ m r ws).1 hwinner
    have hwager := wagers_of_get hget
    rw [State.bettors, State.interval, Set.mem_ofPred_eq, hwager]
    exact ⟨⟨hround.trans hid, hpos⟩, hle, hlt⟩
  · rintro ⟨⟨hround, hpos⟩, hx⟩
    have hwithin : ∀ x ∈ s.interval ws k, x < round.deployed ws := fun x hx =>
      (h.tiles ws).within x k ((hits_iff s ws k x).2 ⟨⟨hround, hpos⟩, hx⟩)
    cases hget : s.miners.get k with
    | none =>
      have hnone : s.wagers k = ⟨0, 0, fun _ => 0, fun _ => 0⟩ := Store.view_of_none hget
      rw [hnone] at hpos
      exact absurd hpos (lt_irrefl 0)
    | some m =>
      have hwager := wagers_of_get hget
      rw [hwager] at hround hpos
      rw [State.interval, hwager] at hx hwithin
      refine ⟨m, hget, hround.trans hid.symm, hpos, (isWinner_iff _ m r ws).2 ⟨?_, hx⟩⟩
      -- The end of the interval is within the round, whose total fits.
      have hlast := hwithin (m.cumulative ws + m.deployed ws - 1) (by
        have hpos : 0 < m.deployed ws := hpos
        show m.cumulative ws ≤ _ ∧ _ < m.cumulative ws + m.deployed ws
        omega)
      have hsquare : round.deployed ws ≤ round.totalDeployed := by
        rw [h.total]
        exact Finset.single_le_sum (fun _ _ => Nat.zero_le _) (Finset.mem_univ ws)
      have := h.fits
      omega

/-- A sample lies on its square. -/
theorem topMinerSample_lt (round : Round) (r : BitVec 64) {ws : Square}
    (h : 0 < round.deployed ws) : round.topMinerSample r ws < round.deployed ws := by
  rw [Round.topMinerSample, if_neg h.ne']
  exact Nat.mod_lt _ h

/-- **Exactly one miner passes the check**, whatever the entropy value. -/
theorem Round.Tiled.existsUnique_isTop (h : round.Tiled s) (hid : round.id = s.board.roundId)
    {r : BitVec 64} (value : Hash) (hpos : 0 < round.deployed (Round.winningSquare r)) :
    ∃! k, s.IsTop { round with slotHash := value } r k := by
  obtain ⟨k, hk, hunique⟩ := (h.tiles (Round.winningSquare r)).existsUnique
    (topMinerSample_lt round r hpos)
  exact ⟨k, (h.isTop_iff hid value).2 hk, fun j hj => hunique j ((h.isTop_iff hid value).1 hj)⟩

end Lottery

end Godl
