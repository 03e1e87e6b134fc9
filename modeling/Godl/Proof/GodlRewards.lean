import Godl.Proof.Latch

/-!
# The GODL of a checkpoint

A checkpoint pays a winner by the mode that the reset latched: its part of a reward that is
split, its share of a reward that the pool won, or the whole reward if it is the top miner.
Recording the top miner does not change the mode.

## Main definitions

* `State.NamesPool` — the pool accounts that a checkpoint names are there.
* `State.poolDue` — the share of the pool's reward that is due to a player.
* `Round.ModeReward` — what a winner gets, by the mode.
* `Round.SameMode` — the outcome of the round and its mode are fixed.

## Main results

* `poolShare_eq` — the share is paid when the pool accounts are named.
* `checkpointRewards_mode`, `checkpointRewards_sameMode` — a checkpoint pays by the mode, and
  keeps it.
-/

namespace Godl

open Lib

/-- The pool member and the pool round that a checkpoint names hold data. -/
def State.NamesPool (s : State) (a : CheckpointAccounts) : Prop :=
  s.dataIsEmpty a.poolMemberInfo.key = false ∧ s.dataIsEmpty a.poolRoundInfo.key = false

instance (s : State) (a : CheckpointAccounts) : Decidable (s.NamesPool a) :=
  inferInstanceAs (Decidable (_ ∧ _))

/-- The share of a pool's reward that is due to a player, by what the pool round and the player's
pool member hold on a square. -/
def State.poolDue (s : State) (round : Round) (authority : Pubkey) (ws : Square) : ℕ :=
  match s.poolRounds.get (.poolRoundPda round.id) with
  | some pool =>
      proRata round.topMinerReward (s.poolShare round.id ws authority) (pool.deployed ws)
  | none => 0

/-- The reward of the round is neither split nor the pool's. -/
def Round.Solo (round : Round) : Prop :=
  round.topMiner ≠ splitAddress ∧ round.topMiner ≠ poolAddress

instance (round : Round) : Decidable round.Solo := inferInstanceAs (Decidable (_ ∧ _))

/-- The outcome of a round is fixed, and so is the mode in which its reward is paid. -/
structure Round.SameMode (round round' : Round) : Prop where
  frozen : round.Frozen round'
  mode : round'.topMiner = round.topMiner ∨ round.Solo ∧ round'.Solo

/-- What a winner gets of a round's reward, by the mode of the round.  A share of the pool may be
left out, when the pool accounts are not named. -/
inductive Round.ModeReward (round : Round) (r : BitVec 64) (w : Miner.Wager) (due : ℕ) : ℕ → Prop
  | split (h : round.topMiner = splitAddress) : round.ModeReward r w due
      (proRata round.topMinerReward (w.deployed (winningSquare r))
        (round.deployed (winningSquare r)))
  | pool (h : round.topMiner = poolAddress) : round.ModeReward r w due due
  | unnamed (h : round.topMiner = poolAddress) : round.ModeReward r w due 0
  | top (h : round.Solo) (hit : Hits w.cumulative w.deployed
      (round.topMinerSample r (winningSquare r)) (winningSquare r)) :
      round.ModeReward r w due round.topMinerReward
  | other (h : round.Solo) (miss : ¬ Hits w.cumulative w.deployed
      (round.topMinerSample r (winningSquare r)) (winningSquare r)) : round.ModeReward r w due 0

section Mode

variable {round round' round'' : Round}

theorem Round.SameMode.refl (round : Round) : round.SameMode round := ⟨.refl round, .inl rfl⟩

theorem Round.SameMode.trans (h : round.SameMode round') (h' : round'.SameMode round'') :
    round.SameMode round'' := by
  refine ⟨h.frozen.trans h'.frozen, ?_⟩
  rcases h.mode with hsame | ⟨hsolo, hsolo'⟩
  · rcases h'.mode with hsame' | ⟨hsolo, hsolo'⟩
    · exact .inl (hsame'.trans hsame)
    · rw [Round.Solo, hsame] at hsolo
      exact .inr ⟨hsolo, hsolo'⟩
  · rcases h'.mode with hsame' | ⟨-, hsolo''⟩
    · refine .inr ⟨hsolo, ?_⟩
      rw [Round.Solo, hsame']
      exact hsolo'
    · exact .inr ⟨hsolo, hsolo''⟩

/-- What a winner gets stays the same while the mode does. -/
theorem Round.SameMode.modeReward (h : round.SameMode round') {r : BitVec 64} {w : Miner.Wager}
    {due x : ℕ} (hx : round'.ModeReward r w due x) : round.ModeReward r w due x := by
  obtain ⟨hfrozen, hmode⟩ := h
  have hreward : round'.topMinerReward = round.topMinerReward := by rw [hfrozen]
  have hdeployed : round'.deployed = round.deployed := by rw [hfrozen]
  have hsample : round'.topMinerSample = round.topMinerSample := by
    funext r ws
    rw [Round.topMinerSample, Round.topMinerSample, hdeployed]
  have htop : ∀ k, round'.topMiner = k → ¬ round'.Solo → round.topMiner = k := by
    intro k hk hno
    rcases hmode with hsame | ⟨-, hsolo⟩
    · exact hsame.symm.trans hk
    · exact absurd hsolo hno
  have hsolo : round'.Solo → round.Solo := by
    intro hsolo
    rcases hmode with hsame | ⟨hsolo', -⟩
    · rwa [Round.Solo, hsame] at hsolo
    · exact hsolo'
  cases hx with
  | split hsplit =>
    rw [hreward, hdeployed]
    exact .split (htop _ hsplit fun h => h.1 hsplit)
  | pool hpool => exact .pool (htop _ hpool fun h => h.2 hpool)
  | unnamed hpool => exact .unnamed (htop _ hpool fun h => h.2 hpool)
  | top h hit =>
    rw [hsample] at hit
    rw [hreward]
    exact .top (hsolo h) hit
  | other h miss =>
    rw [hsample] at miss
    exact .other (hsolo h) miss

end Mode

section Rewards

variable {s : State} {a : CheckpointAccounts} {round : Round} {miner : Miner}
  {poolMember : Option PoolMember} {ws : Square} {r : BitVec 64}

theorem proRata_zero (reward whole : ℕ) : proRata reward 0 whole = 0 := by
  rw [proRata, Nat.mul_zero, Nat.zero_div, Nat.zero_mod]

theorem proRata_whole_zero (reward part : ℕ) : proRata reward part 0 = 0 := by
  rw [proRata, Nat.div_zero, Nat.zero_mod]

/-- A pool member is loaded when the account holds data, and is the one of the miner. -/
theorem loadPoolMember_spec (a : CheckpointAccounts) (miner : Miner) (s : State) :
    Ensures (loadPoolMember a miner s) fun o =>
      (s.dataIsEmpty a.poolMemberInfo.key = true ∧ o = none) ∨
      (s.dataIsEmpty a.poolMemberInfo.key = false ∧
        ∃ p, o = some p ∧ s.poolMembers.get (.poolMemberPda miner.authority) = some p) := by
  unfold loadPoolMember
  split
  · next hempty => exact ensures_pure.2 (.inl ⟨hempty, rfl⟩)
  · next hempty =>
    simp only [ensures_bind, ensures_require, ensures_fromOption, ensures_pure]
    intro _ hkey p hp _
    rw [hkey] at hp
    exact .inr ⟨Bool.not_eq_true _ ▸ hempty, p, rfl, hp⟩

/-- **The share of the pool** is paid when the pool accounts are named. -/
theorem poolShare_eq (hplayed : round.id = miner.roundId)
    (hmember : loadPoolMember a miner s = .ok poolMember) :
    Ensures (poolShare a round miner poolMember ws s) fun n =>
      n = if s.NamesPool a then s.poolDue round miner.authority ws else 0 := by
  obtain ⟨hempty, rfl⟩ | ⟨hdata, p, rfl, hp⟩ := (loadPoolMember_spec a miner s).elim hmember
  · refine ensures_pure.2 (if_neg fun h => ?_).symm
    rw [h.1] at hempty
    cases hempty
  · have hshare : s.poolShare round.id ws miner.authority = _ := poolShare_of_get hp
    simp only [poolShare, State.poolDue, hshare, ensures_ite, ensures_bind, ensures_require,
      ensures_fromOption, ensures_pure, State.load]
    refine ⟨fun hshares => ?_, fun hshares => ?_⟩
    · intro _ hkey pool hpool _
      rw [hkey] at hpool
      rw [if_pos ⟨hdata, hshares.2.2⟩, hpool, if_pos (hshares.1.trans hplayed.symm)]
      refine ⟨fun _ => rfl, fun hzero => ?_⟩
      dsimp only
      rw [Nat.eq_zero_of_not_pos hzero, proRata_whole_zero]
    · split
      · next hnames =>
        -- The pool round is there, so the member has nothing on the square.
        have hnothing : (if p.roundId = round.id then p.deployed ws else 0) = 0 := by
          by_contra hsome
          rw [ite_eq_right_iff, not_forall] at hsome
          obtain ⟨hid, hne⟩ := hsome
          exact hshares ⟨hid.trans hplayed, Nat.pos_of_ne_zero hne, hnames.2⟩
        rw [hnothing]
        split
        · exact (proRata_zero _ _).symm
        · rfl
      · rfl

/-- The top miner is the one whose interval contains the sample. -/
theorem isTopMiner_spec (round : Round) (miner : Miner) (r : BitVec 64) (ws : Square) :
    Ensures (isTopMiner round miner r ws) fun b =>
      b = true ↔ Hits miner.cumulative miner.deployed (round.topMinerSample r ws) ws := by
  rw [isTopMiner]
  split
  · next hle =>
    simp only [ensures_bind, ensures_addU64, ensures_pure, decide_eq_true_eq]
    exact fun _ => (and_iff_right hle).symm
  · next hlt => exact ensures_pure.2 ⟨fun h => absurd h (by simp), fun h => absurd h.1 hlt⟩

/-- **A winner is paid by the mode**, and only the top miner is recorded. -/
theorem winnerGodl_mode (hplayed : round.id = miner.roundId)
    (hmember : loadPoolMember a miner s = .ok poolMember) :
    Ensures (winnerGodl a round miner poolMember r (Round.winningSquare r) s) fun p =>
      round.ModeReward r miner.wager
        (s.poolDue round miner.authority (Round.winningSquare r)) p.1 ∧
      (p.2 = round ∨ round.Solo ∧ p.2 = { round with topMiner := miner.authority }) := by
  by_cases hsplit : round.topMiner = splitAddress
  · rw [winnerGodl, if_pos hsplit]
    exact ensures_pure.2 ⟨.split hsplit, .inl rfl⟩
  by_cases hpool : round.topMiner = poolAddress
  · rw [winnerGodl, if_neg hsplit, if_pos hpool]
    refine Ensures.bind (poolShare_eq hplayed hmember) fun n hn => ensures_pure.2 ⟨?_, .inl rfl⟩
    rw [hn]
    split
    · exact .pool hpool
    · exact .unnamed hpool
  · have hsolo : round.Solo := ⟨hsplit, hpool⟩
    rw [winnerGodl, if_neg hsplit, if_neg hpool]
    refine Ensures.bind (isTopMiner_spec round miner r _) fun top htop => ?_
    rw [ensures_ite]
    refine ⟨fun h => ?_, fun h => ?_⟩
    · exact ensures_pure.2 ⟨.top hsolo (htop.1 h), .inr ⟨hsolo, rfl⟩⟩
    · exact ensures_pure.2 ⟨.other hsolo fun hhit => h (htop.2 hhit), .inl rfl⟩

/-- **A checkpoint pays by the mode**, and only records the top miner. -/
theorem checkpointRewards_mode (hr : round.rng = some r) (hplayed : round.id = miner.roundId)
    (hmember : loadPoolMember a miner s = .ok poolMember) :
    Ensures (checkpointRewards a round miner poolMember s) fun p =>
      (p.2.1 = 0 ∨ 0 < miner.deployed (Round.winningSquare r) ∧ ∃ x, round.ModeReward r miner.wager
        (s.poolDue round miner.authority (Round.winningSquare r)) x ∧
        p.2.1 = x + motherlodeShare round miner (Round.winningSquare r)) ∧
      (p.2.2 = round ∨ round.Solo ∧ p.2.2 = { round with topMiner := miner.authority }) := by
  rw [checkpointRewards, hr]
  simp only [ensures_ite, ensures_bind, ensures_require, ensures_pure]
  refine ⟨fun hwon _ => ?_, fun _ => ⟨.inl trivial, .inl trivial⟩⟩
  refine ensures_of_forall fun sol => ?_
  refine Ensures.mono (winnerGodl_mode hplayed hmember) ?_
  rintro ⟨godl, round'⟩ ⟨hgodl, hround'⟩
  rw [ensures_addU64]
  refine fun _ => ⟨.inr ⟨hwon, godl, hgodl, ?_⟩, hround'⟩
  rcases hround' with heq | ⟨-, heq⟩
  · dsimp only at heq ⊢
    rw [heq]
  · dsimp only at heq ⊢
    rw [heq]
    rfl

/-- **The mode of a round survives every checkpoint**, as long as nobody plays under the addresses
that stand for the other modes. -/
theorem checkpointRewards_sameMode (hsolo : miner.authority ≠ splitAddress ∧
    miner.authority ≠ poolAddress) (hplayed : round.id = miner.roundId)
    (hmember : loadPoolMember a miner s = .ok poolMember) :
    Ensures (checkpointRewards a round miner poolMember s) fun p => round.SameMode p.2.2 := by
  cases hr : round.rng with
  | none =>
    rw [checkpointRewards, hr]
    simp only [ensures_bind, ensures_require, ensures_pure]
    exact fun _ => ensures_of_forall fun _ => .refl round
  | some r =>
    refine Ensures.mono (checkpointRewards_mode hr hplayed hmember) ?_
    rintro ⟨_, _, round'⟩ ⟨-, heq | ⟨hmode, heq⟩⟩
    · dsimp only at heq ⊢
      rw [heq]
      exact .refl round
    · dsimp only at heq ⊢
      rw [heq]
      exact ⟨rfl, .inr ⟨hmode, hsolo⟩⟩

/-- The motherlode is split between all winners. -/
theorem motherlodeShare_eq (round : Round) (miner : Miner) (ws : Square) :
    motherlodeShare round miner ws =
      proRata round.motherlode (miner.deployed ws) (round.deployed ws) := by
  rw [motherlodeShare]
  split
  · rfl
  · next hzero =>
    rw [Nat.eq_zero_of_not_pos hzero, proRata, Nat.zero_mul, Nat.zero_div, Nat.zero_mod]

end Rewards

end Godl
