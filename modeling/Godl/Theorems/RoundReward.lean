import Godl.Proof.GodlRewards
import Godl.Theorems.PoolBook
import Godl.Theorems.Wagers

/-!
# The reward of a round

A reset fixes what a round pays in GODL, its reward and its part of the motherlode, and the mode
in which the reward is paid.  Whoever checkpoints then, in whatever order and with whatever
accounts, no more than that is credited.

## Main definitions

* `State.Awaits` — a player has still to be settled for a round.
* `godlCreditedTo` — the GODL that a checkpoint credits for a round.
* `CreditsGodl` — what it may credit to a player, by the mode of the round.
* `CreditedOnce` — it credits each player once at most.
* `Settling` — a round that is over, and those who await it.

## Main results

* `State.sum_godlBound_le` — what players may be credited with adds up to what the round pays.
* `godl_conserved` — so does what is credited, along every run.
-/

namespace Godl

open Lib

/-- A player has deployed in a round and is not settled for it. -/
def State.Awaits (s : State) (r : ℕ) (authority : Pubkey) : Prop :=
  (s.wagers (.minerPda authority)).roundId = r ∧ (s.wagers (.minerPda authority)).checkpointId ≠ r

/-- The GODL that a step credits to the miner at `k` by a checkpoint while it plays round `r`. -/
def godlCreditedTo (k : Pubkey) (r : ℕ) (y : Transition State Label) : ℕ :=
  if (∃ legacy, y.label.kind = some (.checkpoint legacy)) ∧ (y.before.wagers k).roundId = r then
    y.after.miners.view 0 Miner.rewardsGodl k - y.before.miners.view 0 Miner.rewardsGodl k
  else 0

/-- What a checkpoint may credit to a player for a round: nothing, or what a winner gets by the
mode of the round, and its part of the motherlode.  Here `s` is the state that was reset. -/
def CreditsGodl (s : State) (round : Round) (r : BitVec 64) (authority : Pubkey) (n : ℕ) : Prop :=
  n = 0 ∨ (s.wagers (.minerPda authority)).roundId = round.id ∧
    0 < (s.wagers (.minerPda authority)).deployed (Round.winningSquare r) ∧
    ∃ x, round.ModeReward r (s.wagers (.minerPda authority))
        (s.poolDue round authority (Round.winningSquare r)) x ∧
      n = x + proRata round.motherlode
        ((s.wagers (.minerPda authority)).deployed (Round.winningSquare r))
        (round.deployed (Round.winningSquare r))

/-- What is credited to a player for a round in the steps `h` after its reset: a checkpoint
settles whom it credits, does so once, and what is credited then is what it may credit. -/
structure CreditedOnce (s : State) (round : Round) (r : BitVec 64) (authority : Pubkey)
    (h : History) : Prop where
  settles : ∀ y ∈ h, godlCreditedTo (.minerPda authority) round.id y ≠ 0 →
    Settles (.minerPda authority) round.id y
  once : h.Pairwise fun y x => Settles (.minerPda authority) round.id x →
    ¬ Settles (.minerPda authority) round.id y
  credits : CreditsGodl s round r authority
    (total (godlCreditedTo (.minerPda authority) round.id) h)

/-! ## What players may be credited with -/

/-- What a player may be credited with at most, without the casts. -/
def State.godlBound (s : State) (round : Round) (pool : Square → ℕ) (r : BitVec 64)
    (authority : Pubkey) : ℕ :=
  let ws := Round.winningSquare r
  (if round.topMiner = splitAddress then
    round.topMinerReward * s.staked ws (.minerPda authority) / round.deployed ws
  else if round.topMiner = poolAddress then
    round.topMinerReward * s.poolShare round.id ws authority / pool ws
  else if Hits (s.start ws) (s.staked ws) (round.topMinerSample r ws) (.minerPda authority) then
    round.topMinerReward
  else 0) +
  round.motherlode * s.staked ws (.minerPda authority) / round.deployed ws

section Bound

variable {s : State} {round : Round} {pool : Square → ℕ} {r : BitVec 64} {authority : Pubkey}

theorem proRata_le (reward part whole : ℕ) : proRata reward part whole ≤ reward * part / whole :=
  Nat.mod_le _ _

/-- A credit is within its bound. -/
theorem CreditsGodl.le {n : ℕ} (h : CreditsGodl s round r authority n)
    (hid : round.id = s.board.roundId)
    (hpool : s.poolDue round authority (Round.winningSquare r) ≤
      round.topMinerReward * s.poolShare round.id (Round.winningSquare r) authority /
        pool (Round.winningSquare r)) :
    n ≤ s.godlBound round pool r authority := by
  obtain rfl | ⟨hplayed, -, x, hx, rfl⟩ := h
  · exact Nat.zero_le _
  · have hstaked : s.staked (Round.winningSquare r) (.minerPda authority) =
        (s.wagers (.minerPda authority)).deployed (Round.winningSquare r) :=
      if_pos (hplayed.trans hid)
    rw [State.godlBound, ← hstaked]
    refine Nat.add_le_add ?_ (proRata_le _ _ _)
    cases hx with
    | split hsplit =>
      rw [if_pos hsplit, hstaked]
      exact proRata_le _ _ _
    | pool htop =>
      rw [if_neg (by rw [htop]; decide), if_pos htop]
      exact hpool
    | unnamed => exact Nat.zero_le _
    | top hsolo hhit =>
      rw [if_neg hsolo.1, if_neg hsolo.2, if_pos]
      rw [Hits, hstaked]
      exact hhit
    | other => exact Nat.zero_le _

/-- The shares of some players in the pool are no more than it holds. -/
theorem sum_poolShare_le (authorities : Finset Pubkey) (id : ℕ) (ws : Square) :
    ∑ authority ∈ authorities, s.poolShare id ws authority ≤
      s.poolMembers.sum fun p => p.membership.share id ws := by
  have hinj : Set.InjOn Pubkey.poolMemberPda authorities := fun _ _ _ _ h => by injection h
  have hzero : (⟨0, fun _ => 0⟩ : PoolMember.Membership).share id ws = 0 := ite_self 0
  have hkeys : s.poolMembers.keys ⊆
      s.poolMembers.keys ∪ authorities.image Pubkey.poolMemberPda := Finset.subset_union_left
  rw [Store.sum_eq_sum_view (g := fun m => PoolMember.Membership.share m id ws) hzero hkeys]
  calc ∑ authority ∈ authorities, s.poolShare id ws authority
      = ∑ k ∈ authorities.image Pubkey.poolMemberPda, (s.memberships k).share id ws :=
        (Finset.sum_image (f := fun k => (s.memberships k).share id ws) hinj).symm
    _ ≤ _ := Finset.sum_le_sum_of_subset Finset.subset_union_right

/-- **What players may be credited with** adds up to no more than what the round pays. -/
theorem State.sum_godlBound_le
    (htiles : Tiles (s.start (Round.winningSquare r)) (s.staked (Round.winningSquare r))
      (round.deployed (Round.winningSquare r)))
    (hpool : s.poolMembers.sum (fun p => p.membership.share round.id (Round.winningSquare r)) ≤
      pool (Round.winningSquare r)) (authorities : Finset Pubkey) :
    ∑ authority ∈ authorities, s.godlBound round pool r authority ≤
      round.topMinerReward + round.motherlode := by
  have hinj : Set.InjOn Pubkey.minerPda authorities := fun _ _ _ _ h => by injection h
  have hstaked : ∑ authority ∈ authorities,
      s.staked (Round.winningSquare r) (.minerPda authority) ≤
        round.deployed (Round.winningSquare r) :=
    (Finset.sum_image hinj).symm.trans_le (htiles.sum_len_le _)
  simp only [State.godlBound]
  rw [Finset.sum_add_distrib]
  refine Nat.add_le_add ?_ (sum_share_le _ hstaked)
  by_cases hsplit : round.topMiner = splitAddress
  · simp only [if_pos hsplit]
    exact sum_share_le _ hstaked
  · by_cases htop : round.topMiner = poolAddress
    · simp only [if_neg hsplit, if_pos htop]
      exact sum_share_le _ ((sum_poolShare_le authorities _ _).trans hpool)
    · simp only [if_neg hsplit, if_neg htop]
      exact (Finset.sum_image hinj).symm.trans_le (htiles.sum_prize_le _ _ _)

end Bound

/-! ## While the round is settled -/

/-- A round that was over when `s` was reset, at a later state `u`: its outcome and its mode are
fixed, its pool holds what it held, and those who await it have bet what they had. -/
structure Settling (s : State) (round : Round) (u : State) : Prop where
  setup : u.opened .treasury = true
  past : round.id < u.board.roundId
  mode : ∀ round', u.rounds.get (.roundPda round.id) = some round' → round.SameMode round'
  pool : ∀ pool, u.poolRounds.get (.poolRoundPda round.id) = some pool →
    s.poolRounds.get (.poolRoundPda round.id) = some pool
  awaits : ∀ authority, u.Awaits round.id authority →
    u.wagers (.minerPda authority) = s.wagers (.minerPda authority) ∧
      u.memberships (.poolMemberPda authority) = s.memberships (.poolMemberPda authority)

/-- Nobody plays under the addresses that stand for the modes of a round. -/
def State.NoModePlayers (s : State) : Prop :=
  s.miners.All fun m => m.authority ≠ splitAddress ∧ m.authority ≠ poolAddress

section Settle

variable {env : Env} {allowed : GodlInstruction → Prop} {s u u' : State} {l : Label}
  {round : Round} {r : ℕ} {authority : Pubkey}

/-- **Whoever awaits a round that is over has done so before**, with the same bet. -/
theorem GameStep.awaits (hgame : GameStep u u' l) (hpast : r < u.board.roundId)
    (h : u'.Awaits r authority) : u.Awaits r authority ∧
      u'.wagers (.minerPda authority) = u.wagers (.minerPda authority) ∧
      u'.memberships (.poolMemberPda authority) = u.memberships (.poolMemberPda authority) := by
  have hwager : u'.wagers (.minerPda authority) = u.wagers (.minerPda authority) := by
    rcases hgame.wager (.minerPda authority) with ⟨hkept⟩ | ⟨-, -, -, hsettled⟩ | ⟨-, -, hid, -⟩
    · exact hkept
    · obtain ⟨hid, hpending⟩ := h
      rw [hsettled] at hid hpending
      exact absurd hid hpending
    · exact absurd (h.1.symm.trans hid) hpast.ne
  refine ⟨?_, hwager, ?_⟩
  · rwa [State.Awaits, ← hwager]
  · cases hgame with
    | still _ hsame => rw [hsame.memberships]
    | checkpoint _ hcheckpointed => rw [hcheckpointed.pool.2]
    | deploy _ hdeployed =>
      obtain ⟨player, _, _, _, _, wager, _, _, hwagered, -⟩ := hdeployed
      rw [hwagered.memberships, Function.update_of_ne]
      -- Who deploys does so in the current round.
      rintro ⟨⟩
      have hid := h.1
      rw [hwagered.wager_self, hwagered.wagerId] at hid
      exact absurd hid hpast.ne'
    | reset _ hreset => rw [State.memberships, State.memberships, hreset.poolMembers]
    | close _ hclosed => rw [State.memberships, State.memberships, hclosed.poolMembers]

/-- **A round that is over stays as it was reset**, in what a checkpoint reads of it. -/
theorem Settling.step (h : Settling s round u) (hstep : Step env allowed u l u')
    (hplayers : u.NoModePlayers) : Settling s round u' := by
  have hgame := hstep.effect.game h.setup
  refine ⟨hstep.effect.opened h.setup h.setup, h.past.trans_le hgame.roundId_le,
    fun round' hround' => ?_, fun pool hpool => ?_, fun authority hawaits => ?_⟩
  · cases hgame with
    | still _ hsame =>
      rw [hsame.rounds] at hround'
      exact h.mode round' hround'
    | checkpoint _ hcheckpointed =>
      rcases hcheckpointed with ⟨rfl⟩ | ⟨_, -, -, -, rfl⟩ |
        ⟨miner, round₁, round₁', poolMember, _, _, hcredited⟩
      · exact h.mode round' hround'
      · exact h.mode round' hround'
      · rw [hcredited.rounds, Store.get_put] at hround'
        split at hround'
        · next hkey =>
          cases hround'
          have hid : round.id = round₁.id := by
            rw [hcredited.frozen] at hkey
            simpa [Round.pda] using hkey
          refine (h.mode round₁ (hid ▸ hcredited.getRound)).trans ?_
          exact (checkpointRewards_sameMode (hplayers _ _ hcredited.getMiner) hcredited.played
            hcredited.member).elim hcredited.rewards
        · exact h.mode round' hround'
    | deploy _ hdeployed =>
      obtain ⟨_, _, _, _, _, _, _, _, hwagered, -⟩ := hdeployed
      rw [hwagered.getRound_of_ne h.past.ne] at hround'
      exact h.mode round' hround'
    | reset _ hreset =>
      have hpast := h.past
      rw [hreset.roundsAfter, if_neg (by omega), if_neg (by omega)] at hround'
      exact h.mode round' hround'
    | close _ hclosed =>
      rw [hclosed.rounds, Store.get_erase] at hround'
      split at hround'
      · cases hround'
      · exact h.mode round' hround'
  · by_cases hkind : l.kind = some .deploy
    · refine h.pool pool ?_
      cases hgame with
      | deploy _ hdeployed =>
        obtain ⟨_, _, _, _, _, _, _, _, hwagered, -⟩ := hdeployed
        rwa [hwagered.getPool_after, if_neg h.past.ne] at hpool
      | still hno => exact absurd trivial (hno _ hkind)
      | checkpoint hother => simp [hother] at hkind
      | reset hother => simp [hother] at hkind
      | close hother => simp [hother] at hkind
    · exact h.pool pool ((hgame.sameBooks hkind h.past.le).pool pool hpool)
  · obtain ⟨hbefore, hwager, hmember⟩ := hgame.awaits h.past hawaits
    obtain ⟨hwager', hmember'⟩ := h.awaits authority hbefore
    exact ⟨hwager.trans hwager', hmember.trans hmember'⟩

/-- Whoever is settled for a round has awaited it, and no longer does. -/
theorem GameStep.awaits_of_settles (hgame : GameStep u u' l)
    (h : Settles (.minerPda authority) r ⟨u, l, u'⟩) :
    u.Awaits r authority ∧ ¬ u'.Awaits r authority := by
  obtain ⟨⟨legacy, hlegacy⟩, hpending, hdone⟩ := h
  dsimp only at hlegacy hpending hdone
  refine ⟨⟨?_, hpending⟩, fun hawaits => hawaits.2 hdone⟩
  rcases hgame.wager (.minerPda authority) with ⟨hkept⟩ | ⟨-, -, -, hsettled⟩ | ⟨hdeploy, -⟩
  · rw [hkept] at hdone
    exact absurd hdone hpending
  · rwa [hsettled] at hdone
  · rw [hlegacy] at hdeploy
    cases hdeploy

/-- The share of the pool is the same while the pool round is there, and nothing afterwards. -/
theorem Settling.poolDue (h : Settling s round u) (hawaits : u.Awaits round.id authority)
    {round' : Round} (hmode : round.SameMode round') (ws : Square) :
    u.poolDue round' authority ws = 0 ∨
      u.poolDue round' authority ws = s.poolDue round authority ws := by
  have hid : round'.id = round.id := by rw [hmode.frozen]
  have hreward : round'.topMinerReward = round.topMinerReward := by rw [hmode.frozen]
  rw [State.poolDue, hid]
  cases hpool : u.poolRounds.get (.poolRoundPda round.id) with
  | none => exact .inl rfl
  | some pool =>
    refine .inr ?_
    rw [State.poolDue, h.pool pool hpool, State.poolShare, State.poolShare,
      (h.awaits authority hawaits).2, hreward]

/-- A winner may go without a share of the pool. -/
theorem Round.ModeReward.of_zero {hash : BitVec 64} {w : Miner.Wager} {due x : ℕ}
    (h : round.ModeReward hash w 0 x) : round.ModeReward hash w due x := by
  cases h with
  | split hsplit => exact .split hsplit
  | pool htop => exact .unnamed htop
  | unnamed htop => exact .unnamed htop
  | top hsolo hit => exact .top hsolo hit
  | other hsolo miss => exact .other hsolo miss

/-- **A miner is credited by the mode** that its round was reset with. -/
theorem Settling.credited (h : Settling s round u) {clock : Clock} {a : CheckpointAccounts}
    {legacy : Prop} {miner : Miner} {round₁ round' : Round} {poolMember : Option PoolMember}
    {sol godl : ℕ}
    (hcredited : Credited clock a legacy u u' miner round₁ round' poolMember sol godl)
    (hplayed : miner.roundId = round.id) {hash : BitVec 64} (hhash : round.rng = some hash) :
    CreditsGodl s round hash miner.authority godl := by
  have hround₁ : round₁.id = round.id := hcredited.played.trans hplayed
  have hmode : round.SameMode round₁ := h.mode round₁ (hround₁ ▸ hcredited.getRound)
  have hwager : u.wagers (.minerPda miner.authority) = miner.wager :=
    wagers_of_get hcredited.getMiner
  have hawaits : u.Awaits round.id miner.authority := by
    rw [State.Awaits, hwager]
    refine ⟨hplayed, fun hsettled => hcredited.pending ?_⟩
    exact hsettled.trans hplayed.symm
  have hbet : s.wagers (.minerPda miner.authority) = miner.wager :=
    (h.awaits _ hawaits).1.symm.trans hwager
  have hhash₁ : round₁.rng = some hash := by
    rw [hmode.frozen]
    exact hhash
  rcases ((checkpointRewards_mode hhash₁ hcredited.played hcredited.member).elim
    hcredited.rewards).1 with hnothing | ⟨hwon, x, hx, hgodl⟩
  · exact .inl hnothing
  · refine .inr ?_
    rw [hbet]
    refine ⟨hplayed, hwon, x, ?_, ?_⟩
    · have hreward := hmode.modeReward hx
      rcases h.poolDue hawaits hmode (Round.winningSquare hash) with hgone | hdue
      · rw [hgone] at hreward
        exact hreward.of_zero
      · rwa [hdue] at hreward
    · dsimp only at hgodl
      rw [hgodl, motherlodeShare_eq, hmode.frozen]
      rfl

/-- **A checkpoint settles whom it credits**, and credits by the mode of the round. -/
theorem Settling.credits (h : Settling s round u) (hgame : GameStep u u' l) {hash : BitVec 64}
    (hhash : round.rng = some hash) (authority : Pubkey) :
    godlCreditedTo (.minerPda authority) round.id ⟨u, l, u'⟩ = 0 ∨
      Settles (.minerPda authority) round.id ⟨u, l, u'⟩ ∧
        CreditsGodl s round hash authority
          (godlCreditedTo (.minerPda authority) round.id ⟨u, l, u'⟩) := by
  rw [godlCreditedTo]
  split
  · next hplays =>
    obtain ⟨⟨legacy, hlegacy⟩, hplayed⟩ := hplays
    dsimp only at hlegacy hplayed ⊢
    obtain ⟨clock, a, hcheckpointed⟩ := hgame.exists_checkpointed hlegacy
    rcases hcheckpointed with ⟨rfl⟩ | ⟨miner, hget, -, -, rfl⟩ |
      ⟨miner, round₁, round', poolMember, sol, godl, hcredited⟩
    · exact .inl (Nat.sub_self _)
    · refine .inl (Nat.sub_eq_zero_of_le (le_of_eq ?_))
      have hgodl : u.miners.view 0 Miner.rewardsGodl (.minerPda miner.authority) =
          miner.rewardsGodl := Store.view_of_get hget
      rw [forfeit, Store.view_put_of_eq]
      exact hgodl
    · obtain ⟨m, hminers, hauth, -, hgodl⟩ := hcredited.credited
      have hpda : m.pda = .minerPda miner.authority := by rw [Miner.pda, hauth]
      rw [hminers, Store.view_put, hpda]
      by_cases hk : authority = miner.authority
      · subst hk
        have hwager := wagers_of_get hcredited.getMiner
        rw [hwager] at hplayed
        have hdelta : m.rewardsGodl -
            u.miners.view 0 Miner.rewardsGodl (.minerPda miner.authority) = godl := by
          rw [Store.view_of_get hcredited.getMiner, hgodl, Nat.add_sub_cancel_left]
        rw [Function.update_self, hdelta]
        refine .inr ⟨⟨⟨legacy, hlegacy⟩, ?_, ?_⟩, h.credited hcredited hplayed hhash⟩
        · dsimp only
          rw [hwager]
          exact fun hsettled => hcredited.pending (hsettled.trans hplayed.symm)
        · dsimp only
          rw [hcredited.wagers, Function.update_self]
          exact hplayed
      · rw [Function.update_of_ne, Nat.sub_self]
        · exact .inl rfl
        · rintro ⟨⟩
          exact hk rfl
  · exact .inl rfl

end Settle

/-! ## Runs -/

section Runs

variable {env : Env} {allowed : GodlInstruction → Prop} {s s' t : State} {h : History}
  {round : Round} {hash : BitVec 64}

/-- **A player is credited once**, whatever happens after the reset. -/
theorem Settling.creditedOnce (hstart : Settling s round s')
    (hrun : Run (Step env allowed) s' h t) (hplayers : ∀ y ∈ h, y.before.NoModePlayers)
    (hhash : round.rng = some hash) (authority : Pubkey) :
    CreditedOnce s round hash authority h := by
  have hall : Settling s round t ∧ CreditedOnce s round hash authority h ∧
      (t.Awaits round.id authority → ∀ y ∈ h, ¬ Settles (.minerPda authority) round.id y) := by
    revert hplayers
    refine hrun.induct (P := fun h u => (∀ y ∈ h, y.before.NoModePlayers) → Settling s round u ∧
      CreditedOnce s round hash authority h ∧ (u.Awaits round.id authority →
        ∀ y ∈ h, ¬ Settles (.minerPda authority) round.id y)) ?_ ?_
    · exact fun _ => ⟨hstart, ⟨by simp, .nil, .inl rfl⟩, by simp⟩
    · intro h u l u' ih hstep hplayers
      obtain ⟨hlast, hbefore⟩ := List.forall_mem_cons.1 hplayers
      obtain ⟨hsettling, honce, hunsettled⟩ := ih hbefore
      have hgame := hstep.effect.game hsettling.setup
      refine ⟨hsettling.step hstep hlast, ?_⟩
      by_cases hsettles : Settles (.minerPda authority) round.id ⟨u, l, u'⟩
      · obtain ⟨hawaits, hdone⟩ := hgame.awaits_of_settles hsettles
        have hnone := hunsettled hawaits
        -- Nothing was credited before.
        have hzero : total (godlCreditedTo (.minerPda authority) round.id) h = 0 := by
          refine total_eq_zero fun y hy => ?_
          by_contra hsome
          exact hnone y hy (honce.settles y hy hsome)
        refine ⟨⟨List.forall_mem_cons.2 ⟨fun _ => hsettles, honce.settles⟩, ?_, ?_⟩,
          fun hawaits' => absurd hawaits' hdone⟩
        · exact List.pairwise_cons.2 ⟨fun x hx hx' => absurd hx' (hnone x hx), honce.once⟩
        · rw [total_cons, hzero, Nat.add_zero]
          rcases hsettling.credits hgame hhash authority with hnothing | ⟨-, hcredits⟩
          · exact .inl hnothing
          · exact hcredits
      · have hnothing : godlCreditedTo (.minerPda authority) round.id ⟨u, l, u'⟩ = 0 := by
          rcases hsettling.credits hgame hhash authority with hnothing | ⟨hsettles', -⟩
          · exact hnothing
          · exact absurd hsettles' hsettles
        refine ⟨⟨List.forall_mem_cons.2 ⟨fun hsome => absurd hnothing hsome, honce.settles⟩, ?_,
          ?_⟩, fun hawaits => ?_⟩
        · exact List.pairwise_cons.2 ⟨fun _ _ _ => hsettles, honce.once⟩
        · rw [total_cons, hnothing, Nat.zero_add]
          exact honce.credits
        · exact List.forall_mem_cons.2
            ⟨hsettles, hunsettled (hgame.awaits hsettling.past hawaits).1⟩
  exact hall.2.1

/-- A round that was just reset is over. -/
theorem Reset.settling {clock : Clock} {variant : ResetVariant} {a : ResetAccounts}
    {round₀ : Round} {value : Hash} {topMiner : Pubkey}
    (hreset : Reset clock variant a s s' round₀ value topMiner)
    (hsetup : s'.opened .treasury = true)
    (hround : s'.rounds.get (.roundPda s.board.roundId) = some round) : Settling s round s' := by
  have hid := roundId_of_get hround
  refine ⟨hsetup, ?_, fun round' hround' => ?_, fun pool hpool => ?_, fun authority _ => ?_⟩
  · rw [hid, hreset.board]
    exact Nat.lt_succ_self _
  · rw [hid, hround] at hround'
    cases hround'
    exact .refl round
  · rwa [hreset.poolsAfter, hid, if_neg (by omega), ← hid] at hpool
  · rw [State.wagers, State.wagers, State.memberships, State.memberships, hreset.miners,
      hreset.poolMembers]
    exact ⟨rfl, rfl⟩

end Runs

/-- **The reward of a round is never exceeded.**  A run from a fresh round with fresh books leads
to a reset; the round that it resets has an outcome `r`.  Whatever happens then, while nobody
plays under the addresses that stand for the modes, what checkpoints credit to any players for
the round adds up to no more than the reward and the motherlode that the reset fixed.  Each
player is credited once at most, by the mode that the reset fixed, and there is exactly one top
miner. -/
theorem godl_conserved {env : Env} {allowed : GodlInstruction → Prop} {s₀ s s' t : State}
    {h₀ h : History} {l : Label} (hfresh : s₀.FreshRound) (hbooks : s₀.FreshBooks)
    (hbefore : Run (Step env allowed) s₀ h₀ s) (hstep : Step env allowed s l s')
    (hkind : l.kind = some .reset) (hafter : Run (Step env allowed) s' h t)
    (hplayers : ∀ y ∈ h, y.before.NoModePlayers) :
    ∃ round, s'.rounds.get (.roundPda s.board.roundId) = some round ∧
      ∀ r, round.rng = some r →
        (∀ authorities : Finset Pubkey, ∑ authority ∈ authorities,
          total (godlCreditedTo (.minerPda authority) round.id) h ≤
            round.topMinerReward + round.motherlode) ∧
        (∀ authority, CreditedOnce s round r authority h) ∧
        (0 < round.deployed (Round.winningSquare r) →
          ∃! k, k ∈ s.bettors (Round.winningSquare r) ∧
            round.topMinerSample r (Round.winningSquare r) ∈
              s.interval (Round.winningSquare r) k) := by
  have hkept := (hbooks.kept hfresh).run hbefore
  have hgame := hstep.effect.game hkept.tiled.setup
  obtain ⟨round₀, hround₀, htiled⟩ := hkept.tiled.current
  obtain ⟨pool, hpool⟩ := hkept.pool
  obtain ⟨clock, variant, a, round₁, value, topMiner, hreset⟩ := hgame.exists_reset hkind
  obtain ⟨round, hround⟩ : ∃ round, s'.rounds.get (.roundPda s.board.roundId) = some round :=
    ⟨_, by rw [hreset.roundsAfter, if_pos rfl]⟩
  have hid := roundId_of_get hround
  have hsettling := hreset.settling (hstep.effect.opened hkept.tiled.setup hkept.tiled.setup) hround
  have hdeployed : round.deployed = round₀.deployed := by
    obtain ⟨round₂, hround₂, hdeployed, -⟩ :=
      (hgame.sameBooks (by simp [hkind]) le_rfl).round round hround
    rw [hround₀, Option.some.injEq] at hround₂
    rw [hdeployed, hround₂]
  refine ⟨round, hround, fun r hr => ⟨fun authorities => ?_,
    hsettling.creditedOnce hafter hplayers hr, fun hpos => ?_⟩⟩
  · have htiles := htiled.tiles (Round.winningSquare r)
    rw [← hdeployed] at htiles
    have hshares := (hkept.books.sum pool hpool (Round.winningSquare r)).ge
    rw [← hid] at hshares
    refine (Finset.sum_le_sum fun authority _ => ?_).trans
      (State.sum_godlBound_le htiles hshares authorities)
    refine (hsettling.creditedOnce hafter hplayers hr authority).credits.le hid ?_
    rw [State.poolDue, hid, hpool]
    exact proRata_le _ _ _
  · rw [hdeployed] at hpos
    have hsample : round.topMinerSample r (Round.winningSquare r) =
        round₀.topMinerSample r (Round.winningSquare r) := by
      rw [Round.topMinerSample, Round.topMinerSample, hdeployed]
    have hone := (htiled.tiles (Round.winningSquare r)).existsUnique
      (topMinerSample_lt round₀ r hpos)
    simp only [hits_iff] at hone
    rwa [hsample]

theorem noModePlayers_of_none {s : State} (hsplit : s.miners.get (.minerPda splitAddress) = none)
    (hpool : s.miners.get (.minerPda poolAddress) = none) : s.NoModePlayers := by
  intro k m hm
  have hkey : Pubkey.minerPda m.authority = k := s.miners.key_of_get k m hm
  rw [← hkey] at hm
  constructor
  · intro h
    rw [h, hsplit] at hm
    cases hm
  · intro h
    rw [h, hpool] at hm
    cases hm

/-- Players 7 and 8 bet through the pool. -/
def poolBets : List Call :=
  [.deploy 10 7 1 1000 1 true 32775#256, .deploy 11 8 1 500 1 true 32775#256]

/-- The pool wins round 1. -/
def poolReset : Call :=
  .resetPermissionless 400 9 1 (.minerPda (.key 8)) (.poolMemberPda (.key 8))

/-- A member of the pool gets its share. -/
def poolCheckpoint (slot player : ℕ) : Call :=
  .checkpoint slot 9 player 1 (.poolRoundPda 1) (.poolMemberPda (.key player))

/-- The two players share the reward, but for what is rounded off. -/
theorem godl_conserved_pool : ∃ (h₀ h : History) (s s' t : State),
    Run (Step .plain anyInstruction) (State.table 1 32775#256) h₀ s ∧
    Run (Step .plain anyInstruction) s' h t ∧
    t.miners.view 0 Miner.rewardsGodl (.minerPda (.key 7)) = 66666666666 ∧
    t.miners.view 0 Miner.rewardsGodl (.minerPda (.key 8)) = 33333333333 ∧
    ∑ authority ∈ {.key 7, .key 8}, total (godlCreditedTo (.minerPda authority) 1) h ≤
      10 ^ 11 := by
  obtain ⟨h₀, s, s', u, hrun, hs, hreset, hs', hfirst, hu⟩ := exists_calls_after .plain
    anyInstruction (State.table 1 32775#256) poolBets poolReset (poolCheckpoint 500 8)
    (fun s => s.board.roundId = 1)
    (fun s => decide (s.miners.get (.minerPda splitAddress) = none ∧
        s.miners.get (.minerPda poolAddress) = none) &&
      (s.rounds.get (.roundPda 1)).any fun round =>
        round.rng ≠ none ∧ round.topMinerReward + round.motherlode = 10 ^ 11)
    (fun u => decide (u.miners.get (.minerPda splitAddress) = none ∧
        u.miners.get (.minerPda poolAddress) = none) &&
      returns (processInstruction .plain (poolCheckpoint 501 7).clock (poolCheckpoint 501 7).ix
        (poolCheckpoint 501 7).accounts (poolCheckpoint 501 7).cpi u) fun t =>
          t.miners.view 0 Miner.rewardsGodl (.minerPda (.key 7)) = 66666666666 ∧
            t.miners.view 0 Miner.rewardsGodl (.minerPda (.key 8)) = 33333333333)
    (fun _ _ => trivial) (by decide +kernel)
  simp only [Bool.and_eq_true, decide_eq_true_eq, Option.any_eq_true] at hs hs' hu
  obtain ⟨⟨hsplit, hpool⟩, round, hround, hhash, hpays⟩ := hs'
  obtain ⟨⟨hsplit', hpool'⟩, hlast⟩ := hu
  obtain ⟨t, hsecond, ht⟩ := exists_of_returns hlast
  rw [decide_eq_true_eq] at ht
  have hafter : Run (Step .plain anyInstruction) s' [⟨u, (poolCheckpoint 501 7).label, t⟩,
      ⟨s', (poolCheckpoint 500 8).label, u⟩] t :=
    (Run.start.step (.call trivial hfirst)).step (.call trivial hsecond)
  obtain ⟨round', hround', hall⟩ := godl_conserved (freshRound_table 1 _) (freshBooks_table 1 _)
    hrun (.call trivial hreset) rfl hafter (by
      simp only [List.forall_mem_cons]
      exact ⟨noModePlayers_of_none hsplit' hpool', noModePlayers_of_none hsplit hpool, by simp⟩)
  rw [hs, hround, Option.some.injEq] at hround'
  subst hround'
  obtain ⟨r, hr⟩ := Option.ne_none_iff_exists'.1 hhash
  have hsum := (hall r hr).1 {.key 7, .key 8}
  rw [roundId_of_get hround, hpays] at hsum
  exact ⟨h₀, _, s, s', t, hrun, hafter, ht.1, ht.2, hsum⟩

end Godl
