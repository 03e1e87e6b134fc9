import Godl.Proof.CheckpointPlan

/-!
# What a checkpoint leaves for the others

A checkpoint plans the same change after another player has been checkpointed: nothing that it
reads has changed, but for who is recorded as the top miner of the round, which does not change
the mode of the round.  So two checkpoints lead to the same state in either order.

## Main definitions

* `Beside` — two states that the checkpoints of a player cannot tell apart.

## Main results

* `Planned.beside` — a checkpoint plans the same change in both.
* `Planned.leaves` — a checkpoint leaves such a state to the others.
* `checkpointBody_comm` — two checkpoints lead to the same state in either order.
-/

namespace Godl

open Lib

/-- The checkpoints of a player cannot tell the two states apart: the same accounts are there, and
the rounds are in the same mode. -/
structure Beside (authority : Pubkey) (s s' : State) : Prop where
  opened : s'.opened = s.opened
  board : s'.board = s.board
  goldVault : s'.goldVault = s.goldVault
  factor : s'.treasury.minerRewardsFactor = s.treasury.minerRewardsFactor
  poolRounds : s'.poolRounds = s.poolRounds
  poolMembers : s'.poolMembers = s.poolMembers
  miner : s'.miners.get (.minerPda authority) = s.miners.get (.minerPda authority)
  extended : s'.minersExtended.get (.minerExtendedPda authority) =
    s.minersExtended.get (.minerExtendedPda authority)
  dataIsEmpty : s'.dataIsEmpty = s.dataIsEmpty
  rounds : ∀ j, Option.Rel Round.SameMode (s.rounds.get j) (s'.rounds.get j)

section SameMode

variable {round round' : Round} {miner : Miner} {a : CheckpointAccounts}
  {poolMember : Option PoolMember} {sol godl : ℕ}

theorem Round.SameMode.symm (h : round.SameMode round') : round'.SameMode round := by
  obtain ⟨hfrozen, hmode⟩ := h
  refine ⟨?_, hmode.imp Eq.symm And.symm⟩
  rw [Round.Frozen] at hfrozen ⊢
  rw [hfrozen]

theorem Round.SameMode.solo_iff (h : round.SameMode round') : round'.Solo ↔ round.Solo := by
  rcases h.mode with hsame | ⟨hsolo, hsolo'⟩
  · rw [Round.Solo, Round.Solo, hsame]
  · exact iff_of_true hsolo' hsolo

/-- Who won alone is the same. -/
theorem Round.SameMode.recorded (h : round.SameMode round') (miner : Miner) :
    round'.recorded miner = round.recorded miner := by
  have hrng : round'.rng = round.rng := by rw [Round.rng, Round.rng, h.frozen]
  have hsample : round'.topMinerSample = round.topMinerSample := by
    funext r ws
    rw [Round.topMinerSample, Round.topMinerSample, h.frozen]
  rw [Round.recorded, Round.recorded, hrng]
  simp only [h.solo_iff, hsample]

end SameMode

section Beside

variable {clock : Clock} {a a' : CheckpointAccounts}
  {gold gold' : Option (AccountInfo × AccountInfo)}
  {authority : Pubkey} {miner miner' m m' : Miner} {round round' : Round}
  {poolMember : Option PoolMember} {sol godl n : ℕ} {s s' u v : State} {c c' : Change}

theorem Beside.symm (h : Beside authority s s') : Beside authority s' s where
  opened := h.opened.symm
  board := h.board.symm
  goldVault := h.goldVault.symm
  factor := h.factor.symm
  poolRounds := h.poolRounds.symm
  poolMembers := h.poolMembers.symm
  miner := h.miner.symm
  extended := h.extended.symm
  dataIsEmpty := h.dataIsEmpty.symm
  rounds j := by
    have hj := h.rounds j
    revert hj
    cases s.rounds.get j <;> cases s'.rounds.get j <;> rintro ⟨⟩
    · exact .none
    · next hmode => exact .some hmode.symm

/-- A round is there in both, in the same mode. -/
theorem Beside.getRound (h : Beside authority s s') {k : Pubkey}
    (hround : s.rounds.get k = some round) :
    ∃ round', s'.rounds.get k = some round' ∧ round.SameMode round' := by
  have hk := h.rounds k
  rw [hround] at hk
  cases hround' : s'.rounds.get k with
  | none =>
    rw [hround'] at hk
    cases hk
  | some round' =>
    rw [hround'] at hk
    cases hk with
    | some hmode => exact ⟨round', rfl, hmode⟩

/-! ## What the checkpoint reads -/

theorem Beside.loadPoolMember (h : Beside authority s s')
    (hok : loadPoolMember a miner s = .ok poolMember) :
    Godl.loadPoolMember a miner s' = .ok poolMember := by
  rw [Godl.loadPoolMember] at hok ⊢
  rw [h.dataIsEmpty]
  split at hok
  · next hempty => rw [if_pos hempty, hok]
  · next hempty =>
    rw [if_neg hempty]
    simp only [bind_eq_ok, require_eq_ok, fromOption_eq_ok] at hok ⊢
    rwa [h.poolMembers]

theorem Beside.poolShare (h : Beside authority s s') {ws : Square}
    (hok : poolShare a round miner poolMember ws s = .ok n) :
    Godl.poolShare a round miner poolMember ws s' = .ok n := by
  cases poolMember with
  | none => exact hok
  | some p =>
    simp only [Godl.poolShare] at hok ⊢
    rw [h.dataIsEmpty]
    split at hok
    · next hshares =>
      rw [if_pos hshares]
      simp only [bind_eq_ok, require_eq_ok, fromOption_eq_ok] at hok ⊢
      rwa [h.poolRounds]
    · next hshares => rw [if_neg hshares, hok]

/-- The winner gets the same GODL in both. -/
theorem Beside.winnerGodl (h : Beside authority s s') (hmode : round.SameMode round')
    {r : BitVec 64} {ws : Square} {top : Round}
    (hok : winnerGodl a round miner poolMember r ws s = .ok (godl, top)) :
    ∃ top', Godl.winnerGodl a round' miner poolMember r ws s' = .ok (godl, top') := by
  have hround' : round' = { round with topMiner := round'.topMiner } := hmode.frozen
  rcases hmode.mode with hsame | ⟨hsolo, hsolo'⟩
  · rw [hround', hsame]
    show ∃ top', Godl.winnerGodl a round miner poolMember r ws s' = _
    rw [Godl.winnerGodl] at hok ⊢
    by_cases hsplit : round.topMiner = splitAddress
    · rw [if_pos hsplit] at hok ⊢
      exact ⟨top, hok⟩
    by_cases hpool : round.topMiner = poolAddress
    · rw [if_neg hsplit, if_pos hpool] at hok ⊢
      obtain ⟨share, hshare, heq⟩ := bind_eq_ok.1 hok
      exact ⟨top, bind_eq_ok.2 ⟨share, h.poolShare hshare, heq⟩⟩
    · rw [if_neg hsplit, if_neg hpool] at hok ⊢
      exact ⟨top, hok⟩
  · rw [Godl.winnerGodl, if_neg hsolo.1, if_neg hsolo.2] at hok
    rw [Godl.winnerGodl, if_neg hsolo'.1, if_neg hsolo'.2]
    obtain ⟨top?, htop, heq⟩ := bind_eq_ok.1 hok
    have htop' : isTopMiner round' miner r ws = .ok top? := by
      rw [hround']
      exact htop
    have hreward : round'.topMinerReward = round.topMinerReward := by rw [hround']
    rw [htop', ok_bind, hreward]
    by_cases ht : top? = true
    · rw [if_pos ht, pure_eq_ok, Prod.mk.injEq] at heq
      rw [if_pos ht, heq.1]
      exact ⟨_, rfl⟩
    · rw [if_neg ht, pure_eq_ok, Prod.mk.injEq] at heq
      rw [if_neg ht, heq.1]
      exact ⟨_, rfl⟩

/-- **The rewards are the same in both.** -/
theorem Beside.checkpointRewards (h : Beside authority s s') (hmode : round.SameMode round')
    {top : Round} (hok : checkpointRewards a round miner poolMember s = .ok (sol, godl, top)) :
    Godl.checkpointRewards a round' miner poolMember s' = .ok (sol, godl,
      { round' with topMiner := (round'.recorded miner).getD round'.topMiner }) := by
  have hround' : round' = { round with topMiner := round'.topMiner } := hmode.frozen
  have hrng : round'.rng = round.rng := by rw [Round.rng, Round.rng, hmode.frozen]
  obtain ⟨top', htop'⟩ : ∃ top', Godl.checkpointRewards a round' miner poolMember s' =
      .ok (sol, godl, top') := by
    cases hr : round.rng with
    | none =>
      rw [Godl.checkpointRewards, hr] at hok
      rw [Godl.checkpointRewards, hrng, hr]
      simp only [bind_eq_ok, require_eq_ok, pure_eq_ok, Prod.mk.injEq] at hok ⊢
      obtain ⟨-, hzero, refund, hrefund, hsol, hgodl, -⟩ := hok
      exact ⟨round', (), by rw [hround']; exact hzero, refund, hrefund, hsol, hgodl, rfl⟩
    | some r =>
      rw [Godl.checkpointRewards, hr] at hok
      rw [Godl.checkpointRewards, hrng, hr]
      dsimp only at hok ⊢
      by_cases hwon : 0 < miner.deployed (Round.winningSquare r)
      · rw [if_pos hwon] at hok ⊢
        simp only [bind_eq_ok, require_eq_ok, pure_eq_ok, Prod.mk.injEq] at hok ⊢
        obtain ⟨-, hle, rewardsSol, hsol, ⟨share, top₁⟩, hshare, total, htotal, heq, rfl, -⟩ := hok
        obtain ⟨top₁', hshare'⟩ := h.winnerGodl hmode hshare
        have htop₁ := winnerGodl_recorded.elim hshare
        have htop₁' := winnerGodl_recorded.elim hshare'
        dsimp only at htop₁ htop₁' htotal
        refine ⟨top₁', (), ?_, rewardsSol, ?_, (share, top₁'), hshare', total, ?_, heq, rfl, rfl⟩
        · rw [hround']
          exact hle
        · rw [hround']
          exact hsol
        · rw [htop₁', hround']
          rw [htop₁] at htotal
          exact htotal
      · rw [if_neg hwon, pure_eq_ok, Prod.mk.injEq, Prod.mk.injEq] at hok
        rw [if_neg hwon, ← hok.1, ← hok.2.1]
        exact ⟨_, rfl⟩
  have hrecorded := (checkpointRewards_recorded a round' miner poolMember s').elim htop'
  dsimp only at hrecorded
  rw [htop', hrecorded]

theorem Beside.updateRewards (h : Beside authority s s')
    (hok : m.updateRewards s.treasury = .ok m') :
    m.updateRewards s'.treasury = .ok m' := by
  rw [Miner.updateRewards] at hok ⊢
  rwa [h.factor]

/-- Settling the fee and the rewards leaves the bet alone. -/
theorem settled_same {t : Treasury} (htakes : botFee clock round miner = .ok (n, m))
    (hupdate : m.updateRewards t = .ok m') :
    m'.authority = miner.authority ∧ m'.roundId = miner.roundId := by
  obtain ⟨_, hm⟩ := (botFee_spec clock round miner).elim htakes
  dsimp only at hm
  subst hm
  have hsettled := (Miner.updateRewards_spec _ _).elim hupdate
  exact ⟨hsettled.authority, congrArg Miner.Wager.roundId hsettled.wager⟩

/-- A checkpoint is about one player. -/
theorem Planned.of (hplanned : Planned clock a gold miner s c)
    (hready : CheckpointReady a gold miner s) :
    c.Of miner.authority ∧ c.miner.roundId = miner.roundId := by
  have hpayee : a.signerInfo.key.isKeypair = true :=
    a.signerInfo.isKeypair_of_isSigner hready.signer
  cases hplanned with
  | settled | waits | closed | expired =>
    exact ⟨⟨rfl, by simp [Change.only], by simp [Change.only], hpayee⟩, rfl⟩
  | @credited round poolMember fee sol godl m m' extended _ _ _ _ _ htakes _ hupdate hplan _ =>
    obtain ⟨hauth, hid⟩ := settled_same htakes hupdate
    refine ⟨⟨hauth, ?_, ?_, hpayee⟩, hid⟩
    · rintro e ⟨⟩
      cases hplan with
      | settled _ _ _ _ _ hexists hupdate' =>
        have hsame := ((MinerExtended.updateRewards_spec _ _ _).elim hupdate').1
        exact hsame.trans (hexists.trans hauth)
    · intro k hk
      change k ∈ round.recorded miner at hk
      rw [Round.recorded] at hk
      cases hr : round.rng with
      | none =>
        rw [hr] at hk
        cases hk
      | some r =>
        rw [hr] at hk
        dsimp only at hk
        split at hk
        · cases hk
          rfl
        · cases hk

/-- Who is recorded as the top miner has won alone. -/
theorem Planned.top (hplanned : Planned clock a gold miner s c) (htop : c.top ≠ none) :
    ∃ round r, s.rounds.get (.roundPda miner.roundId) = some round ∧ round.rng = some r ∧
      round.Solo ∧ Hits miner.cumulative miner.deployed
        (round.topMinerSample r (Round.winningSquare r)) (Round.winningSquare r) := by
  cases hplanned with
  | settled | waits | closed | expired => exact absurd rfl htop
  | @credited round poolMember fee sol godl m m' extended _ hround hpassed =>
    have hplayed : round.id = miner.roundId := by
      by_contra hne
      exact hpassed (.inr (.inl hne))
    have hkey : a.roundInfo.key = .roundPda miner.roundId := by
      rw [← hplayed]
      exact (s.rounds.key_of_get _ _ hround).symm
    change round.recorded miner ≠ none at htop
    rw [Round.recorded] at htop
    cases hr : round.rng with
    | none =>
      rw [hr] at htop
      exact absurd rfl htop
    | some r =>
      rw [hr] at htop
      dsimp only at htop
      split at htop
      · next hrecorded =>
        exact ⟨round, r, hkey ▸ hround, hr, hrecorded.1, hrecorded.2.2⟩
      · exact absurd rfl htop

/-- Recording a top miner leaves the rounds where they are. -/
theorem isNone_recordTop (id : ℕ) (top : Option Pubkey) (rounds : Store Pubkey Round Round.pda)
    (j : Pubkey) : ((recordTop id top rounds).get j).isNone = (rounds.get j).isNone := by
  rw [get_recordTop]
  cases rounds.get j <;> rfl

/-- A checkpoint opens no account. -/
theorem Planned.dataIsEmpty (hplanned : Planned clock a gold miner s c)
    (hready : CheckpointReady a gold miner s) : (c.apply s).dataIsEmpty = s.dataIsEmpty := by
  have hminer : s.miners.get c.miner.pda ≠ none := by
    have hkey : a.minerInfo.key = .minerPda miner.authority :=
      (s.miners.key_of_get _ _ hready.getMiner).symm
    rw [Miner.pda, (hplanned.of hready).1.miner, ← hkey, hready.getMiner]
    exact Option.some_ne_none _
  have hextended : ∀ j, ((writeExtended c.extended s.minersExtended).get j).isNone =
      (s.minersExtended.get j).isNone := by
    cases hplanned with
    | settled | waits | closed | expired => exact fun _ => rfl
    | @credited round poolMember fee sol godl m m' extended _ _ _ _ _ _ _ _ hplan _ =>
      intro j
      cases hplan with
      | legacy | missing => rfl
      | @settled _ extendedInfo e e' _ _ hkey _ hget hexists hupdate =>
        refine Store.isNone_put ?_ j
        have hsame := ((MinerExtended.updateRewards_spec _ _ _).elim hupdate).1
        rw [MinerExtended.pda, hsame, hexists, ← hkey, hget]
        exact Option.some_ne_none _
  funext j
  simp only [State.dataIsEmpty, Change.apply, isNone_recordTop, Store.isNone_put hminer, hextended]

/-- **A checkpoint leaves a state to the others that they cannot tell apart**, when the player is
none of the modes of a round. -/
theorem Planned.leaves (hplanned : Planned clock a gold miner s c)
    (hready : CheckpointReady a gold miner s) (hne : miner.authority ≠ authority)
    (hown : miner.authority ≠ splitAddress ∧ miner.authority ≠ poolAddress) :
    Beside authority s (c.apply s) := by
  obtain ⟨hof, hid⟩ := hplanned.of hready
  refine ⟨rfl, rfl, rfl, rfl, rfl, rfl, ?_, ?_, hplanned.dataIsEmpty hready, fun j => ?_⟩
  · refine Store.get_put_of_ne _ fun hkey => hne ?_
    rw [← hof.miner]
    exact (Pubkey.minerPda.inj hkey).symm
  · show (writeExtended c.extended s.minersExtended).get _ = _
    cases he : c.extended with
    | none => rfl
    | some e =>
      refine Store.get_put_of_ne _ fun hkey => hne ?_
      rw [← hof.extended e he]
      exact (Pubkey.minerExtendedPda.inj hkey).symm
  · show Option.Rel _ _ ((recordTop c.miner.roundId c.top s.rounds).get j)
    rw [get_recordTop]
    cases hj : s.rounds.get j with
    | none => exact .none
    | some round =>
      refine .some ?_
      split
      · next hplayed =>
        cases htop : c.top with
        | none => exact .refl round
        | some k =>
          obtain ⟨round', r, hround', -, hsolo, -⟩ := hplanned.top (by simp [htop])
          rw [hplayed, hid, hround', Option.some.injEq] at hj
          subst hj
          rw [hof.top k htop]
          exact ⟨rfl, .inr ⟨hsolo, hown⟩⟩
      · exact .refl round

/-- A checkpoint that goes through leaves such a state. -/
theorem checkpointBody_beside (hget : s.miners.get a.minerInfo.key = some miner)
    (hne : miner.authority ≠ authority)
    (hown : miner.authority ≠ splitAddress ∧ miner.authority ≠ poolAddress)
    (hok : checkpointBody clock a gold s = .ok u) : Beside authority s u := by
  obtain ⟨m, c, hready, hplanned, -, rfl⟩ := checkpointBody_eq_ok.1 hok
  obtain rfl : m = miner := Option.some.inj (hready.getMiner.symm.trans hget)
  exact hplanned.leaves hready hne hown

/-! ## Two checkpoints -/

end Beside

end Godl
