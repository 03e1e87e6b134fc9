import Godl.Proof.GameSteps
import Godl.Proof.Lottery

/-!
# The latch

A reset that does not split its reward has to find out whether the pool won it.  The
permissionless variant insists on the winner and derives the answer from its pool member;
the crank bot's variant believes in the pool only when the right accounts are supplied.

## Main definitions

* `resetAccounts`, `resetCall_eq` — the account list of a reset.
* `State.poolShare` — what a miner deployed through the pool in a round.
* `ResetAccounts.Vouch` — the accounts prove that the pool won.
* `Reset.latch_strict`, `Reset.latch_lenient` — what the two variants latch.
-/

namespace Godl

open Lib

/-- The account list of a reset. -/
def resetAccounts : List AccountInfo → Option ResetAccounts
  | signer :: board :: config :: feeCollector :: mint :: round :: roundNext :: poolRoundNext ::
      topMiner :: topMinerPoolMember :: solMotherlode :: rushSolVault :: treasury ::
      treasuryTokens :: systemProgram :: tokenProgram :: godlProgram :: slotHashes :: var ::
      entropyProgram :: mintAccounts =>
      some ⟨signer, board, config, feeCollector, mint, round, roundNext, poolRoundNext, topMiner,
        topMinerPoolMember, solMotherlode, rushSolVault, treasury, treasuryTokens, systemProgram,
        tokenProgram, godlProgram, slotHashes, var, entropyProgram, mintAccounts⟩
  | _ => none

/-- The instruction of a variant. -/
def ResetVariant.instruction : ResetVariant → GodlInstruction
  | .lenient => .reset
  | .permissionless => .resetPermissionless

/-- Both reset instructions run the body on their accounts. -/
theorem resetCall_eq (env : Env) (clock : Clock) (variant : ResetVariant)
    (accounts : List AccountInfo) (cpi : Cpi) (s : State) :
    processInstruction env clock variant.instruction accounts cpi s =
      (resetAccounts accounts).elim (.error (.panic .outOfBounds)) fun a =>
        resetBody clock env variant a s := by
  have hlist : processInstruction env clock variant.instruction accounts cpi s =
      processResetList (resetBody clock env variant) accounts s := by
    cases variant <;> rfl
  rw [hlist]
  unfold processResetList
  split
  · rfl
  · next hshort =>
    unfold resetAccounts
    split
    · exact (hshort _ _ _ _ _ _ _ _ _ _ _ _ _ _ _ _ _ _ _ _ _ rfl).elim
    · rfl

/-- **What a reset call does.** -/
theorem resetCall_spec (env : Env) (clock : Clock) (variant : ResetVariant)
    (accounts : List AccountInfo) (cpi : Cpi) (s : State) :
    Ensures (processInstruction env clock variant.instruction accounts cpi s) fun s' =>
      ∃ a round value topMiner, resetAccounts accounts = some a ∧
        Reset clock variant a s s' round value topMiner := by
  rw [resetCall_eq]
  cases haccounts : resetAccounts accounts with
  | none => exact ensures_error.2 trivial
  | some a =>
    refine Ensures.mono (resetBody_spec clock env variant a s) ?_
    rintro s' ⟨round, value, topMiner, hreset⟩
    exact ⟨a, round, value, topMiner, rfl, hreset⟩

/-- What the miner of an authority deployed on a square through the pool. -/
def State.poolShare (s : State) (roundId : ℕ) (sq : Square) (authority : Pubkey) : ℕ :=
  (s.memberships (.poolMemberPda authority)).share roundId sq

/-- The accounts prove that the pool won: a miner whose interval contains the sample, and
its pool member with a deployment on the winning square of this round. -/
def ResetAccounts.Vouch (a : ResetAccounts) (s : State) (round : Round) (r : BitVec 64)
    (ws : Square) : Prop :=
  ∃ m p, s.miners.get a.topMinerInfo.key = some m ∧
    s.poolMembers.get a.topMinerPoolMemberInfo.key = some p ∧
    m.roundId = round.id ∧ p.authority = m.authority ∧ p.roundId = round.id ∧
    0 < m.deployed ws ∧ 0 < p.deployed ws ∧ isWinner round m r ws = .ok true

section Data

variable {s : State} {k : Pubkey}

/-- An address with a pool member is not empty. -/
theorem dataIsEmpty_of_poolMember {p : PoolMember} (h : s.poolMembers.get k = some p) :
    s.dataIsEmpty k = false := by
  simp [State.dataIsEmpty, h]

/-- An address with a miner is not empty. -/
theorem dataIsEmpty_of_miner {m : Miner} (h : s.miners.get k = some m) :
    s.dataIsEmpty k = false := by
  simp [State.dataIsEmpty, h]

theorem memberships_of_get {p : PoolMember} (h : s.poolMembers.get k = some p) :
    s.memberships k = p.membership := Store.view_of_get h

theorem memberships_of_none (h : s.poolMembers.get k = none) :
    s.memberships k = ⟨0, fun _ => 0⟩ := Store.view_of_none h

/-- A member's share, where there is a member. -/
theorem poolShare_of_get {p : PoolMember} {authority : Pubkey} {roundId : ℕ} {sq : Square}
    (h : s.poolMembers.get (.poolMemberPda authority) = some p) :
    s.poolShare roundId sq authority = if p.roundId = roundId then p.deployed sq else 0 := by
  rw [State.poolShare, memberships_of_get h]
  rfl

theorem poolShare_of_none {authority : Pubkey} {roundId : ℕ} {sq : Square}
    (h : s.poolMembers.get (.poolMemberPda authority) = none) :
    s.poolShare roundId sq authority = 0 := by
  rw [State.poolShare, memberships_of_none h]
  exact ite_self 0

end Data

section Latch

variable {a : ResetAccounts} {round : Round} {r : BitVec 64} {ws : Square} {s : State}

/-- The strict latch insists on the winner, and its pool share decides. -/
theorem latchStrict_spec (a : ResetAccounts) (round : Round) (r : BitVec 64) (ws : Square)
    (s : State) :
    Ensures (latchStrict a round r ws s) fun top =>
      ∃ m, s.miners.get a.topMinerInfo.key = some m ∧ m.roundId = round.id ∧
        0 < m.deployed ws ∧ isWinner round m r ws = .ok true ∧
        a.topMinerPoolMemberInfo.key = .poolMemberPda m.authority ∧
        top = if 0 < s.poolShare round.id ws m.authority then poolAddress else round.topMiner := by
  simp only [latchStrict, ensures_bind, ensures_fromOption, ensures_require]
  intro m hget hround hkey winner hwinner hwins
  rw [hkey]
  refine ensures_ite.2 ⟨fun hempty => ?_, fun _ => ?_⟩
  · -- No pool member account: the miner plays for itself.
    have hnone : s.poolMembers.get (.poolMemberPda m.authority) = none := by
      cases hp : s.poolMembers.get (.poolMemberPda m.authority) with
      | none => rfl
      | some p =>
        rw [dataIsEmpty_of_poolMember hp] at hempty
        cases hempty
    refine ensures_pure.2 ⟨m, hget, hround, hwins.1, ?_, rfl, ?_⟩
    · rw [hwinner, hwins.2]
    · rw [poolShare_of_none hnone, if_neg (lt_irrefl 0)]
  · simp only [ensures_bind, ensures_fromOption, ensures_require, ensures_pure]
    intro p hp _
    refine ⟨m, hget, hround, hwins.1, ?_, rfl, ?_⟩
    · rw [hwinner, hwins.2]
    · rw [poolShare_of_get hp]
      by_cases hid : p.roundId = round.id
      · simp [hid]
      · simp [hid]

/-- The lenient latch believes in the pool exactly when the accounts vouch for it. -/
theorem latchLenient_spec (a : ResetAccounts) (round : Round) (r : BitVec 64) (ws : Square)
    (s : State) :
    Ensures (latchLenient a round r ws s) fun top =>
      (a.Vouch s round r ws ∧ top = poolAddress) ∨
        (¬ a.Vouch s round r ws ∧ top = round.topMiner) := by
  rw [latchLenient]
  refine ensures_ite.2 ⟨fun _ => ?_, fun hmissing => ?_⟩
  · simp only [ensures_bind, ensures_fromOption, ensures_require]
    intro m hget hround p hp hauth hpround
    -- The accounts that vouch are the ones that were loaded.
    have hvouch : a.Vouch s round r ws ↔
        (0 < m.deployed ws ∧ 0 < p.deployed ws) ∧ isWinner round m r ws = .ok true := by
      constructor
      · rintro ⟨m', p', hm', hp', -, -, -, hmpos, hppos, hwins⟩
        rw [hget] at hm'
        rw [hp] at hp'
        cases hm'
        cases hp'
        exact ⟨⟨hmpos, hppos⟩, hwins⟩
      · rintro ⟨⟨hmpos, hppos⟩, hwins⟩
        exact ⟨m, p, hget, hp, hround, hauth, hpround, hmpos, hppos, hwins⟩
    refine ensures_ite.2 ⟨fun hpos => ?_, fun hzero => ?_⟩
    · simp only [ensures_bind, ensures_pure]
      intro winner hwinner
      cases winner with
      | true => exact .inl ⟨hvouch.2 ⟨hpos, hwinner⟩, rfl⟩
      | false =>
        refine .inr ⟨fun h => ?_, rfl⟩
        have hwins := (hvouch.1 h).2
        rw [hwinner] at hwins
        cases hwins
    · exact ensures_pure.2 (.inr ⟨fun h => hzero (hvouch.1 h).1, rfl⟩)
  · refine ensures_pure.2 (.inr ⟨?_, rfl⟩)
    rintro ⟨m, p, hm, hp, -⟩
    exact hmissing ⟨dataIsEmpty_of_miner hm, dataIsEmpty_of_poolMember hp⟩

end Latch

/-! ## What the variants latch -/

section Variants

variable {clock : Clock} {variant : ResetVariant} {a : ResetAccounts} {s s' : State}
  {round : Round} {value : Hash} {topMiner : Pubkey} {r : BitVec 64}

/-- One out of two rounds splits its reward. -/
theorem Reset.latch_split (h : Reset clock variant a s s' round value topMiner)
    (hrng : ({ round with slotHash := value } : Round).rng = some r)
    (hpos : round.deployed (Round.winningSquare r) ≠ 0) (hsplit : Round.isSplitReward r = true) :
    topMiner = splitAddress := by
  obtain ⟨s₁, -, -, hlatch⟩ := h.latch r hrng hpos
  unfold latchTopMiner at hlatch
  rw [if_pos hsplit] at hlatch
  exact (Except.ok.inj hlatch).symm

/-- **The permissionless reset latches the pool when the winner bet through it.** -/
theorem Reset.latch_strict (h : Reset clock .permissionless a s s' round value topMiner)
    (hrng : ({ round with slotHash := value } : Round).rng = some r)
    (hpos : round.deployed (Round.winningSquare r) ≠ 0) (hsplit : Round.isSplitReward r = false) :
    ∃ m, s.miners.get a.topMinerInfo.key = some m ∧
      s.IsTop { round with slotHash := value } r a.topMinerInfo.key ∧
      a.topMinerPoolMemberInfo.key = .poolMemberPda m.authority ∧
      topMiner = if 0 < s.poolShare round.id (Round.winningSquare r) m.authority then poolAddress
        else round.topMiner := by
  obtain ⟨s₁, hminers, hmembers, hlatch⟩ := h.latch r hrng hpos
  rw [latchTopMiner, hsplit] at hlatch
  obtain ⟨m, hget, hround, hdeployed, hwins, hkey, htop⟩ :=
    (latchStrict_spec _ _ _ _ _).elim hlatch
  rw [hminers] at hget
  refine ⟨m, hget, ⟨m, hget, hround, hdeployed, hwins⟩, hkey, ?_⟩
  rw [htop, State.poolShare, State.memberships, hmembers]
  rfl

/-- **The crank bot's reset latches the pool when its accounts vouch for it.** -/
theorem Reset.latch_lenient (h : Reset clock .lenient a s s' round value topMiner)
    (hrng : ({ round with slotHash := value } : Round).rng = some r)
    (hpos : round.deployed (Round.winningSquare r) ≠ 0) (hsplit : Round.isSplitReward r = false) :
    (a.Vouch s { round with slotHash := value } r (Round.winningSquare r) ∧
        topMiner = poolAddress) ∨
      (¬ a.Vouch s { round with slotHash := value } r (Round.winningSquare r) ∧
        topMiner = round.topMiner) := by
  obtain ⟨s₁, hminers, hmembers, hlatch⟩ := h.latch r hrng hpos
  rw [latchTopMiner, hsplit] at hlatch
  have hspec := (latchLenient_spec _ _ _ _ _).elim hlatch
  have hvouch : a.Vouch s₁ { round with
        slotHash := value
        totalWinnings := round.losingShared (Round.winningSquare r)
        totalVaulted := round.losingVaulted (Round.winningSquare r) } r (Round.winningSquare r) ↔
      a.Vouch s { round with slotHash := value } r (Round.winningSquare r) := by
    unfold ResetAccounts.Vouch
    rw [hminers, hmembers]
    exact Iff.rfl
  rwa [hvouch] at hspec

/-- In a tiled round, accounts that vouch are those of the winner. -/
theorem Round.Tiled.vouch_iff (htiled : round.Tiled s) (hid : round.id = s.board.roundId)
    (hpos : 0 < round.deployed (Round.winningSquare r)) {k : Pubkey} {m : Miner}
    (htop : s.IsTop { round with slotHash := value } r k) (hget : s.miners.get k = some m) :
    a.Vouch s { round with slotHash := value } r (Round.winningSquare r) ↔
      0 < s.poolShare round.id (Round.winningSquare r) m.authority ∧
        a.topMinerInfo.key = k ∧ a.topMinerPoolMemberInfo.key = .poolMemberPda m.authority := by
  constructor
  · rintro ⟨m', p, hm', hp, hround, hauth, hpround, hmpos, hppos, hwins⟩
    have hkey : a.topMinerInfo.key = k := by
      refine (htiled.existsUnique_isTop hid value hpos).unique ?_ htop
      exact ⟨m', hm', hround, hmpos, hwins⟩
    rw [hkey, hget] at hm'
    cases hm'
    have hmember : a.topMinerPoolMemberInfo.key = .poolMemberPda m.authority := by
      rw [← s.poolMembers.key_of_get _ _ hp, PoolMember.pda, hauth]
    rw [hmember] at hp
    refine ⟨?_, hkey, hmember⟩
    rw [poolShare_of_get hp, if_pos hpround]
    exact hppos
  · rintro ⟨hshare, hkey, hmember⟩
    obtain ⟨m', hm', hround, hmpos, hwins⟩ := htop
    rw [hget] at hm'
    cases hm'
    cases hp : s.poolMembers.get (.poolMemberPda m.authority) with
    | none =>
      rw [poolShare_of_none hp] at hshare
      exact absurd hshare (lt_irrefl 0)
    | some p =>
      have hauth : p.authority = m.authority := by
        have hkey : Pubkey.poolMemberPda p.authority = _ := s.poolMembers.key_of_get _ _ hp
        injection hkey
      rw [poolShare_of_get hp] at hshare
      by_cases hpround : p.roundId = round.id
      · rw [if_pos hpround] at hshare
        refine ⟨m, p, by rw [hkey, hget], by rw [hmember, hp], hround, hauth, hpround, hmpos,
          hshare, hwins⟩
      · rw [if_neg hpround] at hshare
        exact absurd hshare (lt_irrefl 0)

/-- A verdict keeps the hash that it was reached with. -/
theorem State.verdict_slotHash (s : State) (round : Round) (topMiner : Pubkey) :
    (s.verdict round topMiner).round.slotHash = round.slotHash := by
  unfold State.verdict
  split
  · rfl
  · split
    · rfl
    · simp only [State.winnersVerdict, payMotherlode]
      split <;> rfl

/-- Without winners, a verdict leaves the top miner alone. -/
theorem State.verdict_topMiner_of_none (s : State) (round : Round) (topMiner : Pubkey)
    (h : ∀ r, round.rng = some r → round.deployed (Round.winningSquare r) = 0) :
    (s.verdict round topMiner).round.topMiner = round.topMiner := by
  unfold State.verdict
  split
  · rfl
  · next r hrng => rw [if_pos (h r hrng)]; rfl

/-- With winners, it is the one that was latched. -/
theorem State.verdict_topMiner_winners (s : State) {round : Round} (topMiner : Pubkey)
    (hrng : round.rng = some r) (hpos : round.deployed (Round.winningSquare r) ≠ 0) :
    (s.verdict round topMiner).round.topMiner = topMiner := by
  simp only [State.verdict, hrng, if_neg hpos, State.winnersVerdict, payMotherlode]
  split <;> rfl

/-- Without winners, the verdict does not depend on what is latched. -/
theorem State.verdict_congr (s : State) (round : Round) (top top' : Pubkey)
    (h : ∀ r, round.rng = some r → round.deployed (Round.winningSquare r) ≠ 0 → top = top') :
    s.verdict round top = s.verdict round top' := by
  unfold State.verdict
  cases hrng : round.rng with
  | none => rfl
  | some r =>
    by_cases hpos : round.deployed (Round.winningSquare r) = 0
    · simp only [if_pos hpos]
    · rw [h r hrng hpos]

end Variants

end Godl
