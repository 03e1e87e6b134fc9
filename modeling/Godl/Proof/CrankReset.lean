import Godl.Lib.Returns
import Godl.Proof.Latch

/-!
# When the crank bot's reset goes through

Where the permissionless reset goes through, the crank bot's reset on the same accounts
runs the same checks, opens the same accounts and moves the same amounts.  Two things can
still stop it: the bot may be short of the rent, and its latch aborts on a pool member of
an older round, which the permissionless one takes for a miner that plays for itself.

## Main definitions

* `Twin s s'` — two states that differ in the signer of a reset only.
* `ResetAccounts.FreshMember` — the pool member shown, if there is one, is of this round.
* `resetBody_returns` — the crank bot's reset goes through.
* `Reset.freshMember` — only then.
-/

namespace Godl

open Lib

/-- The accounts of a reset with another signer. -/
def ResetAccounts.signedBy (a : ResetAccounts) (info : AccountInfo) : ResetAccounts :=
  { a with signerInfo := info }

/-- Two states in the middle of a reset that differ in its signer only: in who paid for the
new accounts, and in who paid how much. -/
structure Twin (s s' : State) : Prop where
  rest : s' = { s with
    rounds := s'.rounds, poolRounds := s'.poolRounds, lamports := s'.lamports }
  rounds : ∀ k, (s'.rounds.get k).isNone = (s.rounds.get k).isNone
  poolRounds : ∀ k, (s'.poolRounds.get k).isNone = (s.poolRounds.get k).isNone

/-- A pool member that is shown when there are winners and the reward is not split belongs
to the round. -/
def ResetAccounts.FreshMember (a : ResetAccounts) (s : State) (round : Round) : Prop :=
  ∀ r p, round.rng = some r → round.deployed (Round.winningSquare r) ≠ 0 →
    Round.isSplitReward r = false →
    s.poolMembers.get a.topMinerPoolMemberInfo.key = some p → p.roundId = round.id

section Twin

variable {s s' : State}

theorem Twin.dataIsEmpty (h : Twin s s') (k : Pubkey) : s'.dataIsEmpty k = s.dataIsEmpty k := by
  have hrounds := h.rounds k
  have hpools := h.poolRounds k
  rw [h.rest] at hrounds hpools ⊢
  dsimp only at hrounds hpools
  simp only [State.dataIsEmpty, hrounds, hpools]

theorem isNone_get_put_congr {κ α : Type} [DecidableEq κ] {key : α → κ} {st st' : Store κ α key}
    {x x' : α} (hkey : key x' = key x) (h : ∀ k, (st'.get k).isNone = (st.get k).isNone) (k : κ) :
    ((st'.put x').get k).isNone = ((st.put x).get k).isNone := by
  rw [Store.get_put, Store.get_put, hkey]
  split
  · rfl
  · exact h k

end Twin

/-! ## Checks and accounts -/

section Opening

variable {clock : Clock} {a : ResetAccounts} {s : State} {round : Round} {crank : AccountInfo}

/-- The bot passes the checks that another signer passes. -/
theorem checkResetAccounts_signedBy (hkey : crank.key = crankBot) (hcrank : crank.isSigner = true)
    (hsigner : a.signerInfo.isSigner = true) :
    checkResetAccounts clock .lenient (a.signedBy crank) s =
      checkResetAccounts clock .permissionless a s := by
  have hok : checkSigner crank = .ok () := by simp [checkSigner, require, hcrank]
  have hok' : checkSigner a.signerInfo = .ok () := by simp [checkSigner, require, hsigner]
  have haddress : checkAddress crank crankBot = .ok () := by simp [checkAddress, require, hkey]
  simp only [checkResetAccounts, ResetAccounts.signedBy, hok, hok', haddress]
  rfl

/-- A signer with enough lamports can open an account that is empty. -/
theorem State.createAccount_returns {target payer : AccountInfo} {len : ℕ}
    (hempty : s.dataIsEmpty target.key = true) (hsigner : payer.isSigner = true)
    (hfunds : minimumBalance len - s.lamports target.key ≤ s.lamports payer.key) :
    Returns (s.createAccount target len payer) fun s' => ∃ l, s' = { s with lamports := l } ∧
      Moved s.lamports l payer.key target.key (minimumBalance len - s.lamports target.key) ∧
      Grew IsDerived s.lamports l := by
  have hreturns : Returns (s.createAccount target len payer) fun _ => True := by
    simp only [createAccount, collect, returns_bind, returns_require, returns_pure]
    exact ⟨hempty, hsigner, hfunds, trivial⟩
  exact (hreturns.and_ensures (State.createAccount_spec s target len payer)).mono fun _ h => h.2.2

/-- What another signer opens, the bot can open if it has the rent. -/
theorem openNextRound_returns (hchecked : ResetChecked clock a s round)
    (hcrank : crank.isSigner = true) (hrent : s.nextRent ≤ s.lamports crank.key) :
    Ensures (openNextRound a (s.board.roundId + 1) s) fun s₁ =>
      Returns (openNextRound (a.signedBy crank) (s.board.roundId + 1) s) fun s₂ =>
        Twin s₁ s₂ ∧ Grew IsDerived s.lamports s₂.lamports := by
  have hne : ∀ {k : Pubkey}, k.isKeypair = false → k ≠ crank.key := by
    rintro k hk rfl
    rw [crank.isKeypair_of_isSigner hcrank] at hk
    cases hk
  rw [State.nextRent] at hrent
  simp only [openNextRound, ensures_bind, ensures_pure, returns_bind, returns_pure]
  refine Ensures.mono (State.createAccount_spec s _ _ _) ?_
  rintro _ ⟨hempty, l₁, rfl, -, -⟩
  refine Ensures.mono (State.createAccount_spec _ _ _ _) ?_
  rintro _ ⟨hempty', l₂, rfl, -, -⟩
  refine (State.createAccount_returns hempty hcrank ?_).mono ?_
  · rw [hchecked.nextRoundKey]
    exact (Nat.le_add_right _ _).trans hrent
  rintro _ ⟨l₃, rfl, hmoved, hl₃⟩
  rw [hchecked.nextRoundKey] at hmoved
  -- The first account is paid for, and the second one is still as it was.
  have hpayer := hmoved.balance crank.key
  rw [if_pos rfl, if_neg (hne rfl).symm, Nat.add_zero] at hpayer
  have hpool := hmoved.balance (.poolRoundPda (s.board.roundId + 1))
  rw [if_neg (hne rfl), if_neg (by simp), Nat.add_zero] at hpool
  have hrounds : ∀ k, ((s.rounds.put (Round.fresh (s.board.roundId + 1) crank.key)).get k).isNone =
      ((s.rounds.put (Round.fresh (s.board.roundId + 1) a.signerInfo.key)).get k).isNone :=
    isNone_get_put_congr rfl fun _ => rfl
  have htwin : Twin
      { s with
        rounds := s.rounds.put (Round.fresh (s.board.roundId + 1) a.signerInfo.key)
        lamports := l₁ }
      { s with
        rounds := s.rounds.put (Round.fresh (s.board.roundId + 1) crank.key)
        lamports := l₃ } := ⟨rfl, hrounds, fun _ => rfl⟩
  refine (State.createAccount_returns ?_ hcrank ?_).mono ?_
  · exact (htwin.dataIsEmpty _).trans hempty'
  · show _ - l₃ a.poolRoundNextInfo.key ≤ l₃ crank.key
    rw [hchecked.nextPoolKey]
    omega
  rintro _ ⟨l₄, rfl, -, hl₄⟩
  refine ⟨⟨rfl, hrounds, isNone_get_put_congr rfl fun _ => rfl⟩, hl₃.trans hl₄⟩

end Opening

/-! ## The latch -/

section Settling

variable {clock : Clock} {env : Env} {a : ResetAccounts} {s : State} {round : Round}
  {r : BitVec 64} {ws : Square} {crank : AccountInfo} {rs : Store Pubkey Round Round.pda}
  {ps : Store Pubkey PoolRound PoolRound.pda} {l : Pubkey → ℕ}

/-- Where the strict latch finds the winner, the lenient one aborts on a pool member of
another round only. -/
theorem latchLenient_returns
    (hdata : ∀ k, ({ s with rounds := rs, poolRounds := ps, lamports := l } : State).dataIsEmpty k =
      s.dataIsEmpty k)
    (hfresh : ∀ p, s.poolMembers.get a.topMinerPoolMemberInfo.key = some p → p.roundId = round.id) :
    Ensures (latchStrict a round r ws s) fun _ =>
      Returns (latchLenient (a.signedBy crank) round r ws
        { s with rounds := rs, poolRounds := ps, lamports := l }) fun _ => True := by
  simp only [latchStrict, ensures_bind, ensures_fromOption, ensures_require]
  intro m hget hround _ winner hwinner _
  have hkey : (a.signedBy crank).topMinerPoolMemberInfo.key = a.topMinerPoolMemberInfo.key := rfl
  refine ensures_ite.2 ⟨fun hempty => ?_, fun _ => ?_⟩
  · -- Nothing is shown as the pool member.
    refine ensures_pure.2 ?_
    rw [latchLenient, if_neg]
    · exact returns_pure.2 trivial
    · rintro ⟨-, hmember⟩
      rw [hkey, hdata, hempty] at hmember
      cases hmember
  · simp only [ensures_bind, ensures_fromOption, ensures_require, ensures_pure]
    intro p hp hauth
    simp only [latchLenient, returns_ite, returns_bind, returns_fromOption, returns_require,
      returns_pure]
    refine ⟨fun _ => ⟨m, hget, hround, p, hp, hauth, hfresh p hp, fun _ => ?_, fun _ => trivial⟩,
      fun _ => trivial⟩
    exact returns_of_eq hwinner trivial

/-- Where the lenient latch goes through and a miner is shown, the pool member is of the
round. -/
theorem latchLenient_fresh (a : ResetAccounts) (round : Round) (r : BitVec 64) (ws : Square)
    (s : State) :
    Ensures (latchLenient a round r ws s) fun _ => ∀ m p,
      s.miners.get a.topMinerInfo.key = some m →
      s.poolMembers.get a.topMinerPoolMemberInfo.key = some p → p.roundId = round.id := by
  rw [latchLenient]
  refine ensures_ite.2 ⟨fun _ => ?_, fun hmissing => ?_⟩
  · simp only [ensures_bind, ensures_fromOption, ensures_require]
    intro _ _ _ p hp _ hround
    refine ensures_of_forall fun _ m p' _ hp' => ?_
    rw [hp] at hp'
    cases hp'
    exact hround
  · refine ensures_pure.2 fun m p hm hp => ?_
    exact absurd ⟨dataIsEmpty_of_miner hm, dataIsEmpty_of_poolMember hp⟩ hmissing

/-- Lamports that are there can be sent. -/
theorem State.send_returns {source : Pubkey} (dest : Pubkey) {n : ℕ}
    (hn : n ≤ s.lamports source) :
    Returns (s.send source dest n) fun s' => ∃ l, s' = { s with lamports := l } ∧
      s.lamports source ≤ l source + n := by
  have hreturns : Returns (s.send source dest n) fun _ => True := by
    simp only [send, returns_bind, returns_require, returns_pure]
    exact ⟨hn, trivial⟩
  refine (hreturns.and_ensures (send_paid s source dest n)).mono ?_
  rintro s' ⟨-, l, rfl, hpaid⟩
  have hdrop := hpaid.drop source
  rw [if_pos rfl] at hdrop
  exact ⟨l, rfl, hdrop⟩

/-- The board can move on when it could before. -/
theorem advanceBoard_returns (h : s.board.roundId + 1 < u64Bound) :
    Returns (advanceBoard clock s) fun s' =>
      s' = { s with board := ⟨s.board.roundId + 1, clock.slot, u64Max⟩ } := by
  simp only [advanceBoard, returns_bind, returns_addU64, returns_pure]
  exact ⟨h, trivial⟩

/-- The fees and the vaulted part of the winnings come out of what was deployed. -/
theorem Round.sent_le (round : Round) (ws : Square)
    (h : round.losingVaulted ws + round.losingShared ws + round.deployed ws + round.losingFees ws ≤
      round.totalDeployed) :
    round.motherlodeFee + round.adminFee + round.losingVaulted ws ≤ round.totalDeployed := by
  have hvault : 10 * round.losingVaulted ws ≤ round.losingVaulted ws + round.losingShared ws := by
    simp only [Round.losingShared, Round.losingVaulted]
    omega
  simp only [Round.adminFee, Round.motherlodeFee, adminFeeBps, solMotherlodeBps, denominatorBps]
  omega

theorem advanceBoard_bound (clock : Clock) (s : State) :
    Ensures (advanceBoard clock s) fun _ => s.board.roundId + 1 < u64Bound := by
  simp only [advanceBoard, ensures_bind, ensures_addU64, ensures_pure]
  exact fun h => h

/-- Nobody won: the three payments come to what was deployed. -/
theorem resetVault_returns (hfunded : round.totalDeployed ≤ l a.roundInfo.key) :
    Ensures (resetVault clock .permissionless a round ws round.adminFee round.motherlodeFee s)
      fun _ => Returns (resetVault clock .lenient (a.signedBy crank) round ws round.adminFee
        round.motherlodeFee { s with rounds := rs, poolRounds := ps, lamports := l })
        fun _ => True := by
  simp only [resetVault, ensures_bind, ensures_subU64, ensures_addU64, returns_bind,
    returns_subU64, returns_addU64]
  intro hadmin hmotherlode hbalance hsol
  refine Ensures.mono (advanceBoard_bound clock _) fun _ hboard => ?_
  replace hboard : s.board.roundId + 1 < u64Bound := hboard
  intro _ _ _ _ _ _
  refine ⟨hadmin, hmotherlode, hbalance, hsol, (advanceBoard_returns ?_).mono ?_⟩
  · exact hboard
  rintro _ rfl
  refine (State.send_returns _ ?_).mono ?_
  · exact hadmin.trans hfunded
  rintro _ ⟨l₁, rfl, hl₁⟩
  dsimp only [ResetAccounts.signedBy, State.programLog] at hl₁
  refine (State.send_returns _ ?_).mono ?_
  · dsimp only [ResetAccounts.signedBy]
    omega
  rintro _ ⟨l₂, rfl, hl₂⟩
  dsimp only [ResetAccounts.signedBy] at hl₂
  refine (State.send_returns _ ?_).mono fun _ _ => trivial
  dsimp only [ResetAccounts.signedBy]
  omega

/-- What a mint needs does not depend on who asks. -/
theorem mintRound_returns (crank : AccountInfo) (amount : ℕ) :
    Ensures (mintRound env a amount s) fun _ => ∀ u : State, u.tokens = s.tokens →
      Returns (mintRound env (a.signedBy crank) amount u) fun u' =>
        ∃ tok n, u' = { u with tokens := tok, mintSupply := n } := by
  have haccounts : (a.signedBy crank).mintAccounts = a.mintAccounts := rfl
  have hkey : (a.signedBy crank).treasuryTokensInfo = a.treasuryTokensInfo := rfl
  unfold mintRound
  rw [haccounts, hkey]
  by_cases hpos : 0 < amount
  · simp only [if_pos hpos]
    split
    · simp only [State.mintGodl, ensures_bind, ensures_require, ensures_fromOption, ensures_pure,
        returns_bind, returns_require, returns_fromOption, returns_pure]
      intro hauthority hprogram b hb u htokens
      exact ⟨hauthority, hprogram, b, htokens ▸ hb, _, _, rfl⟩
    · exact ensures_throw.2 trivial
  · simp only [if_neg hpos]
    exact ensures_pure.2 fun u _ => returns_pure.2 ⟨u.tokens, u.mintSupply, rfl⟩

/-- There are winners: the bot's reset goes through unless its latch aborts. -/
theorem resetWinners_returns
    (hdata : ∀ k, ({ s with rounds := rs, poolRounds := ps, lamports := l } : State).dataIsEmpty k =
      s.dataIsEmpty k)
    (hfunded : round.totalDeployed ≤ l a.roundInfo.key)
    (hfresh : Round.isSplitReward r = false →
      ∀ p, s.poolMembers.get a.topMinerPoolMemberInfo.key = some p → p.roundId = round.id) :
    Ensures (resetWinners clock env .permissionless a round r ws round.adminFee round.motherlodeFee
      s) fun _ => Returns (resetWinners clock env .lenient (a.signedBy crank) round r ws
        round.adminFee round.motherlodeFee { s with rounds := rs, poolRounds := ps, lamports := l })
        fun _ => True := by
  unfold resetWinners
  refine Ensures.returns_bind fun p hp => ?_
  obtain rfl := (splitWinnings_spec round ws).elim hp
  dsimp only
  refine Ensures.returns_bind fun balance _ => ?_
  refine Ensures.returns_bind fun _ hout => ?_
  have hsent := round.sent_le ws ((checkOutflows_spec _ _ _).elim hout)
  refine Ensures.returns_bind fun amounts _ => ?_
  rw [ensures_bind]
  intro top htop
  have hlatch : Returns (latchTopMiner .lenient (a.signedBy crank) { round with
      totalWinnings := round.losingShared ws, totalVaulted := round.losingVaulted ws } r ws
      { s with rounds := rs, poolRounds := ps, lamports := l }) fun _ => True := by
    unfold latchTopMiner at htop ⊢
    cases hsplit : Round.isSplitReward r with
    | true => exact returns_pure.2 trivial
    | false =>
      rw [hsplit] at htop
      exact (latchLenient_returns hdata (hfresh hsplit)).elim htop
  obtain ⟨top', htop', -⟩ := hlatch
  -- What the treasury gets does not depend on what was latched.
  have htreasury : ∀ (round round' : Round) (t : Treasury),
      (payMotherlode r round t).2 = (payMotherlode r round' t).2 := by
    intro round round' t
    unfold payMotherlode
    split <;> rfl
  simp only [ensures_bind, ensures_addU64]
  intro hmotherlode
  refine Ensures.mono ((mintRound_spec env a _ _).and (mintRound_returns crank _)) ?_
  rintro _ ⟨⟨rfl, -⟩, hmint⟩
  refine Ensures.mono (send_paid _ _ _ _) ?_
  rintro _ ⟨l', rfl, -⟩ hsol
  refine Ensures.mono (advanceBoard_bound clock _) fun _ hboard => ?_
  replace hboard : s.board.roundId + 1 < u64Bound := hboard
  intro _ _ _ _
  rw [returns_bind]
  refine returns_of_eq htop' ?_
  simp only [returns_bind, returns_addU64]
  refine ⟨?_, Returns.mono (hmint _ ?_) ?_⟩
  · rw [htreasury _ { round with
      totalWinnings := round.losingShared ws
      totalVaulted := round.losingVaulted ws
      topMinerReward := amounts.1
      topMiner := top }]
    exact hmotherlode
  · rfl
  rintro _ ⟨tok, n, rfl⟩
  refine (State.send_returns _ ?_).mono ?_
  · dsimp only [ResetAccounts.signedBy]
    omega
  rintro _ ⟨l₁, rfl, hl₁⟩
  refine ⟨hsol, (advanceBoard_returns ?_).mono ?_⟩
  · exact hboard
  rintro _ rfl
  dsimp only [ResetAccounts.signedBy] at hl₁
  refine (State.send_returns _ ?_).mono ?_
  · dsimp only [ResetAccounts.signedBy, State.programLog]
    omega
  rintro _ ⟨l₂, rfl, hl₂⟩
  dsimp only [ResetAccounts.signedBy, State.programLog] at hl₂
  refine (State.send_returns _ ?_).mono fun _ _ => trivial
  dsimp only [ResetAccounts.signedBy]
  omega

/-- **Settling goes through for the bot**, unless its latch aborts. -/
theorem settleRound_returns (crank : AccountInfo)
    (hdata : ∀ k, ({ s with rounds := rs, poolRounds := ps, lamports := l } : State).dataIsEmpty k =
      s.dataIsEmpty k)
    (hfunded : round.totalDeployed ≤ l a.roundInfo.key) (hfresh : a.FreshMember s round) :
    Ensures (settleRound clock env .permissionless a round s) fun _ =>
      Returns (settleRound clock env .lenient (a.signedBy crank) round
        { s with rounds := rs, poolRounds := ps, lamports := l }) fun _ => True := by
  unfold settleRound
  cases hrng : round.rng with
  | none =>
    dsimp only [resetRefund]
    refine Ensures.mono (advanceBoard_bound clock _) fun _ hboard => ?_
    refine (advanceBoard_returns ?_).mono fun _ _ => trivial
    exact hboard
  | some r =>
    dsimp only
    simp only [ensures_bind, ensures_mulU64, returns_bind, returns_mulU64]
    intro hadmin hmotherlode
    by_cases hzero : round.deployed (Round.winningSquare r) = 0
    · simp only [if_pos hzero]
      refine Ensures.mono (resetVault_returns hfunded) fun _ h => ⟨hadmin, hmotherlode, h⟩
    · simp only [if_neg hzero]
      refine Ensures.mono (resetWinners_returns hdata hfunded fun hsplit p =>
        hfresh r p hrng hzero hsplit) fun _ h => ⟨hadmin, hmotherlode, h⟩

end Settling

/-! ## The instruction -/

section Body

variable {clock : Clock} {env : Env} {a : ResetAccounts} {s s' : State} {round : Round}
  {value : Hash} {topMiner : Pubkey} {crank : AccountInfo}

/-- **Where another reset goes through, the crank bot's does too**, if the bot has the rent
and no pool member of another round is shown. -/
theorem resetBody_returns (hkey : crank.key = crankBot) (hcrank : crank.isSigner = true)
    (hrent : s.nextRent ≤ s.lamports crank.key)
    (hfunded : ∀ round, s.rounds.get (.roundPda s.board.roundId) = some round →
      round.totalDeployed ≤ s.lamports (.roundPda s.board.roundId))
    (hfresh : ∀ round var, s.rounds.get (.roundPda s.board.roundId) = some round →
      s.vars s.config.varAddress = some var →
      a.FreshMember s { round with slotHash := var.value }) :
    Ensures (resetBody clock env .permissionless a s) fun _ =>
      Returns (resetBody clock env .lenient (a.signedBy crank) s) fun _ => True := by
  unfold resetBody
  rw [ensures_bind]
  intro round hround
  have hchecked := (checkResetAccounts_spec clock .permissionless a s).elim hround
  have hpda : a.roundInfo.key = .roundPda s.board.roundId := by
    rw [← hchecked.roundId]
    exact (s.rounds.key_of_get _ _ hchecked.getRound).symm
  have hget := hchecked.getRound
  rw [hpda] at hget
  have hsigner := hchecked.signer
  have hbot : checkResetAccounts clock .lenient (a.signedBy crank) s = .ok round := by
    rw [checkResetAccounts_signedBy hkey hcrank hsigner]
    exact hround
  rw [returns_bind, ensures_bind]
  refine Ensures.mono ((openNextRound_spec hchecked).and
    (openNextRound_returns hchecked hcrank hrent)) ?_
  rintro s₁ ⟨⟨l₁, rfl, -, -⟩, s₂, hs₂, htwin, hgrew⟩
  rw [ensures_bind]
  intro value hvalue
  obtain ⟨⟨var, hvar, rfl⟩, -⟩ := (readEntropy_spec env a _).elim hvalue
  have hrest := htwin.rest
  have hdata := htwin.dataIsEmpty
  rw [hrest] at hdata
  refine Ensures.mono (settleRound_returns crank hdata ?_ ?_) fun _ hsettled => ?_
  · rw [hpda]
    exact (hfunded round hget).trans (hgrew _ rfl)
  · exact hfresh round var hget hvar
  refine returns_of_eq hbot ?_
  rw [returns_bind]
  refine returns_of_eq hs₂ ?_
  rw [returns_bind]
  refine returns_of_eq (a := var.value) ?_ ?_
  · rw [hrest]
    exact hvalue
  · rw [hrest]
    exact hsettled

/-- **Only then**: a reset of the bot that goes through is not shown a pool member of
another round, if it is shown a miner. -/
theorem Reset.freshMember (h : Reset clock .lenient a s s' round value topMiner)
    (hminer : ∀ r, ({ round with slotHash := value } : Round).rng = some r →
      round.deployed (Round.winningSquare r) ≠ 0 → Round.isSplitReward r = false →
      ∃ m, s.miners.get a.topMinerInfo.key = some m) :
    a.FreshMember s { round with slotHash := value } := by
  intro r p hrng hpos hsplit hp
  obtain ⟨m, hm⟩ := hminer r hrng hpos hsplit
  obtain ⟨s₁, hminers, hmembers, hlatch⟩ := h.latch r hrng hpos
  unfold latchTopMiner at hlatch
  rw [hsplit] at hlatch
  refine (latchLenient_fresh _ _ _ _ _).elim hlatch m p ?_ ?_
  · rw [hminers]
    exact hm
  · rw [hmembers]
    exact hp

end Body

end Godl
