import Godl.Proof.LedgerBook
import Godl.Proof.StakeHandlers

/-!
# Instructions on unrefined GODL

A claim takes a miner's GODL out, an injection and the bonus of an OTC trade bring some
in.  Each settles the miner's gold before its weight changes, so that all three are
instances of one effect on the books.

## Main definitions

* `Traded s s' credited out` — the effect.
* `GoldSettled authority s s'` — an extended account is opened and settled.
-/

namespace Godl

open Lib

/-- The effect of an instruction on unrefined GODL: it credits `credited` to miners and
takes `out` from them; stakes may be opened and filled meanwhile. -/
structure Traded (s s' : State) (credited out : ℕ) : Prop where
  restaked : Restaked s s' 0
  ledger : LedgerStep s s' credited out
  gold : GoldStep s s' 0
  game : SameGame s s'
  motherlode : s'.treasury.motherlode = s.treasury.motherlode

section Traded

variable {s s' s'' : State} {i j m n : ℕ}

theorem Traded.trans (h : Traded s s' i j) (h' : Traded s' s'' m n) :
    Traded s s'' (i + m) (j + n) :=
  ⟨h.restaked.trans h'.restaked, h.ledger.trans h'.ledger, h.gold.trans h'.gold,
    h.game.trans h'.game, h'.motherlode.trans h.motherlode⟩

/-- An instruction on stakes that pays no rewards trades nothing. -/
theorem StakeStep.traded (h : StakeStep s s' 0 n) : Traded s s' 0 0 :=
  ⟨h.restaked, h.ledger.step, goldStep_of_same h.gold h.ledger.ledgers, h.game, h.motherlode⟩

theorem Drains.traded (h : Drains s s' n) : Traded s s' 0 0 := h.stakeStep.traded

/-- Tokens leave the treasury after the trade is booked. -/
theorem Traded.drains (h : Traded s s' i j) (h' : Drains s' s'' n) : Traded s s'' i j :=
  h.trans h'.traded

/-- Steps that trade nothing before the trade is booked. -/
theorem StakeStep.then_traded (h : StakeStep s s' 0 n) (h' : Traded s' s'' i j) :
    Traded s s'' i j := by
  have := h.traded.trans h'
  rwa [Nat.zero_add, Nat.zero_add] at this

end Traded

/-! ## Settling the gold -/

/-- The extended account of `authority` is opened and settled, if there is one; its
miner's weight may change. -/
structure GoldSettled (authority : Pubkey) (s s' : State) : Prop where
  change : ∃ l tok t, s' = { s with lamports := l, tokens := tok, minersExtended := t } ∧
    Grew IsDerived s.lamports l ∧ balances tok = balances s.tokens
  settled : ∀ e, s'.minersExtended.get (.minerExtendedPda authority) = some e →
    e.xautRewardsFactor.bits = s.goldVault.xautRewardsFactor.bits
  owed : State.goldOwedWith s'.minersExtended s.goldVault.xautRewardsFactor.bits s.unrefined ≤
    s.goldOwed
  upToDate : s.GoldUpToDate → s'.GoldUpToDate
  accounts : AccountsSettled authority s s'

section GoldSettled

variable {authority : Pubkey} {s s' s₁ s₂ : State} {l : Pubkey → ℕ} {tok : Pubkey → Option ℕ}

theorem goldSettled_of_opened {extended : Option MinerExtended}
    (hopen : ExtendedOpened authority s s₁ extended)
    (hl : Grew IsDerived s₁.lamports l) (htok : balances tok = balances s₁.tokens)
    (hsettle : ExtendedSettled authority { s₁ with lamports := l, tokens := tok } s₂) :
    GoldSettled authority s s₂ := by
  obtain ⟨l₁, t₁, rfl, hl₁⟩ := hopen.change
  obtain ⟨t₂, rfl⟩ := hsettle.change
  refine ⟨⟨l, tok, t₂, rfl, hl₁.trans hl, htok⟩, hsettle.settled, ?_,
    fun hup => hsettle.upToDate (hopen.upToDate hup),
    fun k e he => hsettle.accounts k e (hopen.kept k e he)⟩
  calc State.goldOwedWith t₂ s.goldVault.xautRewardsFactor.bits s.unrefined
      ≤ State.goldOwedWith t₁ s.goldVault.xautRewardsFactor.bits s.unrefined :=
        hsettle.owed s.unrefined rfl
    _ = s.goldOwed := hopen.owed s.unrefined

/-- Opening an extended account keeps the funds. -/
theorem GoldSettled.funds (h : GoldSettled authority s s') : KeepsFunds s s' 0 := by
  obtain ⟨l, tok, t, rfl, hl, htok⟩ := h.change
  refine ⟨fun _ hw => hw, hl.mono fun _ => isDerived_of_isRound, ?_, ?_, le_refl _⟩
  · dsimp only
    rw [htok]
    exact le_refl _
  · dsimp only
    rw [htok]

/-- **Once its gold is settled, a miner's weight may change.** -/
theorem GoldSettled.goldStep {x : Miner.Ledger} (h : GoldSettled authority s s') (s'' : State)
    (hvault : s''.goldVault = s.goldVault) (hextended : s''.minersExtended = s'.minersExtended)
    (hledgers : s''.ledgers = Function.update s.ledgers (.minerPda authority) x) :
    GoldStep s s'' 0 := by
  refine goldStep_of_settled authority hvault ?_ ?_ ?_ ?_ ?_
  · rw [hextended]
    exact h.settled
  · rw [hextended]
    exact h.owed
  · intro a ha
    have hne : Pubkey.minerPda a ≠ .minerPda authority := by simpa using ha
    rw [State.unrefined, hledgers, Function.update_of_ne hne]
    rfl
  · obtain ⟨l, tok, e, rfl, -, -⟩ := h.change
    rw [State.GoldUpToDate, State.GoldUpToDate, hvault, hextended]
    exact h.upToDate
  · rw [AccountsSettled, hextended]
    exact h.accounts

/-- After its gold is settled, a miner's ledger entry is rewritten. -/
theorem traded_of_settled {m : Miner} {t : Treasury} {credited out : ℕ}
    (h : GoldSettled authority s s') (hauth : m.authority = authority)
    (hwager : s.wagers m.pda = m.wager)
    (hledger : LedgerStep s { s with miners := s.miners.put m, treasury := t } credited out)
    (hstaked : t.totalStaked = s.treasury.totalStaked)
    (hfactor : t.stakeRewardsFactor = s.treasury.stakeRewardsFactor)
    (hmotherlode : t.motherlode = s.treasury.motherlode) :
    Traded s { s' with miners := s'.miners.put m, treasury := t } credited out := by
  have hgold := h.goldStep { s' with miners := s'.miners.put m, treasury := t }
    (x := m.ledger)
  obtain ⟨l, tok, e, rfl, -, -⟩ := h.change
  refine ⟨?_, ?_, ?_, ?_, hmotherlode⟩
  · exact SameStakes.restaked ⟨rfl, rfl, hstaked, hfactor⟩
  · exact hledger.same ⟨rfl, rfl, rfl, rfl⟩
  · refine hgold rfl rfl ?_
    rw [← hauth]
    exact ledgers_put s m
  · have hw : (s.miners.put m).view ⟨0, 0, fun _ => 0, fun _ => 0⟩ Miner.wager = s.wagers :=
      Store.view_put_of_eq hwager
    exact ⟨rfl, rfl, rfl, hw, rfl⟩

/-- What a miner loaded from its address holds. -/
theorem unrefined_of_get {k : Pubkey} {m : Miner} (h : s.miners.get k = some m) :
    s.unrefined m.authority = m.rewardsGodl := by
  have hk : Pubkey.minerPda m.authority = k := s.miners.key_of_get k m h
  rw [State.unrefined, hk, ledgers_of_get h]
  rfl

end GoldSettled

/-! ## Claiming -/

theorem creditReferrerGodl_drains {miner : Miner} {treasuryTokensInfo mintInfo : AccountInfo}
    {share : ℕ} {rest : List AccountInfo} {s : State}
    (hsource : treasuryTokensInfo.key ≠ goldVaultXautAddress)
    (hshare : miner.referrerAccount = none → share = 0) :
    Ensures (creditReferrerGodl miner treasuryTokensInfo mintInfo share rest s) fun s' =>
      Drains s s' share := by
  unfold creditReferrerGodl
  split
  · split
    · simp only [ensures_bind, ensures_require, ensures_fromOption, ensures_addU64]
      refine Ensures.mono (loadReferrer_spec _ _ _) fun r _ _ _ _ _ _ _ => ?_
      refine Ensures.mono (transferTokens_drains _ _ hsource) fun s' hs' => ?_
      refine Quiet.drains ?_ hs'
      exact quiet_of_eq rfl rfl rfl rfl rfl rfl rfl rfl rfl rfl (.of_eq rfl rfl rfl rfl)
    · simp
  · next hnone =>
      simp only [ensures_bind, ensures_require, ensures_pure]
      intro _
      rw [hshare hnone]
      exact Quiet.refl s

/-- Without a referrer there is no share. -/
theorem referralAmount_spec (miner : Miner) (amount bps : ℕ) :
    Ensures (referralAmount miner amount bps) fun share =>
      miner.referrerAccount = none → share = 0 := by
  simp only [referralAmount, ensures_ite, ensures_bind, ensures_mulU64, ensures_pure]
  refine ⟨fun hsome _ hnone => ?_, fun _ _ => trivial⟩
  rw [hnone] at hsome
  cases hsome

/-- **A claim pays a miner what it holds**, less the fee. -/
theorem processClaimGodl_spec (clock : Clock) (signerInfo configInfo minerInfo mintInfo
    recipientInfo treasuryInfo treasuryTokensInfo systemProgram tokenProgram
    associatedTokenProgram goldVaultInfo minerExtendedInfo : AccountInfo)
    (rest : List AccountInfo) (s : State) :
    Ensures (processClaimGodl clock signerInfo configInfo minerInfo mintInfo recipientInfo
      treasuryInfo treasuryTokensInfo systemProgram tokenProgram associatedTokenProgram
      goldVaultInfo minerExtendedInfo rest s) fun s' =>
      ∃ out, Traded s s' 0 out ∧ KeepsFunds s s' out ∧ s'.stakesV2 = s.stakesV2 := by
  simp only [processClaimGodl, ensures_bind, ensures_require, ensures_fromOption, ensures_subU64,
    ensures_ite, ensures_pure]
  intro _ m hm _ _ _ htreasury htokens _ _ _ _ _ _ _
  have hsource := treasuryTokens_ne_goldTokens htokens htreasury.1
  refine Ensures.mono (loadOrCreateMinerExtended_spec _ _ _ _ _) ?_
  rintro ⟨extended, s₁⟩ ⟨hopen, -⟩
  obtain ⟨l₁, t₁, rfl, -⟩ := id hopen.change
  refine Ensures.mono (State.openTokenAccount_spec _ _ _ _ _) ?_
  rintro _ ⟨-, l₂, tok, rfl, hl₂, htok⟩
  refine Ensures.mono (syncGoldRewards_spec hopen.get (unrefined_of_get hm)) fun s₃ hsettle => ?_
  have hsettled := goldSettled_of_opened hopen hl₂ htok hsettle
  obtain ⟨t₃, rfl⟩ := id hsettle.change
  refine Ensures.mono (Miner.claimGodl_spec m clock _) ?_
  rintro ⟨amount, m', t⟩ ⟨fee, hclaim⟩
  have hpda : m'.pda = minerInfo.key := by
    rw [← s.miners.key_of_get _ m hm, Miner.pda, hclaim.authority]
    rfl
  have hmpda : m.pda = minerInfo.key := s.miners.key_of_get _ m hm
  have hledger := claim_step (s := s) (by rw [hmpda, ledgers_of_get hm]) hclaim
  have htraded := traded_of_settled hsettled hclaim.authority
    (by rw [hpda, wagers_of_get hm, hclaim.wager]) hledger
    (by rw [hclaim.treasury]) (by rw [hclaim.treasury]) (by rw [hclaim.treasury])
  refine Ensures.mono (referralAmount_spec m amount referralBps) fun share hshare hle => ?_
  have hfunds : KeepsFunds s { s with
      lamports := l₂
      tokens := tok
      minersExtended := t₃
      miners := s.miners.put m'
      treasury := t } 0 := hsettled.funds.same rfl rfl rfl rfl
  refine Ensures.mono (creditReferrerGodl_drains hsource hshare) fun s₄ hs₄ =>
    ⟨fun _ => ?_, fun hzero => ?_⟩
  · refine Ensures.mono (transferTokens_drains _ _ hsource) fun s₅ hs₅ =>
      ⟨amount, ?_, ?_, hs₅.stakes.stakesV2.trans hs₄.stakes.stakesV2⟩
    · exact (htraded.drains hs₄).drains hs₅
    · have h := (hfunds.trans hs₄.funds).trans hs₅.funds
      have hsum : 0 + share + (amount - share) = amount := by omega
      rwa [hsum] at h
  · refine ⟨amount, htraded.drains hs₄, ?_, hs₄.stakes.stakesV2⟩
    have h := hfunds.trans hs₄.funds
    have hsum : 0 + share = amount := by omega
    rwa [hsum] at h

/-! ## Crediting -/

/-- The miner an instruction has in hand: the one at its address, or a fresh one. -/
def InHand (s : State) (m : Miner) : Prop :=
  s.ledgers m.pda = m.ledger ∧ s.wagers m.pda = m.wager

theorem inHand_of_get {s : State} {k : Pubkey} {m : Miner} (h : s.miners.get k = some m) :
    InHand s m := by
  have hk : m.pda = k := s.miners.key_of_get k m h
  exact ⟨by rw [hk, ledgers_of_get h], by rw [hk, wagers_of_get h]⟩

theorem InHand.of_same {s s' : State} {m : Miner} (h : InHand s m)
    (hledgers : s'.ledgers = s.ledgers) (hwagers : s'.wagers = s.wagers) : InHand s' m := by
  rw [InHand, hledgers, hwagers]
  exact h

/-- Writing the miner in hand back changes nothing. -/
theorem InHand.put_quiet {s : State} {m : Miner} (h : InHand s m) :
    Quiet s { s with miners := s.miners.put m } := putMiner_quiet h.2 h.1

theorem openMiner_inHand {e : ProgramError} {minerInfo : AccountInfo} {authority : Pubkey}
    {payer : AccountInfo} {s : State} (hkey : minerInfo.key = .minerPda authority) :
    Ensures (openMiner e minerInfo authority payer s) fun p =>
      Quiet s p.2 ∧ p.1.authority = authority ∧ InHand p.2 p.1 := by
  refine Ensures.mono (openMiner_spec e minerInfo authority payer s) ?_
  rintro ⟨m, _⟩ ⟨l, rfl, hl, hauth, hm⟩
  refine ⟨quiet_lamports (hl.mono fun _ => isDerived_of_isRound), hauth, ?_⟩
  have hpda : m.pda = minerInfo.key := by rw [Miner.pda, hauth, hkey]
  rw [← hpda] at hm
  rcases hm with ⟨hnone, rfl⟩ | hsome
  · exact ⟨Store.view_of_none hnone, Store.view_of_none hnone⟩
  · exact inHand_of_get hsome

/-- GODL that was brought in is credited to a settled miner. -/
theorem creditUnrefined_spec {e : ProgramError} {amount : ℕ}
    {minerExtendedInfo payer : AccountInfo} {authority : Pubkey} {m : Miner} {s : State}
    (hm : InHand s m) (hauth : m.authority = authority) :
    Ensures (creditUnrefined e amount minerExtendedInfo payer authority m s) fun r =>
      r.1.authority = authority ∧
      ∀ s', s' = { r.2 with miners := r.2.miners.put r.1 } →
        Traded s s' amount 0 ∧ KeepsFunds s s' 0 ∧ s'.stakesV2 = s.stakesV2 := by
  simp only [creditUnrefined, ensures_bind, ensures_addU64, ensures_pure]
  refine Ensures.mono (loadOrCreateMinerExtended_spec _ _ _ _ _) ?_
  rintro ⟨extended, s₁⟩ ⟨hopen, -⟩
  obtain ⟨l₁, t₁, rfl, -⟩ := id hopen.change
  refine Ensures.mono (Miner.updateRewards_spec m _) fun m' hsettledMiner => ?_
  have hauth' : m'.authority = authority := hsettledMiner.authority.trans hauth
  have hunits : s.unrefined authority = m'.rewardsGodl := by
    rw [hsettledMiner.rewardsGodl, State.unrefined, ← hauth]
    exact congrArg (fun l : Miner.Ledger => l.position.units) hm.1
  have hget : ({ s with lamports := l₁, minersExtended := t₁ } : State).minersExtended.get
      (.minerExtendedPda m'.authority) = extended := by
    rw [hauth']
    exact hopen.get
  refine Ensures.mono (syncGoldRewards_spec hget (by rw [hauth']; exact hunits))
    fun s₂ hsettle _ _ _ => ?_
  rw [hauth'] at hsettle
  have hsettled := goldSettled_of_opened hopen (Grew.refl _ _) rfl hsettle
  obtain ⟨t₂, rfl⟩ := id hsettle.change
  refine ⟨hauth', ?_⟩
  rintro _ rfl
  have hpda : m'.pda = m.pda := by rw [Miner.pda, Miner.pda, hsettledMiner.authority]
  refine ⟨traded_of_settled hsettled hauth' ?_ ?_ rfl rfl rfl, ?_, rfl⟩
  · show s.wagers m'.pda = _
    rw [hpda, hm.2]
    exact hsettledMiner.wager.symm
  · exact credit_step hm.1 hsettledMiner rfl rfl hpda rfl
  · exact hsettled.funds.same rfl rfl rfl rfl

/-- **An injection credits what it brings in.** -/
theorem processInjectUnrefinedRewards_spec (amount : ℕ) (signerInfo configInfo minerInfo
    treasuryInfo signerTokensInfo treasuryTokensInfo tokenProgram goldVaultInfo minerExtendedInfo
    systemProgram : AccountInfo) (s : State) :
    Ensures (processInjectUnrefinedRewards amount signerInfo configInfo minerInfo treasuryInfo
      signerTokensInfo treasuryTokensInfo tokenProgram goldVaultInfo minerExtendedInfo
      systemProgram s) fun s' => Traded s s' amount 0 ∧ KeepsFunds s s' 0 ∧
        balances s.tokens treasuryTokensAddress + amount ≤
          balances s'.tokens treasuryTokensAddress ∧ s'.stakesV2 = s.stakesV2 := by
  simp only [processInjectUnrefinedRewards, State.transferTokensFrom, ensures_bind,
    ensures_require, ensures_fromOption, ensures_pure]
  intro hsigner _ _ _ m hm _ _ htreasury _ hsigned _ _ _ htokens _ _ _ _ _ _ _ hsigner'
  have hvault : ¬ IsVault signerTokensInfo.key := by
    rw [hsigned]
    exact signerTokens_not_isVault hsigner _
  have hkey : treasuryTokensInfo.key = treasuryTokensAddress := by
    rw [htokens, htreasury.1]
    rfl
  have hne : treasuryTokensAddress ≠ signerTokensInfo.key := fun h => hvault (.inl h.symm)
  refine Ensures.mono ((transferTokens_quiet _ _ hvault).and (State.transferTokens_spec _ _ _ _))
    ?_
  rintro _ ⟨hquiet, tok, rfl, htok, -⟩
  have hbrought : balances s.tokens treasuryTokensAddress + amount ≤
      balances tok treasuryTokensAddress := by
    have h := htok.balance treasuryTokensAddress
    rw [if_neg hne, if_pos hkey.symm] at h
    omega
  refine Ensures.mono (creditUnrefined_spec (m := m) (inHand_of_get hm) rfl) ?_
  rintro ⟨m', s₁⟩ ⟨-, h⟩
  obtain ⟨htraded, hfunds, hstakes⟩ := h _ rfl
  exact ⟨(Drains.stakeStep hquiet).then_traded htraded, hquiet.funds.trans hfunds,
    hbrought.trans hfunds.treasuryTokens, hstakes⟩

/-! ## Trading with the desk -/

/-- The trade is booked with the desk, which no book reads. -/
theorem bookOtcTrade_quiet (args : OtcTradeArgs) (a : OtcTradeAccounts) (otcTreasuryTokens : ℕ)
    (s : State) : Ensures (bookOtcTrade args a otcTreasuryTokens s) (Quiet s) := by
  simp only [bookOtcTrade, ensures_bind, ensures_addU64, ensures_require]
  intro _ _ _ _ _
  refine Quiet.followed ?_ (collect_quiet _ _ _ _)
  exact quiet_of_eq rfl rfl rfl rfl rfl rfl rfl rfl rfl rfl (.of_eq rfl rfl rfl rfl)

theorem openOtcUser_quiet (a : OtcTradeAccounts) (s : State) :
    Ensures (openOtcUser a s) fun p => Quiet s p.2 := by
  unfold openOtcUser
  split
  · simp only [ensures_bind, ensures_pure]
    exact Ensures.mono (createAccount_quiet s _ _ _) fun _ h => h.2
  · simp only [ensures_bind, ensures_fromOption, ensures_require, ensures_pure]
    exact fun _ _ _ => Quiet.refl s

/-- The buyer's stake is opened and filled. -/
theorem openOtcStake_spec (clock : Clock) (args : OtcTradeArgs) (a : OtcTradeAccounts)
    (otcTreasuryTokens : ℕ) (s : State) (hstake : a.stakeInfo.key =
      .stakeV2Pda a.buyerInfo.key args.stakeId) (hvault : ¬ IsVault a.otcTreasuryTokensInfo.key) :
    Ensures (openOtcStake clock args a otcTreasuryTokens s) fun r => StakeStep s r.2 0 0 ∧
      ∃ x : StakeV2Account, s.stakesV2.get x.address = none ∧
        r.2.stakesV2 = s.stakesV2.put x ∧ x.stake.Fresh clock ∧
        x.stake.Uncredited s.treasury.stakeRewardsFactor := by
  simp only [openOtcStake, ensures_bind, ensures_require, ensures_pure]
  refine Ensures.mono (State.createAccount_spec s _ _ _) ?_
  rintro _ ⟨hempty, l, rfl, -, hl⟩ _
  have hget := (State.noData hempty).stakesV2
  have hcreate : Quiet s { s with lamports := l } :=
    quiet_lamports (hl.mono fun _ => isDerived_of_isRound)
  refine Ensures.mono ((create_spec _ _ _ _ _ _).and (StakeV2.updateRewards_kept _ _))
    fun x hx => ?_
  obtain ⟨⟨hunits, hrewards⟩, hcreated, -⟩ := hx
  refine Ensures.mono (State.openTokenAccount_spec _ _ _ _ _) ?_
  rintro _ ⟨-, l', tok, rfl, hl', htok⟩
  refine Ensures.mono ((StakeV2.deposit_spec _ _ _ _ _).and (StakeV2.deposit_kept _ _ _ _ _)) ?_
  rintro ⟨paid, x', t⟩ ⟨⟨hweighs, hturn⟩, hfilled⟩ _
  rw [hstake] at hget
  have hstep := hcreate.step (create_step (s := { s with lamports := l })
    (a := StakeV2Account.derived a.buyerInfo.key args.stakeId x) hget hunits hrewards hweighs hl'
    htok hturn)
  refine Ensures.mono (transferTokens_quiet _ _ hvault) fun s₂ hs₂ => ⟨hstep.quiet hs₂, ?_⟩
  exact ⟨.derived a.buyerInfo.key args.stakeId x', hget,
    hs₂.stakes.stakesV2.trans (Store.put_put _ rfl), create_fresh hcreated hfilled,
    hfilled.uncredited (hcreated.uncredited (create_uncredited _ _ _ _ _ _))⟩

/-- The bonus is brought in and credited, or the miner is written back as it was. -/
theorem payOtcBonus_spec {args : OtcTradeArgs} {a : OtcTradeAccounts} {m : Miner} {s : State}
    (hm : InHand s m) (hauth : m.authority = a.buyerInfo.key)
    (hvault : ¬ IsVault a.otcTreasuryTokensInfo.key)
    (hkey : a.treasuryTokensInfo.key = treasuryTokensAddress) :
    Ensures (payOtcBonus args a m s) fun r =>
      ∀ s', s' = { r.2 with miners := r.2.miners.put r.1 } →
        Traded s s' args.godlBonus 0 ∧ KeepsFunds s s' 0 ∧
        balances s.tokens treasuryTokensAddress + args.godlBonus ≤
          balances s'.tokens treasuryTokensAddress ∧ s'.stakesV2 = s.stakesV2 := by
  simp only [payOtcBonus, ensures_ite, ensures_bind, ensures_pure]
  refine ⟨fun _ => ?_, fun hzero => ?_⟩
  · have hne : treasuryTokensAddress ≠ a.otcTreasuryTokensInfo.key :=
      fun h => hvault (.inl h.symm)
    refine Ensures.mono ((transferTokens_quiet _ _ hvault).and
      (State.transferTokens_spec _ _ _ _)) ?_
    rintro _ ⟨hquiet, tok, rfl, htok, -⟩
    have hbrought := htok.balance treasuryTokensAddress
    rw [if_neg hne, if_pos hkey.symm] at hbrought
    have hm' : InHand { s with tokens := tok } m := hm.of_same rfl rfl
    refine Ensures.mono (creditUnrefined_spec hm' hauth) ?_
    rintro ⟨m', s₁⟩ ⟨-, h⟩ s' hs'
    obtain ⟨htraded, hfunds, hstakes⟩ := h s' hs'
    have htokens := hfunds.treasuryTokens
    refine ⟨(Drains.stakeStep hquiet).then_traded htraded, hquiet.funds.trans hfunds, ?_,
      hstakes⟩
    dsimp only at htokens
    omega
  · rintro s' rfl
    have hquiet := hm.put_quiet
    rw [Nat.eq_zero_of_not_pos hzero]
    exact ⟨hquiet.traded, hquiet.funds, le_refl _, rfl⟩

theorem checkOtcTrade_spec (clock : Clock) (args : OtcTradeArgs) (a : OtcTradeAccounts)
    (s : State) :
    Ensures (checkOtcTrade clock args a s) fun _ =>
      a.minerInfo.key = .minerPda a.buyerInfo.key ∧
      a.otcTreasuryTokensInfo.key = otcTreasuryTokensAddress ∧
      a.treasuryTokensInfo.key = treasuryTokensAddress ∧
      a.stakeInfo.key = .stakeV2Pda a.buyerInfo.key args.stakeId := by
  simp only [checkOtcTrade, ensures_bind, ensures_require, ensures_fromOption, ensures_pure]
  intro _ _ _ _ _ hminer _ _ _ hotc _ hotcTokens _ _ _ htreasury _ htokens _ _ _ hstake _ _ _
    _ _ _ _ _ _ _ _
  rw [hotc] at hotcTokens
  rw [htreasury] at htokens
  exact ⟨hminer, hotcTokens, htokens, hstake⟩

/-- **A trade opens a stake and credits the bonus that it brings in.** -/
theorem processExecuteOtcTrade_spec (clock : Clock) (args : OtcTradeArgs) (a : OtcTradeAccounts)
    (s : State) :
    Ensures (processExecuteOtcTrade clock args a s) fun s' =>
      Traded s s' args.godlBonus 0 ∧ KeepsFunds s s' 0 ∧
        balances s.tokens treasuryTokensAddress + args.godlBonus ≤
          balances s'.tokens treasuryTokensAddress ∧
        ∀ compounds merges, StakesV2Step clock compounds merges s s' := by
  simp only [processExecuteOtcTrade, ensures_bind, ensures_addU64, ensures_require,
    ensures_fromOption, ensures_pure]
  refine Ensures.mono (checkOtcTrade_spec clock args a s) ?_
  rintro n ⟨hminer, hotc, htokens, hstake⟩
  have hvault : ¬ IsVault a.otcTreasuryTokensInfo.key := by
    rw [hotc]
    exact tokens_not_isVault (by simp) (by simp)
  refine Ensures.mono (bookOtcTrade_quiet args a n s) fun s₁ hs₁ => ?_
  refine Ensures.mono (openMiner_inHand hminer) ?_
  rintro ⟨m, s₂⟩ ⟨hs₂, hauth, hm⟩
  refine Ensures.mono (openOtcUser_quiet a s₂) ?_
  rintro ⟨u, s₃⟩ hs₃
  refine Ensures.mono (openOtcStake_spec clock args a n s₃ hstake hvault) ?_
  rintro ⟨x, s₄⟩ ⟨hs₄, b, hget, hput, hfresh, huncredited⟩
  have hm₄ : InHand s₄ m := by
    refine hm.of_same ?_ ?_
    · exact hs₄.ledger.ledgers.trans hs₃.ledger.ledgers
    · exact hs₄.game.wagers.trans hs₃.game.wagers
  have hstep : StakeStep s s₄ 0 0 := ((hs₁.trans hs₂).trans hs₃).step hs₄
  refine Ensures.mono (payOtcBonus_spec hm₄ hauth hvault htokens) ?_
  rintro ⟨m', s₅⟩ h _ _ _ _ _ _ _
  obtain ⟨htraded, hfunds, hbrought, hstakes⟩ := h _ rfl
  have hlast : Quiet { s₅ with miners := s₅.miners.put m' } { s₅ with
      miners := s₅.miners.put m'
      otcUsers := s₅.otcUsers.put ⟨u.authority, u.totalSolIn + args.solIn,
        u.totalGodlOut + args.godlOut, u.totalGodlBonus + args.godlBonus⟩ } :=
    quiet_of_eq rfl rfl rfl rfl rfl rfl rfl rfl rfl rfl (.of_eq rfl rfl rfl rfl)
  refine ⟨(hstep.then_traded htraded).drains hlast,
    (hstep.funds.trans hfunds).trans hlast.funds, ?_, fun compounds merges => ?_⟩
  · have htreasury := hstep.funds.treasuryTokens
    dsimp only at hbrought ⊢
    omega
  · have hbefore : s₃.stakesV2 = s.stakesV2 :=
      ((hs₁.trans hs₂).trans hs₃).stakes.stakesV2
    have hfactor : s₃.treasury.stakeRewardsFactor = s.treasury.stakeRewardsFactor :=
      ((hs₁.trans hs₂).trans hs₃).stakes.factor
    refine .created (a := b) ?_ ?_ hfresh ?_
    · rw [← hbefore, hget]
    · rw [← hbefore, ← hput]
      exact hstakes
    · rw [← hfactor]
      exact huncredited

end Godl
