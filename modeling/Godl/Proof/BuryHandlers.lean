import Godl.Proof.StakeHandlers

/-!
# Burying

A bury credits a share of the GODL it handles to the stakers, by raising their factor,
and gives the rest away.  What it shares is in the event it logs.  A bury that buys the
GODL first leaves the share in the treasury on top of what was there.

## Main definitions

* `Buried s s' shared` — what a bury does that shares `shared`.
-/

namespace Godl

open Lib

/-- What a bury does to the books: it shares `shared` with the stakers. -/
structure Buried (s s' : State) (shared : ℕ) : Prop where
  event : ∃ buried sol supply ts, s'.events = .bury buried shared sol supply ts :: s.events
  stakes : s'.stakes = s.stakes
  stakesV2 : s'.stakesV2 = s.stakesV2
  totalStaked : s'.treasury.totalStaked = s.treasury.totalStaked
  factor : s'.treasury.stakeRewardsFactor.bits =
    s.treasury.stakeRewardsFactor.bits + shared * factorScale / s.treasury.totalStaked
  ledger : SameLedger s s'
  gold : SameGold s s'
  game : SameGame s s'
  motherlode : s'.treasury.motherlode = s.treasury.motherlode
  opened : ∀ w, s.opened w = true → s'.opened w = true
  rounds : Grew IsRound s.lamports s'.lamports
  goldTokens : balances s.tokens goldVaultXautAddress ≤ balances s'.tokens goldVaultXautAddress
  supply : s'.mintSupply ≤ s.mintSupply

variable {s s' s'' : State}

/-- Without stakers there is nothing to share. -/
theorem stakersShare_spec (amount : ℕ) (s : State) :
    Ensures (stakersShare amount s) fun shared => s.treasury.totalStaked = 0 → shared = 0 := by
  simp only [stakersShare, ensures_ite, ensures_bind, ensures_mulU64, ensures_pure]
  exact ⟨fun hpos _ hzero => by omega, fun _ _ => trivial⟩

/-- The rest leaves the treasury, and nothing else changes. -/
theorem buryRest_spec {a : BuryAccounts} (burnAmount : ℕ)
    (h : a.treasuryGodlInfo.key ≠ goldVaultXautAddress) :
    Ensures (buryRest a burnAmount s) fun r =>
      Drains s r.2 burnAmount ∧ r.2.events = s.events := by
  simp only [buryRest, ensures_ite, ensures_bind, ensures_pure]
  refine ⟨fun _ => ⟨fun _ => ?_, fun _ => ?_⟩, fun hzero => ⟨?_, trivial⟩⟩
  · refine Ensures.mono ((transferTokens_drains _ _ h).and (State.transferTokens_spec _ _ _ _)) ?_
    rintro _ ⟨hs, tok, rfl, -⟩
    exact ⟨hs, rfl⟩
  · refine Ensures.mono ((burnTokens_drains _ h).and (State.burnTokens_spec _ _ _)) ?_
    rintro _ ⟨hs, tok, rfl, -⟩
    exact ⟨hs, rfl⟩
  · rw [Nat.eq_zero_of_not_pos hzero]
    exact Quiet.refl s

/-- Raising the factor, possibly by nothing, and giving the rest away. -/
theorem buried_of_raise {factor : Numeric} {shared burnAmount : ℕ} {e : Event}
    (hfactor : factor.bits =
      s.treasury.stakeRewardsFactor.bits + shared * factorScale / s.treasury.totalStaked)
    (hdrain : Drains { s with treasury := { s.treasury with stakeRewardsFactor := factor } } s'
      burnAmount)
    (hevents : s'.events = s.events) (he : ∃ buried sol supply ts, e = .bury buried shared sol
      supply ts) :
    Buried s (s'.programLog e) shared ∧ balances s.tokens treasuryTokensAddress ≤
      balances s'.tokens treasuryTokensAddress + burnAmount := by
  obtain ⟨buried, sol, supply, ts, rfl⟩ := he
  refine ⟨⟨⟨buried, sol, supply, ts, ?_⟩, hdrain.stakes.stakes, hdrain.stakes.stakesV2,
    hdrain.stakes.totalStaked, ?_, ?_, ?_, ?_, hdrain.motherlode, hdrain.funds.opened,
    hdrain.funds.rounds, hdrain.funds.goldTokens, hdrain.funds.supply⟩,
    hdrain.funds.treasuryTokens⟩
  · rw [State.programLog, hevents]
  · rw [← hfactor]
    exact congrArg Fixed.bits hdrain.stakes.factor
  · exact ⟨hdrain.ledger.ledgers, hdrain.ledger.factor, hdrain.ledger.totalUnclaimed,
      hdrain.ledger.totalRefined⟩
  · exact ⟨hdrain.gold.minersExtended, hdrain.gold.goldVault⟩
  · exact ⟨hdrain.game.board, hdrain.game.rounds, hdrain.game.poolRounds, hdrain.game.wagers,
      hdrain.game.members⟩

/-- An amount is buried: what is not shared leaves the treasury at most. -/
theorem buryShares_spec (clock : Clock) {a : BuryAccounts} (raiseByZero : Bool)
    (amount solAmount : ℕ) (h : a.treasuryGodlInfo.key ≠ goldVaultXautAddress) (s : State) :
    Ensures (buryShares clock a raiseByZero amount solAmount s) fun s' =>
      ∃ shared, shared ≤ amount ∧ Buried s s' shared ∧
        balances s.tokens treasuryTokensAddress ≤
          balances s'.tokens treasuryTokensAddress + (amount - shared) := by
  simp only [buryShares, raiseStakeFactor, ensures_bind, ensures_ite, ensures_pure,
    Fixed.ensures_ofFraction, Fixed.ensures_add, ensures_mulU64, ensures_subU64]
  refine Ensures.mono (stakersShare_spec amount s) fun shared hshared => ?_
  -- The admin's share is a constant zero.
  have hadmin : amount * adminBps / denominatorBps = 0 := by simp
  simp only [hadmin, Nat.sub_zero]
  have hrest : ∀ factor : Numeric, factor.bits = s.treasury.stakeRewardsFactor.bits +
      shared * factorScale / s.treasury.totalStaked → shared ≤ amount →
      Ensures (buryRest a (amount - shared)
        { s with treasury := { s.treasury with stakeRewardsFactor := factor } }) fun r =>
        ∃ shared', shared' ≤ amount ∧ Buried s (r.2.programLog (.bury r.1 shared solAmount
          r.2.mintSupply clock.unixTimestamp)) shared' ∧
          balances s.tokens treasuryTokensAddress ≤ balances (r.2.programLog (.bury r.1 shared
            solAmount r.2.mintSupply clock.unixTimestamp)).tokens treasuryTokensAddress +
              (amount - shared') := by
    intro factor hfactor hle
    refine Ensures.mono (buryRest_spec _ h) fun r hr => ⟨shared, hle, ?_⟩
    obtain ⟨hdrain, hevents⟩ := hr
    exact buried_of_raise hfactor hdrain hevents ⟨_, _, _, _, rfl⟩
  refine ⟨fun _ _ _ _ => ⟨fun hzero => absurd hzero (lt_irrefl 0), fun _ hle _ => ?_⟩,
    fun hskip _ => ⟨fun hzero => absurd hzero (lt_irrefl 0), fun _ hle _ => ?_⟩⟩
  · exact hrest ⟨_⟩ (by rw [factorScale_eq]) hle
  · refine hrest s.treasury.stakeRewardsFactor ?_ hle
    -- The raise was skipped because there are no stakers or because nothing is shared.
    have hzero : shared = 0 := by
      by_contra hne
      exact hskip ⟨Nat.pos_of_ne_zero fun h => hne (hshared h), .inr (Nat.pos_of_ne_zero hne)⟩
    simp [hzero]

theorem checkBuryAccounts_spec (a : BuryAccounts) (s : State) :
    Ensures (checkBuryAccounts a s) fun n =>
      a.treasuryGodlInfo.key = treasuryTokensAddress ∧ a.treasuryInfo.key = .treasuryPda ∧
      balances s.tokens treasuryTokensAddress = n := by
  simp only [checkBuryAccounts, ensures_bind, ensures_require, ensures_fromOption, ensures_ite,
    ensures_pure]
  intro _ _ _ _ _ htreasury hkey n hn _ _ _ _ _
  have hgodl : a.treasuryGodlInfo.key = treasuryTokensAddress := by
    rw [hkey, htreasury.1]
    rfl
  have hbalance : balances s.tokens treasuryTokensAddress = n := by
    rw [← hgodl]
    exact balances_of_eq hn
  exact ⟨fun _ _ _ _ _ _ _ _ => ⟨hgodl, htreasury.1, hbalance⟩,
    fun _ _ _ => ⟨hgodl, htreasury.1, hbalance⟩⟩

/-- Burying tokens the treasury already holds takes them out of it. -/
theorem processBuryTokens_spec (clock : Clock) (amount : ℕ) (a : BuryAccounts) (s : State) :
    Ensures (processBuryTokens clock amount a s) fun s' => ∃ shared, Buried s s' shared := by
  simp only [processBuryTokens, ensures_bind, ensures_require]
  refine Ensures.mono (checkBuryAccounts_spec a s) fun n hn _ _ => ?_
  obtain ⟨hkey, _, _⟩ := hn
  refine Ensures.mono (buryShares_spec clock false amount 0 (by simp [hkey]) s) ?_
  rintro s' ⟨shared, -, hburied, -⟩
  exact ⟨shared, hburied⟩

theorem Buried.after_quiet {shared : ℕ} (h : Quiet s s') (hevents : s'.events = s.events)
    (h' : Buried s' s'' shared) : Buried s s'' shared := by
  obtain ⟨buried, sol, supply, ts, hevent⟩ := h'.event
  refine ⟨⟨buried, sol, supply, ts, by rw [hevent, hevents]⟩, h'.stakes.trans h.stakes.stakes,
    h'.stakesV2.trans h.stakes.stakesV2, h'.totalStaked.trans h.stakes.totalStaked, ?_,
    h.ledger.trans h'.ledger, h.gold.trans h'.gold, h.game.trans h'.game,
    h'.motherlode.trans h.motherlode, fun w hw => h'.opened w (h.funds.opened w hw),
    h.funds.rounds.trans h'.rounds, h.funds.goldTokens.trans h'.goldTokens,
    h'.supply.trans h.funds.supply⟩
  rw [h'.factor, h.stakes.factor, h.stakes.totalStaked]

/-- A bury that buys the GODL first leaves what it shares in the treasury. -/
theorem processBury_spec (clock : Clock) (a : BuryAccounts) (treasurySolInfo : AccountInfo)
    (cpi : Cpi) (s : State) :
    Ensures (processBury clock a treasurySolInfo cpi s) fun s' =>
      ∃ shared, Buried s s' shared ∧ balances s.tokens treasuryTokensAddress + shared ≤
        balances s'.tokens treasuryTokensAddress := by
  simp only [processBury, ensures_bind, ensures_require, ensures_fromOption, ensures_subU64]
  refine Ensures.mono (checkBuryAccounts_spec a s) fun n hn hsol _ _ => ?_
  obtain ⟨hkey, htreasury, hn⟩ := hn
  have hsol' : treasurySolInfo.key = treasurySolAddress := by rw [hsol, htreasury]
  refine Ensures.mono (State.syncNative_spec s _) ?_
  rintro _ ⟨tok, rfl, htok⟩ _ _ _ _ swap _ _ hsupply hle _
  have hvault : ¬ IsVault treasurySolInfo.key := by
    rw [hsol']
    simp [IsVault]
  have hsync : Quiet s { s with tokens := tok } :=
    quiet_tokens fun k hk => (htok k fun h => hvault (h ▸ hk)).ge
  have hn' : balances tok treasuryTokensAddress = n := by
    rw [htok _ (by rw [hsol']; simp), hn]
  -- The swap touches the treasury's two token accounts and the treasury's own lamports.
  have hquiet : Quiet s (({ s with tokens := tok } : State).applySwap a.treasuryInfo.key
      treasurySolInfo.key a.treasuryGodlInfo.key swap) := by
    refine hsync.trans (applySwap_quiet ?_ ?_ hvault ?_ ?_)
    · simp [htreasury, IsRound]
    · simp [hsol', IsRound]
    · rw [hkey, hn']
      exact hle
    · exact hsupply.le
  refine Ensures.mono (buryShares_spec clock true (swap.tokenBalance - n) _ (by simp [hkey]) _) ?_
  rintro s' ⟨shared, hshared, hburied, htokens⟩
  refine ⟨shared, Buried.after_quiet hquiet rfl hburied, ?_⟩
  have hafter : balances (({ s with tokens := tok } : State).applySwap a.treasuryInfo.key
      treasurySolInfo.key a.treasuryGodlInfo.key swap).tokens treasuryTokensAddress =
      swap.tokenBalance := by
    rw [State.applySwap, hkey, balances_update_some]
  omega

/-! ## The totals of the treasury -/

/-- GODL was paid into the motherlode. -/
structure MotherlodeInjected (s s' : State) (amount : ℕ) : Prop where
  stakes : SameStakes s s'
  ledger : SameLedger s s'
  gold : SameGold s s'
  game : SameGame s s'
  motherlode : s'.treasury.motherlode = s.treasury.motherlode + amount
  funds : KeepsFunds s s' 0
  brought : balances s.tokens treasuryTokensAddress + amount ≤
    balances s'.tokens treasuryTokensAddress

theorem processInjectGodlMotherlode_spec (amount : ℕ) (signerInfo treasuryInfo signerTokensInfo
    treasuryTokensInfo tokenProgram : AccountInfo) (s : State) :
    Ensures (processInjectGodlMotherlode amount signerInfo treasuryInfo signerTokensInfo
      treasuryTokensInfo tokenProgram s) (MotherlodeInjected s · amount) := by
  simp only [processInjectGodlMotherlode, State.transferTokensFrom, ensures_bind,
    ensures_require, ensures_fromOption, ensures_addU64, ensures_pure]
  intro hsigner _ _ htreasury _ hsigned _ _ _ htokens _ _ _ _ _
  have hvault : ¬ IsVault signerTokensInfo.key := by
    rw [hsigned]
    exact signerTokens_not_isVault hsigner _
  have hkey : treasuryTokensInfo.key = treasuryTokensAddress := by
    rw [htokens, htreasury.1]
    rfl
  have hne : treasuryTokensAddress ≠ signerTokensInfo.key := fun h => hvault (.inl h.symm)
  refine Ensures.mono ((transferTokens_quiet _ _ hvault).and (State.transferTokens_spec _ _ _ _))
    ?_
  rintro _ ⟨hquiet, tok, rfl, htok, -⟩ _
  have hbrought := htok.balance treasuryTokensAddress
  rw [if_neg hne, if_pos hkey.symm] at hbrought
  exact ⟨⟨rfl, rfl, rfl, rfl⟩, ⟨rfl, rfl, rfl, rfl⟩, ⟨rfl, rfl⟩, ⟨rfl, rfl, rfl, rfl, rfl⟩, rfl,
    hquiet.funds.same rfl rfl rfl rfl, hbrought.ge⟩

theorem processRebaseTotalStaked_spec (expected newValue : ℕ)
    (signerInfo configInfo treasuryInfo : AccountInfo) (s : State) :
    Ensures (processRebaseTotalStaked expected newValue signerInfo configInfo treasuryInfo s)
      fun s' => s' = { s with treasury := { s.treasury with totalStaked := newValue } } := by
  simp only [processRebaseTotalStaked, ensures_bind, ensures_pure]
  exact ensures_of_forall fun _ => trivial

theorem processRebaseTotalUnclaimed_spec (expected newValue : ℕ)
    (signerInfo configInfo treasuryInfo : AccountInfo) (s : State) :
    Ensures (processRebaseTotalUnclaimed expected newValue signerInfo configInfo treasuryInfo s)
      fun s' => s' = { s with treasury := { s.treasury with totalUnclaimed := newValue } } := by
  simp only [processRebaseTotalUnclaimed, ensures_bind, ensures_pure]
  exact ensures_of_forall fun _ => trivial

/-- The program is set up once: the treasury may not exist yet. -/
theorem processInitialize_spec (admin buryAuthority feeCollector : Pubkey) (godlPerRound : ℕ)
    (signerInfo configInfo treasuryInfo boardInfo roundInfo systemProgram : AccountInfo)
    (s : State) :
    Ensures (processInitialize admin buryAuthority feeCollector godlPerRound signerInfo configInfo
      treasuryInfo boardInfo roundInfo systemProgram s) fun _ => s.opened .treasury = false := by
  simp only [processInitialize, checkFresh, ensures_bind, ensures_require]
  intro _ _ _ _ _ _ _ hempty _ hkey _ _ _ _ _ _
  refine ensures_of_forall fun _ => ensures_of_forall fun _ => ensures_of_forall fun _ =>
    ensures_of_forall fun _ => ?_
  by_contra hopen
  refine hopen (ensures_pure.2 ?_)
  by_contra hne
  exact (State.noData hempty).opened .treasury (by simpa using hne) hkey

end Godl
