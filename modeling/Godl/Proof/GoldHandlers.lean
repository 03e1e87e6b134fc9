import Godl.Proof.LedgerHandlers

/-!
# Instructions on gold

A distribution raises the vault's factor by what came in, a claim pays out what an
extended account accrued.  Opening an extended account by itself changes nothing that
anyone is owed.

## Main definitions

* `GoldDistributed s s' xaut` — XAUt0 came in and was shared, or parked.
* `GoldClaimed s s' paid` — XAUt0 was paid out.
-/

namespace Godl

open Lib

variable {s s' s'' : State} {n : ℕ}

/-- XAUt0 came into the vault and was distributed, or parked until there are holders. -/
structure GoldDistributed (s s' : State) (xaut : ℕ) : Prop where
  vault : s.goldVault.Distributed xaut s.treasury.totalUnclaimed s'.goldVault
  received : balances s'.tokens goldVaultXautAddress =
    balances s.tokens goldVaultXautAddress + xaut
  minersExtended : s'.minersExtended = s.minersExtended
  stakes : SameStakes s s'
  ledger : SameLedger s s'
  game : SameGame s s'
  motherlode : s'.treasury.motherlode = s.treasury.motherlode
  opened : ∀ w, s.opened w = true → s'.opened w = true
  rounds : Grew IsRound s.lamports s'.lamports
  treasuryTokens : balances s.tokens treasuryTokensAddress ≤
    balances s'.tokens treasuryTokensAddress
  supply : s'.mintSupply ≤ s.mintSupply

/-- XAUt0 was paid out of the vault. -/
structure GoldClaimed (s s' : State) (paid : ℕ) : Prop where
  gold : GoldStep s s' paid
  paid : balances s.tokens goldVaultXautAddress =
    balances s'.tokens goldVaultXautAddress + paid
  stakes : SameStakes s s'
  ledger : SameLedger s s'
  game : SameGame s s'
  motherlode : s'.treasury.motherlode = s.treasury.motherlode
  opened : ∀ w, s.opened w = true → s'.opened w = true
  rounds : Grew IsRound s.lamports s'.lamports
  treasuryTokens : balances s.tokens treasuryTokensAddress ≤
    balances s'.tokens treasuryTokensAddress
  supply : s'.mintSupply ≤ s.mintSupply

/-! ## Opening an extended account -/

theorem ExtendedOpened.traded {authority : Pubkey} {extended : Option MinerExtended}
    (h : ExtendedOpened authority s s' extended) : Traded s s' 0 0 := by
  obtain ⟨l, t, rfl, hl⟩ := h.change
  refine ⟨SameStakes.restaked ⟨rfl, rfl, rfl, rfl⟩, SameLedger.step ⟨rfl, rfl, rfl, rfl⟩, ?_,
    ⟨rfl, rfl, rfl, rfl, rfl⟩, rfl⟩
  exact h.goldStep

theorem ExtendedOpened.funds {authority : Pubkey} {extended : Option MinerExtended}
    (h : ExtendedOpened authority s s' extended) : KeepsFunds s s' 0 := by
  obtain ⟨l, t, rfl, hl⟩ := h.change
  exact ⟨fun _ hw => hw, hl.mono fun _ => isDerived_of_isRound, le_refl _, le_refl _,
    le_refl _⟩

theorem processCreateMinerExtended_spec (signerInfo minerInfo minerExtendedInfo goldVaultInfo
    systemProgram : AccountInfo) (s : State) :
    Ensures (processCreateMinerExtended signerInfo minerInfo minerExtendedInfo goldVaultInfo
      systemProgram s) fun s' =>
        Traded s s' 0 0 ∧ KeepsFunds s s' 0 ∧ s'.stakesV2 = s.stakesV2 := by
  simp only [processCreateMinerExtended, ensures_bind, ensures_require, ensures_fromOption,
    ensures_pure]
  intro _ m _ _ _ _ _
  refine Ensures.mono (loadOrCreateMinerExtended_spec _ _ _ _ _) ?_
  rintro ⟨extended, s₁⟩ ⟨hopen, -⟩
  refine ⟨hopen.traded, hopen.funds, ?_⟩
  obtain ⟨l, t, rfl, -⟩ := hopen.change
  rfl

/-- The vault comes into being, empty; until then nobody has seen it. -/
structure GoldOpened (s s' : State) : Prop where
  closed : s.opened .goldVault = false
  stakes : SameStakes s s'
  ledger : SameLedger s s'
  game : SameGame s s'
  motherlode : s'.treasury.motherlode = s.treasury.motherlode
  funds : KeepsFunds s s' 0

theorem processInitializeGoldVault_spec (signerInfo goldVaultInfo goldVaultSolInfo
    goldVaultXautInfo solMintInfo xautMintInfo systemProgram tokenProgram
    associatedTokenProgram : AccountInfo) (s : State) :
    Ensures (processInitializeGoldVault signerInfo goldVaultInfo goldVaultSolInfo
      goldVaultXautInfo solMintInfo xautMintInfo systemProgram tokenProgram associatedTokenProgram
      s) (GoldOpened s) := by
  simp only [processInitializeGoldVault, ensures_bind, ensures_require]
  intro _ _ hempty _ hkey _ _ _ _ _ _ _
  have hclosed : s.opened .goldVault = false := by
    by_contra hopen
    exact (State.noData hempty).opened .goldVault (by simpa using hopen) hkey
  refine Ensures.mono (createAccount_quiet s _ _ _) fun s₁ hs₁ => ?_
  obtain ⟨_, hs₁⟩ := hs₁
  refine Ensures.mono (openTokenAccount_quiet _ _ _ _ _) fun s₂ hs₂ => ?_
  obtain ⟨_, hs₂⟩ := hs₂
  refine Ensures.mono (openTokenAccount_quiet _ _ _ _ _) fun s₃ hs₃ => ?_
  obtain ⟨_, hs₃⟩ := hs₃
  have hlast := Quiet.trans hs₂ hs₃
  have hopen : KeepsFunds s₁ { s₁ with
      opened := Function.update s₁.opened .goldVault true
      goldVault := ⟨Fixed.zero, 0, 0, 0, 0⟩ } 0 := by
    refine ⟨fun w hw => ?_, Grew.refl _ _, le_refl _, le_refl _, le_refl _⟩
    by_cases h : w = .goldVault
    · simp [h]
    · simpa [h] using hw
  have hfirst := hs₁.funds.trans hopen
  refine ⟨hclosed, ?_, ?_, ?_, ?_, hfirst.trans hlast.funds⟩
  · exact hs₁.stakes.trans ⟨hlast.stakes.stakes, hlast.stakes.stakesV2, hlast.stakes.totalStaked,
      hlast.stakes.factor⟩
  · exact hs₁.ledger.trans ⟨hlast.ledger.ledgers, hlast.ledger.factor,
      hlast.ledger.totalUnclaimed, hlast.ledger.totalRefined⟩
  · exact hs₁.game.trans ⟨hlast.game.board, hlast.game.rounds, hlast.game.poolRounds,
      hlast.game.wagers, hlast.game.members⟩
  · exact hlast.motherlode.trans hs₁.motherlode

/-! ## Distributions -/

/-- The vault books what came in. -/
theorem goldDistributed_of_quiet {xaut : ℕ} {v : GoldVault} {e : Event} (h : Quiet s s')
    (hv : s.goldVault.Distributed xaut s.treasury.totalUnclaimed v)
    (hreceived : balances s'.tokens goldVaultXautAddress =
      balances s.tokens goldVaultXautAddress + xaut) :
    GoldDistributed s (({ s' with goldVault := v } : State).programLog e) xaut :=
  ⟨hv, hreceived, h.gold.minersExtended,
    ⟨h.stakes.stakes, h.stakes.stakesV2, h.stakes.totalStaked, h.stakes.factor⟩,
    ⟨h.ledger.ledgers, h.ledger.factor, h.ledger.totalUnclaimed, h.ledger.totalRefined⟩,
    ⟨h.game.board, h.game.rounds, h.game.poolRounds, h.game.wagers, h.game.members⟩,
    h.motherlode, h.funds.opened, h.funds.rounds, h.funds.treasuryTokens, h.funds.supply⟩

theorem processBuyGold_spec (clock : Clock) (minXautOut : ℕ) (signerInfo boardInfo configInfo
    treasuryInfo goldVaultInfo goldVaultSolInfo goldVaultXautInfo xautMintInfo tokenProgram
    godlProgram : AccountInfo) (cpi : Cpi) (s : State) :
    Ensures (processBuyGold clock minXautOut signerInfo boardInfo configInfo treasuryInfo
      goldVaultInfo goldVaultSolInfo goldVaultXautInfo xautMintInfo tokenProgram godlProgram cpi
      s) fun s' => legacyInstructionExpiryTs ≤ clock.unixTimestamp ∧
        ∃ xaut, GoldDistributed s s' xaut := by
  simp only [processBuyGold, ensures_bind, ensures_require, ensures_fromOption, ensures_addU64,
    ensures_pure]
  intro hexpiry _ _ _ _ _ _ hvault _ _ hsol _ _ _ hxaut _ _ _ _ _
  have hsol' : goldVaultSolInfo.key = goldVaultSolAddress := by rw [hsol, hvault]
  have hxaut' : goldVaultXautInfo.key = goldVaultXautAddress := by rw [hxaut, hvault]
  refine Ensures.mono (State.syncNative_spec s _) ?_
  rintro _ ⟨tok, rfl, htok⟩ _ _ _ _ n hn _ swap _ _ _ hle _
  have hne : goldVaultXautAddress ≠ goldVaultSolInfo.key := by
    rw [hsol']
    decide
  have hnotVault : ¬ IsVault goldVaultSolInfo.key := by
    rw [hsol']
    simp [IsVault]
  have hsync : Quiet s { s with tokens := tok } :=
    quiet_tokens fun k hk => (htok k fun h => hnotVault (h ▸ hk)).ge
  have hn' : balances s.tokens goldVaultXautAddress = n := by
    rw [← htok _ hne, ← hxaut']
    exact balances_of_eq hn
  -- The swap touches the vault's two token accounts and the vault's own lamports.
  have hquiet : Quiet s (({ s with tokens := tok } : State).applySwap goldVaultInfo.key
      goldVaultSolInfo.key goldVaultXautInfo.key { swap with supply := s.mintSupply }) := by
    refine hsync.trans (applySwap_quiet ?_ ?_ hnotVault ?_ (le_refl _))
    · simp [hvault, IsRound]
    · simp [hsol', IsRound]
    · rw [hxaut', htok _ hne, hn']
      exact hle
  refine Ensures.mono (GoldVault.distribute_spec _ _ _) ?_
  rintro ⟨distributed, v⟩ hdistributed _
  refine ⟨hexpiry, swap.tokenBalance - n, goldDistributed_of_quiet hquiet ?_ ?_⟩
  · exact ⟨hdistributed.claimed, hdistributed.booked, hdistributed.grows, hdistributed.factor⟩
  · rw [State.applySwap, hxaut', balances_update_some, hn']
    dsimp only
    omega

theorem processDepositGold_spec (clock : Clock) (amount : ℕ) (signerInfo boardInfo configInfo
    treasuryInfo goldVaultInfo signerXautInfo goldVaultXautInfo xautMintInfo tokenProgram
    godlProgram : AccountInfo) (s : State) :
    Ensures (processDepositGold clock amount signerInfo boardInfo configInfo treasuryInfo
      goldVaultInfo signerXautInfo goldVaultXautInfo xautMintInfo tokenProgram godlProgram s)
      fun s' => legacyInstructionExpiryTs ≤ clock.unixTimestamp ∧
        ∃ xaut, GoldDistributed s s' xaut := by
  simp only [processDepositGold, State.transferTokensFrom, ensures_bind, ensures_require,
    ensures_fromOption, ensures_pure]
  intro hexpiry hsigner _ _ _ _ _ hvault _ _ hsigned _ _ _ hxaut _ _ _ _ _ _ _
  have hxaut' : goldVaultXautInfo.key = goldVaultXautAddress := by rw [hxaut, hvault]
  have hnotVault : ¬ IsVault signerXautInfo.key := by
    rw [hsigned]
    exact signerTokens_not_isVault hsigner _
  have hne : goldVaultXautAddress ≠ signerXautInfo.key := fun h => hnotVault (.inr h.symm)
  refine Ensures.mono ((transferTokens_quiet _ _ hnotVault).and
    (State.transferTokens_spec _ _ _ _)) ?_
  rintro _ ⟨hquiet, tok, rfl, htok, -⟩
  have hreceived := htok.balance goldVaultXautAddress
  rw [if_neg hne, if_pos hxaut'.symm, Nat.add_zero] at hreceived
  refine Ensures.mono (GoldVault.distribute_spec _ _ _) ?_
  rintro ⟨distributed, v⟩ hdistributed
  exact ⟨hexpiry, amount, goldDistributed_of_quiet hquiet hdistributed hreceived⟩

/-! ## Claims -/

/-- The write of a claim: the account is settled and emptied, the vault books it. -/
theorem goldStep_claim {authority : Pubkey} {e e' : MinerExtended} {v : GoldVault}
    (hopen : ExtendedOpened authority s s' (some e)) (hauth : e'.authority = authority)
    (hpos : e'.position (s.unrefined authority) =
      (e.position (s.unrefined authority)).settle goldScale s.goldVault.xautRewardsFactor.bits)
    (hlifetime : e'.lifetimeXaut = e.lifetimeXaut +
      (e.position (s.unrefined authority)).pending goldScale s.goldVault.xautRewardsFactor.bits)
    (hv : v = { s.goldVault with
      totalXautClaimed := s.goldVault.totalXautClaimed + e'.xautRewards }) :
    GoldStep s { s' with
      minersExtended := s'.minersExtended.put e'.claim.2, goldVault := v } e'.xautRewards := by
  subst hv
  obtain ⟨l, t, rfl, -⟩ := hopen.change
  have heauth := hopen.authority_eq
  have hget : t.get (MinerExtended.pda e'.claim.2) = some e := by
    have hpda : MinerExtended.pda e'.claim.2 = .minerExtendedPda authority := by
      rw [← hauth]
      rfl
    rw [hpda]
    exact hopen.get
  have hmark : e'.xautRewardsFactor.bits = s.goldVault.xautRewardsFactor.bits :=
    congrArg Position.mark hpos
  refine ⟨rfl, rfl, rfl, rfl, ?_, fun hup => ?_, fun a x hx => ?_⟩
  · have hsum := Store.sum_put_old (fun x : MinerExtended =>
      (x.position (s.unrefined x.authority)).owed goldScale s.goldVault.xautRewardsFactor.bits) hget
    have hsettle := Position.owed_settle_le goldScale s.goldVault.xautRewardsFactor.bits
      (e.position (s.unrefined authority))
    rw [← hpos] at hsettle
    -- Settled at the vault's factor, an account is owed what it has accrued.
    have howed : (e'.position (s.unrefined authority)).owed goldScale
        s.goldVault.xautRewardsFactor.bits = e'.xautRewards * goldScale := by
      rw [MinerExtended.position, hmark, Position.owed_of_mark]
    have hempty : (e'.claim.2.position (s.unrefined e'.claim.2.authority)).owed goldScale
        s.goldVault.xautRewardsFactor.bits = 0 := by
      have hclaimed : e'.claim.2.xautRewardsFactor.bits = s.goldVault.xautRewardsFactor.bits :=
        hmark
      rw [MinerExtended.position, hclaimed, Position.owed_of_mark]
      exact Nat.zero_mul _
    have hstart := hopen.owed s.unrefined
    dsimp only [State.goldOwedWith] at hstart
    simp only [heauth, hempty] at hsum
    show (t.put e'.claim.2).sum (fun x : MinerExtended =>
      (x.position (s.unrefined x.authority)).owed goldScale s.goldVault.xautRewardsFactor.bits) +
        e'.xautRewards * goldScale ≤ s.minersExtended.sum (fun x : MinerExtended =>
          (x.position (s.unrefined x.authority)).owed goldScale s.goldVault.xautRewardsFactor.bits)
    omega
  · exact Store.All.put (hopen.upToDate hup) hmark
  · have hpda : MinerExtended.pda e'.claim.2 = .minerExtendedPda authority := by
      rw [← hauth]
      rfl
    have hx' := hopen.kept _ x hx
    by_cases ha : a = authority
    · subst ha
      have hxe : x = e := Option.some.inj (hx'.symm.trans hopen.get)
      subst hxe
      refine ⟨e'.claim.2, ?_, .settled hmark hlifetime⟩
      rw [← hpda]
      exact Store.get_put_self t e'.claim.2
    · have hne : Pubkey.minerExtendedPda a ≠ MinerExtended.pda e'.claim.2 := by
        rw [hpda]
        simpa using ha
      exact ⟨x, (Store.get_put_of_ne t hne).trans hx', .refl _ _ _ _⟩

theorem processClaimGold_spec (signerInfo minerInfo minerExtendedInfo goldVaultInfo
    goldVaultXautInfo recipientInfo xautMintInfo systemProgram tokenProgram
    associatedTokenProgram : AccountInfo) (s : State) :
    Ensures (processClaimGold signerInfo minerInfo minerExtendedInfo goldVaultInfo
      goldVaultXautInfo recipientInfo xautMintInfo systemProgram tokenProgram
      associatedTokenProgram s) fun s' => ∃ paid, GoldClaimed s s' paid := by
  simp only [processClaimGold, ensures_bind, ensures_require, ensures_fromOption, ensures_addU64,
    ensures_ite, ensures_pure]
  intro hsigner m hm _ _ _ hvault _ _ hxaut _ _ _ _ _ _ _
  have hxaut' : goldVaultXautInfo.key = goldVaultXautAddress := by rw [hxaut, hvault]
  refine Ensures.mono (loadOrCreateMinerExtended_spec _ _ _ _ _) ?_
  rintro ⟨_, s₁⟩ ⟨hopen, -⟩ e rfl
  refine Ensures.mono (MinerExtended.updateRewards_spec e s₁.goldVault m.rewardsGodl) ?_
  rintro e' ⟨hauth, hpos, hlifetime⟩ _
  have hunits := unrefined_of_get hm
  have hopenFunds := hopen.funds
  obtain ⟨l, t, rfl, hl⟩ := id hopen.change
  have hgold := goldStep_claim hopen (hauth.trans hopen.authority_eq)
    (by rw [hunits]; exact hpos) (by rw [hunits]; exact hlifetime) rfl
  have hfunds : KeepsFunds s { s with
      lamports := l
      minersExtended := t.put e'.claim.2
      goldVault := { s.goldVault with
        totalXautClaimed := s.goldVault.totalXautClaimed + e'.xautRewards } } 0 :=
    hopenFunds.same rfl rfl rfl rfl
  refine ⟨fun hzero => ⟨e'.xautRewards, hgold, ?_, ⟨rfl, rfl, rfl, rfl⟩, ⟨rfl, rfl, rfl, rfl⟩,
    ⟨rfl, rfl, rfl, rfl, rfl⟩, rfl, hfunds.opened, hfunds.rounds, hfunds.treasuryTokens,
    hfunds.supply⟩, fun _ => ?_⟩
  · have hpaid : e'.xautRewards = 0 := hzero
    rw [hpaid, Nat.add_zero]
  · refine Ensures.mono ((openTokenAccount_quiet _ _ _ _ _).and
      (State.openTokenAccount_spec _ _ _ _ _)) ?_
    rintro s₃ ⟨⟨hrecipient, hquiet⟩, -, l₃, tok₃, hs₃, -, htok₃⟩
    have hne : goldVaultXautAddress ≠ recipientInfo.key := by
      rw [hrecipient]
      exact fun h => signerTokens_not_isVault hsigner _ (.inr h.symm)
    refine Ensures.mono (State.transferTokens_spec s₃ _ _ _) ?_
    rintro _ ⟨tok, rfl, htok, -⟩
    have hpaid := htok.balance goldVaultXautAddress
    rw [if_pos hxaut'.symm, if_neg hne, Nat.add_zero] at hpaid
    have hsame : balances s₃.tokens = balances s.tokens := by rw [hs₃]; exact htok₃
    have htreasury : balances s₃.tokens treasuryTokensAddress ≤
        balances tok treasuryTokensAddress := htok.le (by rw [hxaut']; decide)
    rw [hsame] at hpaid htreasury
    refine ⟨e'.xautRewards, ?_, hpaid.symm, ?_, ?_, ?_, ?_, ?_, ?_, htreasury,
      hquiet.funds.supply⟩
    · exact (hgold.same hquiet.gold hquiet.ledger.ledgers).same ⟨rfl, rfl⟩ rfl
    · exact ⟨hquiet.stakes.stakes, hquiet.stakes.stakesV2, hquiet.stakes.totalStaked,
        hquiet.stakes.factor⟩
    · exact ⟨hquiet.ledger.ledgers, hquiet.ledger.factor, hquiet.ledger.totalUnclaimed,
        hquiet.ledger.totalRefined⟩
    · exact ⟨hquiet.game.board, hquiet.game.rounds, hquiet.game.poolRounds, hquiet.game.wagers,
        hquiet.game.members⟩
    · exact hquiet.motherlode
    · exact fun w hw => hquiet.funds.opened w (hfunds.opened w hw)
    · exact hfunds.rounds.trans hquiet.funds.rounds

end Godl
