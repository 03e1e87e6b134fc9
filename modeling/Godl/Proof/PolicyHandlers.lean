import Godl.Proof.PolicyStakes

/-!
# The other instructions follow the policy

Claims, automations, referrals, gold, the OTC desk and administration, all but the game.

## Main definitions

* `GoldMoved signs R s s'` — acts that also settle gold and write the treasury.
-/

namespace Godl

open Lib

variable {signs : Pubkey → Prop} {R : Right → Prop}

/-! ## Gold -/

/-- Acts that move funds, settle the gold of miners and write the treasury. -/
def GoldMoved (signs : Pubkey → Prop) (R : Right → Prop) (s s' : State) : Prop :=
  ∃ l tok supply e t, s' = { s with
    lamports := l, tokens := tok, mintSupply := supply, minersExtended := e, treasury := t } ∧
    Acts signs R s s'

section Gold

variable {s₀ s s' s'' : State}

theorem FundsMoved.gold (h : FundsMoved signs R s s') : GoldMoved signs R s s' := by
  obtain ⟨l, tok, supply, rfl, hacts⟩ := h
  exact ⟨l, tok, supply, _, _, rfl, hacts⟩

theorem GoldMoved.refl (s : State) : GoldMoved signs R s s := (FundsMoved.refl s).gold

theorem GoldMoved.acts (h : GoldMoved signs R s s') : Acts signs R s s' := by
  obtain ⟨_, _, _, _, _, -, hacts⟩ := h
  exact hacts

theorem GoldMoved.trans (h : GoldMoved signs R s s') (h' : GoldMoved signs R s' s'') :
    GoldMoved signs R s s'' := by
  obtain ⟨l, tok, supply, e, t, rfl, hacts⟩ := h
  obtain ⟨l', tok', supply', e', t', rfl, hacts'⟩ := h'
  exact ⟨l', tok', supply', e', t', rfl, hacts.trans hacts'⟩

theorem GoldMoved.miners (h : GoldMoved signs R s s') : s'.miners = s.miners := by
  obtain ⟨_, _, _, _, _, rfl, -⟩ := h
  rfl

/-- An extended account is written, and the treasury. -/
theorem putMinerExtended_gold (mayMiners : R .miners) {x : MinerExtended}
    (h : signs x.authority ∨
      s.minersExtended.view 0 MinerExtended.xautRewards x.pda ≤ x.xautRewards) :
    GoldMoved signs R s { s with minersExtended := s.minersExtended.put x } :=
  ⟨s.lamports, s.tokens, s.mintSupply, _, s.treasury, rfl,
    .single (.minerExtended mayMiners x h)⟩

theorem treasury_gold (t : Treasury) : GoldMoved signs R s { s with treasury := t } :=
  ⟨s.lamports, s.tokens, s.mintSupply, s.minersExtended, t, rfl, acts_treasury .refl t⟩

/-- The extended account in hand is the one that is stored. -/
def ExtendedInHand (authority : Pubkey) (s : State) (extended : Option MinerExtended) : Prop :=
  ∀ x, extended = some x →
    x.authority = authority ∧ s.minersExtended.get (.minerExtendedPda authority) = some x

theorem loadOrCreateMinerExtended_gold (mayMiners : R .miners) {payer : AccountInfo}
    (hpayer : payer.isSigner = true → signs payer.key) (minerExtendedInfo : AccountInfo)
    (authority : Pubkey) (create : Bool) :
    Ensures (loadOrCreateMinerExtended minerExtendedInfo authority payer create s) fun p =>
      GoldMoved signs R s p.2 ∧ ExtendedInHand authority p.2 p.1 := by
  simp only [loadOrCreateMinerExtended, ensures_bind, ensures_require, ensures_ite, ensures_pure,
    ensures_fromOption]
  intro _ hkey
  refine ⟨fun hempty => ⟨fun _ => ?_, fun _ => ⟨.refl s, by simp [ExtendedInHand]⟩⟩,
    fun _ x hx hauth => ⟨.refl s, ?_⟩⟩
  · have hnone := (State.noData hempty).minersExtended
    rw [hkey] at hnone
    refine Ensures.mono (createAccount_funds (R := R) hpayer _ _) ?_
    rintro _ ⟨l, tok, supply, rfl, hacts⟩
    have hfunds : FundsMoved signs R s
        { s with lamports := l, tokens := tok, mintSupply := supply } :=
      ⟨l, tok, supply, rfl, hacts⟩
    refine ⟨hfunds.gold.trans (putMinerExtended_gold mayMiners (.inr ?_)), ?_⟩
    · have hview := Store.view_of_none (z := 0) (f := MinerExtended.xautRewards) hnone
      exact hview.le
    · intro x hx
      cases hx
      exact ⟨rfl, Store.get_put_self s.minersExtended (MinerExtended.init authority s.goldVault)⟩
  · intro y hy
    cases hy
    rw [← hkey]
    exact ⟨hauth, hx⟩

theorem syncGoldRewards_gold (mayMiners : R .miners) (hs : GoldMoved signs R s₀ s)
    {extended : Option MinerExtended} {authority : Pubkey} (h : ExtendedInHand authority s extended)
    (m : Miner) :
    Ensures (syncGoldRewards extended m s) (GoldMoved signs R s₀) := by
  unfold syncGoldRewards
  split
  case h_1 x =>
    obtain ⟨rfl, hx⟩ := h x rfl
    simp only [ensures_bind, ensures_require, ensures_pure]
    intro _
    refine Ensures.mono (x.updateRewards_spec _ _) fun y hy => ?_
    refine hs.trans (putMinerExtended_gold mayMiners (.inr ?_))
    have hreward : y.xautRewards = x.xautRewards +
        (x.position m.rewardsGodl).pending goldScale s.goldVault.xautRewardsFactor.bits :=
      congrArg Position.reward hy.2.1
    have hview : s.minersExtended.view 0 MinerExtended.xautRewards y.pda = x.xautRewards := by
      rw [MinerExtended.pda, hy.1]
      exact Store.view_of_get hx
    rw [hview, hreward]
    exact Nat.le_add_right _ _
  case h_2 =>
    simp only [ensures_bind, ensures_require, ensures_pure]
    exact fun _ => hs

end Gold

section Handlers

theorem processInitializeGoldVault_acts (signerInfo goldVaultInfo goldVaultSolInfo
    goldVaultXautInfo solMintInfo xautMintInfo systemProgram tokenProgram
    associatedTokenProgram : AccountInfo) (s : State)
    (hsign : signerInfo.isSigner = true → signs signerInfo.key) :
    Holds (Acts signs R s) (processInitializeGoldVault signerInfo goldVaultInfo
      goldVaultSolInfo goldVaultXautInfo solMintInfo xautMintInfo systemProgram tokenProgram
      associatedTokenProgram s) := by
  simp only [processInitializeGoldVault, Holds, ensures_bind, ensures_require]
  intro _ _ _ _ _ _ _ _ _ _ _ _
  refine Ensures.mono (createAccount_funds (R := R) hsign _ _) fun s₁ hs₁ => ?_
  have hopen : Acts signs R s { s₁ with
      opened := Function.update s₁.opened .goldVault true,
      goldVault := ⟨Fixed.zero, 0, 0, 0, 0⟩ } :=
    acts_books (hs₁.acts.tail (.openSingleton .goldVault)) s₁.treasury s₁.solMotherlode
      _
  refine Ensures.mono (openTokenAccount_funds (R := R) hsign _ _ _) fun s₂ hs₂ => ?_
  exact Ensures.mono (openTokenAccount_funds (R := R) hsign _ _ _) fun s₃ hs₃ =>
    (hopen.trans hs₂.2.acts).trans hs₃.2.acts

theorem processCreateMinerExtended_acts (mayMiners : R .miners) (signerInfo minerInfo
    minerExtendedInfo goldVaultInfo systemProgram : AccountInfo) (s : State)
    (hsign : signerInfo.isSigner = true → signs signerInfo.key) :
    Holds (Acts signs R s) (processCreateMinerExtended signerInfo minerInfo minerExtendedInfo
      goldVaultInfo systemProgram s) := by
  simp only [processCreateMinerExtended, Holds, ensures_bind, ensures_require,
    ensures_fromOption, ensures_pure]
  intro _ _ _ _ _ _ _
  exact Ensures.mono (loadOrCreateMinerExtended_gold (R := R) mayMiners hsign _ _ _)
    fun p hp => hp.1.acts

theorem processPreBuyGold_acts (clock : Clock) (amount : ℕ) (signerInfo configInfo
    solMotherlodeInfo goldVaultInfo goldVaultSolInfo systemProgram rushSolVaultInfo : AccountInfo)
    (s : State) :
    Holds (Acts signs R s) (processPreBuyGold clock amount signerInfo configInfo
      solMotherlodeInfo goldVaultInfo goldVaultSolInfo systemProgram rushSolVaultInfo s) := by
  simp only [processPreBuyGold, Holds, ensures_bind, ensures_require, ensures_fromOption,
    ensures_pure]
  intro _ _ _ _ _ _ hvault _ _ _ _ _ _ _ _ _ _ _ _ p _
  have hderived : solMotherlodeInfo.key.isKeypair = false := by
    rw [hvault.1]
    rfl
  have hstart : Acts signs R s s := .refl
  refine Ensures.mono (acts_funds hstart (send_funds _ _ hderived)) fun s₁ hs₁ => ?_
  refine Ensures.mono (acts_funds hs₁ (send_funds _ _ hderived)) fun s₂ hs₂ => ?_
  exact acts_books hs₂ s₂.treasury _ s₂.goldVault

theorem processDepositGold_acts (clock : Clock) (amount : ℕ) (signerInfo boardInfo configInfo
    treasuryInfo goldVaultInfo signerXautInfo goldVaultXautInfo xautMintInfo tokenProgram
    godlProgram : AccountInfo) (s : State)
    (hsign : signerInfo.isSigner = true → signs signerInfo.key) :
    Holds (Acts signs R s) (processDepositGold clock amount signerInfo boardInfo configInfo
      treasuryInfo goldVaultInfo signerXautInfo goldVaultXautInfo xautMintInfo tokenProgram
      godlProgram s) := by
  simp only [processDepositGold, Holds, ensures_bind, ensures_require, ensures_fromOption,
    ensures_pure]
  intro _ _ _ _ _ _ _ _ hvault _ hsource _ _ _ hdest _ _ _ _ _ _
  refine Ensures.mono (transferTokensFrom_funds (R := R) _ hsign hsource hdest) fun s₁ hs₁ => ?_
  refine ensures_of_forall fun r => ?_
  exact (acts_books hs₁.acts s₁.treasury s₁.solMotherlode r.2).tail
    (.log _)

theorem processClaimGold_acts (mayMiners : R .miners) (signerInfo minerInfo minerExtendedInfo
    goldVaultInfo goldVaultXautInfo recipientInfo xautMintInfo systemProgram tokenProgram
    associatedTokenProgram : AccountInfo) (s : State)
    (hsign : signerInfo.isSigner = true → signs signerInfo.key) :
    Holds (Acts signs R s) (processClaimGold signerInfo minerInfo minerExtendedInfo
      goldVaultInfo goldVaultXautInfo recipientInfo xautMintInfo systemProgram tokenProgram
      associatedTokenProgram s) := by
  rw [Holds, processClaimGold]
  simp only [ensures_bind, ensures_require, ensures_fromOption]
  intro hsigner m _ hauth _ _ _ hvault _ htokens _ _ _ _ _ _ _
  refine Ensures.mono (loadOrCreateMinerExtended_gold (R := R) mayMiners hsign _ _ _)
    fun p hp x hx => ?_
  obtain ⟨hxauth, -⟩ := hp.2 x hx
  refine Ensures.mono (x.updateRewards_spec _ _) fun y hy => ?_
  refine ensures_of_forall fun total => ?_
  have hsigns : signs y.claim.2.authority := by
    rw [MinerExtended.claim, hy.1, hxauth, hauth]
    exact hsign hsigner
  have hput : Acts signs R s { p.2 with
      minersExtended := p.2.minersExtended.put y.claim.2
      goldVault := { p.2.goldVault with totalXautClaimed := total } } :=
    acts_books (hp.1.acts.tail (.minerExtended mayMiners y.claim.2 (.inl hsigns))) p.2.treasury
      p.2.solMotherlode _
  rw [hvault.1] at htokens
  refine holds_ite (holds_pure hput) ?_
  refine Ensures.bind (openTokenAccount_funds (R := R) hsign _ _ _) fun s₂ hs₂ => ?_
  exact acts_funds (hput.trans hs₂.2.acts) (transferTokens_funds _ htokens hs₂.1 .goldVault)

end Handlers

/-! ## Claims and referrals -/

section Claims

variable {s₀ s : State}

theorem isKeypair_miner {k : Pubkey} {m : Miner} (hm : s.miners.get k = some m) :
    k.isKeypair = false := by
  rw [← s.miners.key_of_get k m hm]
  rfl

theorem creditReferrerSol_acts (mayReferrals : R .referrals) (hs : Acts signs R s₀ s)
    {minerInfo : AccountInfo} (hderived : minerInfo.key.isKeypair = false) (m : Miner) (share : ℕ)
    (rest : List AccountInfo) :
    Ensures (creditReferrerSol m minerInfo share rest s) fun s' =>
      Acts signs R s₀ s' ∧ s'.automations = s.automations := by
  unfold creditReferrerSol
  split
  · split
    · simp only [loadReferrer, ensures_bind, ensures_require, ensures_fromOption,
        ensures_addU64, ensures_pure]
      intro x hx _ _ _ _ _
      have hput : Acts signs R s₀ { s with referrers := s.referrers.put { x with
          rewardsSol := x.rewardsSol + share
          cumulativeRewardsSol := x.cumulativeRewardsSol + share } } := by
        refine hs.tail (.referrer mayReferrals _ (.inr ⟨?_, ?_⟩))
        · exact (Store.view_key hx).trans_le (Nat.le_add_right _ _)
        · exact (Store.view_key hx).le
      refine Ensures.mono (send_funds (R := R) _ _ hderived) fun s' hs' => ⟨hput.trans hs'.acts, ?_⟩
      obtain ⟨_, _, _, rfl, -⟩ := hs'
      rfl
    · exact ensures_throw.2 trivial
  · simp only [ensures_bind, ensures_require, ensures_pure]
    exact fun _ => ⟨hs, trivial⟩

theorem creditReferrerGodl_acts (mayReferrals : R .referrals) (hs : Acts signs R s₀ s)
    {treasuryTokensInfo mintInfo : AccountInfo} {mint : Pubkey}
    (htokens : treasuryTokensInfo.key = .associatedTokenAddress .treasuryPda mint)
    (hmint : mintInfo.key = mint) (m : Miner) (share : ℕ) (rest : List AccountInfo) :
    Holds (Acts signs R s₀)
      (creditReferrerGodl m treasuryTokensInfo mintInfo share rest s) := by
  unfold creditReferrerGodl
  split
  · split
    · simp only [loadReferrer, Holds, ensures_bind, ensures_require, ensures_fromOption,
        ensures_addU64, ensures_pure]
      intro x hx _ _ _ _ hdest _ _ _ _
      have hput : Acts signs R s₀ { s with referrers := s.referrers.put { x with
          rewardsGodl := x.rewardsGodl + share
          cumulativeRewardsGodl := x.cumulativeRewardsGodl + share } } := by
        refine hs.tail (.referrer mayReferrals _ (.inr ⟨?_, ?_⟩))
        · exact (Store.view_key hx).le
        · exact (Store.view_key hx).trans_le (Nat.le_add_right _ _)
      rw [hmint] at hdest
      exact acts_funds hput (transferTokens_funds share htokens hdest .treasury)
    · exact holds_throw
  · simp only [Holds, ensures_bind, ensures_require, ensures_pure]
    exact fun _ => hs

theorem processClaimSol_acts (mayMiners : R .miners) (mayReferrals : R .referrals) (clock : Clock)
    (signerInfo minerInfo systemProgram : AccountInfo) (rest : List AccountInfo) (s : State)
    (hsign : signerInfo.isSigner = true → signs signerInfo.key) :
    Holds (Acts signs R s) (processClaimSol clock signerInfo minerInfo systemProgram rest s)
    := by
  rw [Holds, processClaimSol]
  simp only [ensures_bind, ensures_require, ensures_fromOption]
  intro hsigner m hm hauth _
  refine ensures_of_forall fun share => ensures_of_forall fun amount => ?_
  have hput : Acts signs R s { s with miners := s.miners.put (m.claimSol clock).2 } :=
    .single (.miner mayMiners _ (.inl (hauth ▸ hsign hsigner)))
  have hderived := isKeypair_miner hm
  refine Ensures.mono (creditReferrerSol_acts mayReferrals hput hderived m share rest)
    fun s₁ hs₁ => ?_
  have hs : Acts signs R s s₁ := hs₁.1
  exact holds_ite (acts_funds hs (send_funds _ _ hderived)) (holds_pure hs)

theorem processClaimSolAndFundAutomation_acts (mayMiners : R .miners) (mayReferrals : R .referrals)
    (mayAutomations : R .automations) (clock : Clock) (signerInfo minerInfo automationV2Info
    systemProgram : AccountInfo) (rest : List AccountInfo) (s : State)
    (hsign : signerInfo.isSigner = true → signs signerInfo.key) :
    Holds (Acts signs R s) (processClaimSolAndFundAutomation clock signerInfo minerInfo
      automationV2Info systemProgram rest s) := by
  rw [Holds, processClaimSolAndFundAutomation]
  simp only [ensures_bind, ensures_require, ensures_fromOption]
  intro hsigner a ha hexecutor hflag _ hkey m hm hauth _
  refine ensures_of_forall fun share => ensures_of_forall fun amount => ?_
  rw [hkey] at ha
  have hswept : MinerSwept signs s (m.claimSol clock).2 := by
    refine ⟨⟨a, ?_, hexecutor ▸ hsign hsigner, hflag⟩, ?_⟩
    · rw [← ha, ← hauth]
      rfl
    · exact (Store.view_key (f := fun m : Miner => m.rewardsGodl + m.refinedGodl) hm).le
  have hput : Acts signs R s { s with miners := s.miners.put (m.claimSol clock).2 } :=
    .single (.miner mayMiners _ (.inr (.inl hswept)))
  have hderived := isKeypair_miner hm
  refine Ensures.mono (creditReferrerSol_acts mayReferrals hput hderived m share rest)
    fun s₁ hs₁ => ?_
  have hs : Acts signs R s s₁ := hs₁.1
  refine holds_ite ?_ (holds_pure hs)
  refine Ensures.bind (ensures_of_forall fun _ => trivial) fun balance _ => ?_
  refine acts_funds ?_ (send_funds _ _ hderived)
  refine hs.tail
    (.automation mayAutomations { a with balance := balance } (.inr ⟨a, balance, ?_, .inr ?_, rfl⟩))
  · rw [hs₁.2, ← ha]
    rfl
  · exact hexecutor ▸ hsign hsigner

theorem processClaimGodl_acts (mayMiners : R .miners) (mayReferrals : R .referrals) (clock : Clock)
    (signerInfo configInfo minerInfo mintInfo recipientInfo treasuryInfo treasuryTokensInfo
    systemProgram tokenProgram associatedTokenProgram goldVaultInfo minerExtendedInfo : AccountInfo)
    (rest : List AccountInfo) (s : State)
    (hsign : signerInfo.isSigner = true → signs signerInfo.key) :
    Holds (Acts signs R s) (processClaimGodl clock signerInfo configInfo minerInfo mintInfo
      recipientInfo treasuryInfo treasuryTokensInfo systemProgram tokenProgram
      associatedTokenProgram goldVaultInfo minerExtendedInfo rest s) := by
  simp only [processClaimGodl, Holds, ensures_bind, ensures_require, ensures_fromOption]
  intro hsigner m _ hauth _ _ htreasury htokens _ _ _ _ _ _ _
  refine Ensures.mono (loadOrCreateMinerExtended_gold (R := R) mayMiners hsign _ _ _) fun p hp => ?_
  refine Ensures.mono (openTokenAccount_funds (R := R) hsign _ _ _) fun s₂ hs₂ => ?_
  have hinHand : ExtendedInHand m.authority s₂ p.1 := by
    obtain ⟨_, _, _, rfl, -⟩ := hs₂.2
    exact hp.2
  have hgold : GoldMoved signs R s s₂ := hp.1.trans hs₂.2.gold
  refine Ensures.mono (syncGoldRewards_gold (R := R) mayMiners hgold hinHand m) fun s₃ hs₃ => ?_
  refine Ensures.mono (m.claimGodl_spec clock _) fun r hr => ?_
  obtain ⟨fee, hclaimed⟩ := hr
  refine ensures_of_forall fun share => ensures_of_forall fun amount => ?_
  have hput : Acts signs R s { s₃ with
      miners := s₃.miners.put r.2.1, treasury := r.2.2 } := by
    refine acts_treasury (hs₃.acts.tail (.miner mayMiners r.2.1 (.inl ?_))) r.2.2
    rw [hclaimed.authority, hauth]
    exact hsign hsigner
  rw [htreasury.1] at htokens
  refine Ensures.mono (creditReferrerGodl_acts mayReferrals hput htokens rfl m share rest)
    fun s₄ hs₄ => ?_
  exact holds_ite (acts_funds hs₄ (transferTokens_funds _ htokens hs₂.1 .treasury))
    (holds_pure hs₄)

theorem processInitializeReferrer_acts (mayReferrals : R .referrals) (authorityInfo referrerInfo
    referrerTokensInfo mintInfo systemProgram tokenProgram associatedTokenProgram : AccountInfo)
    (s : State) (hsign : authorityInfo.isSigner = true → signs authorityInfo.key) :
    Holds (Acts signs R s) (processInitializeReferrer authorityInfo referrerInfo
      referrerTokensInfo mintInfo systemProgram tokenProgram associatedTokenProgram s) := by
  simp only [processInitializeReferrer, Holds, ensures_bind, ensures_require]
  intro hsigner _ _ _ _ _ _ _ _
  refine Ensures.mono (createAccount_funds (R := R) hsign _ _) fun s₁ hs₁ => ?_
  have hput : Acts signs R s { s₁ with
      referrers := s₁.referrers.put ⟨authorityInfo.key, 0, 0, 0, 0, 0⟩ } :=
    hs₁.acts.tail (.referrer mayReferrals _ (.inl (hsign hsigner)))
  exact Ensures.mono (openTokenAccount_funds (R := R) hsign _ _ _)
    fun s₂ hs₂ => hput.trans hs₂.2.acts

theorem processSetReferrer_acts (mayMiners : R .miners) (mayReferrals : R .referrals)
    (desired : Pubkey) (authorityInfo minerInfo : AccountInfo) (rest : List AccountInfo) (s : State)
    (hsign : authorityInfo.isSigner = true → signs authorityInfo.key) :
    Holds (Acts signs R s) (processSetReferrer desired authorityInfo minerInfo rest s) := by
  rw [processSetReferrer, Holds, ensures_bind, ensures_require]
  intro hsigner
  rw [ensures_bind, ensures_fromOption]
  intro m _
  rw [ensures_bind, ensures_require]
  intro hauth
  have hput : ∀ s₁ p, Acts signs R s s₁ →
      Acts signs R s { s₁ with miners := s₁.miners.put { m with referrer := p } } :=
    fun s₁ p hs₁ => hs₁.tail (.miner mayMiners _ (.inl (hauth ▸ hsign hsigner)))
  refine holds_ite (holds_pure .refl) (holds_ite ?_ (holds_ite ?_ ?_))
  · exact holds_pure (hput s _ .refl)
  · exact holds_throw
  · split
    · simp only [loadReferrer, Holds, ensures_bind, ensures_require, ensures_fromOption,
        ensures_addU64, ensures_pure]
      intro x hx _ _ _ _ _
      refine hput _ _ (.single (.referrer mayReferrals _ (.inr ⟨?_, ?_⟩)))
      · exact (Store.view_key hx).le
      · exact (Store.view_key hx).le
    · exact holds_throw

theorem processClaimReferral_acts (mayReferrals : R .referrals) (authorityInfo referrerInfo
    referrerTokensInfo authorityTokensInfo mintInfo systemProgram tokenProgram
    associatedTokenProgram : AccountInfo) (s : State)
    (hsign : authorityInfo.isSigner = true → signs authorityInfo.key) :
    Holds (Acts signs R s) (processClaimReferral authorityInfo referrerInfo
      referrerTokensInfo authorityTokensInfo mintInfo systemProgram tokenProgram
      associatedTokenProgram s) := by
  rw [Holds, processClaimReferral]
  simp only [ensures_bind, ensures_require, ensures_fromOption]
  intro hsigner _ _ _ _ _ _ _ hkey x _ hauth htokens _ _
  have hsigns := hsign hsigner
  refine Ensures.mono (openTokenAccount_funds (R := R) hsign _ _ _) fun s₁ hs₁ => ?_
  have hput : Acts signs R s { s₁ with
      referrers := s₁.referrers.put { x with rewardsGodl := 0, rewardsSol := 0 } } :=
    hs₁.2.acts.tail (.referrer mayReferrals _ (.inl (hauth ▸ hsigns)))
  have hderived : referrerInfo.key.isKeypair = false := by
    rw [hkey]
    rfl
  rw [hkey] at htokens
  refine holds_ite (holds_pure hs₁.2.acts) ?_
  refine ensures_optional (P := Acts signs R s) ?_ (fun _ => hput) fun s₂ hs₂ => ?_
  · exact fun _ =>
      acts_funds hput (transferTokens_funds _ htokens hs₁.1 (.referrer mayReferrals hsigns))
  · exact holds_ite (acts_funds hs₂ (send_funds _ _ hderived)) (holds_pure hs₂)

end Claims

/-! ## Automations -/

section Automations

variable {s : State}

theorem openMiner_funds {payer : AccountInfo} (hpayer : payer.isSigner = true → signs payer.key)
    (e : ProgramError) (minerInfo : AccountInfo) (authority : Pubkey) :
    Ensures (openMiner e minerInfo authority payer s) fun p =>
      FundsMoved signs R s p.2 ∧ p.1.authority = authority := by
  unfold openMiner
  split
  · simp only [ensures_bind, ensures_pure]
    exact Ensures.mono (createAccount_funds (R := R) hpayer _ _) fun s₁ hs₁ => ⟨hs₁, trivial⟩
  · simp only [ensures_bind, ensures_fromOption, ensures_require, ensures_pure]
    exact fun m _ hauth => ⟨.refl s, hauth⟩

/-- A miner that is opened has what it had. -/
theorem openMiner_grows {payer minerInfo : AccountInfo} {authority : Pubkey} (e : ProgramError)
    (hminer : minerInfo.key = .minerPda authority) :
    Ensures (openMiner e minerInfo authority payer s) fun p => MinerGrows s p.1 := by
  have hview : ∀ m, s.miners.get (.minerPda authority) = some m → MinerGrows s m := by
    intro m hm
    have hkey : m.pda = .minerPda authority := s.miners.key_of_get _ m hm
    rw [MinerGrows, hkey, Store.view_of_get hm, Store.view_of_get hm]
    exact ⟨le_refl _, le_refl _⟩
  unfold openMiner
  split
  case isTrue hempty =>
    have hnone := (State.noData hempty).miners
    rw [hminer] at hnone
    simp only [ensures_bind, ensures_pure]
    refine ensures_of_forall fun _ => ⟨?_, ?_⟩
    · exact (Store.view_of_none hnone).trans_le (Nat.zero_le _)
    · exact (Store.view_of_none hnone).trans_le (Nat.zero_le _)
  case isFalse =>
    simp only [ensures_bind, ensures_fromOption, ensures_require, ensures_pure]
    intro m hm _
    rw [hminer] at hm
    exact hview m hm

theorem openPoolMemberFor_acts (mayMiners : R .miners) {s₀ : State} (hs : Acts signs R s₀ s)
    {signerInfo : AccountInfo} (hsign : signerInfo.isSigner = true → signs signerInfo.key)
    (hsigns : signs signerInfo.key) (poolMemberInfo : AccountInfo) (isPooled : Bool) :
    Holds (Acts signs R s₀) (openPoolMemberFor poolMemberInfo signerInfo isPooled s) := by
  refine holds_ite (holds_ite ?_ (holds_pure hs)) ?_
  · refine Ensures.bind (createAccount_funds (R := R) hsign _ _) fun s₁ hs₁ => ensures_pure.2 ?_
    exact (hs.trans hs₁.acts).tail (.poolMember mayMiners _ (.inl hsigns))
  · exact holds_any fun _ => holds_any fun _ => holds_pure hs

theorem openAutomation_funds {signerInfo : AccountInfo}
    (hsign : signerInfo.isSigner = true → signs signerInfo.key) (automationV2Info : AccountInfo) :
    Ensures (openAutomation automationV2Info signerInfo s) fun p =>
      FundsMoved signs R s p.2 ∧ p.1.authority = signerInfo.key := by
  unfold openAutomation
  split
  · simp only [ensures_bind, ensures_pure]
    exact Ensures.mono (createAccount_funds (R := R) hsign _ _) fun s₁ hs₁ => ⟨hs₁, trivial⟩
  · simp only [ensures_bind, ensures_fromOption, ensures_require, ensures_pure]
    exact fun a _ hauth => ⟨.refl s, hauth⟩

theorem processAutomate_acts (mayMiners : R .miners) (mayAutomations : R .automations)
    (mayOrders : R .orders) (args : AutomateArgs) (signerInfo automationV2Info executorInfo
    minerInfo poolMemberInfo systemProgram : AccountInfo) (s : State)
    (hsign : signerInfo.isSigner = true → signs signerInfo.key) :
    Holds (Acts signs R s) (processAutomate args signerInfo automationV2Info executorInfo
      minerInfo poolMemberInfo systemProgram s) := by
  rw [Holds, processAutomate]
  simp only [ensures_bind, ensures_require]
  refine ensures_of_forall fun strategy hsigner _ hkey _ _ _ _ _ => ?_
  have hsigns := hsign hsigner
  refine Ensures.mono (openMiner_funds (R := R) hsign _ _ _) fun p hp => ?_
  have hauth : signs p.1.authority := hp.2 ▸ hsigns
  have hput : Acts signs R s { p.2 with miners := p.2.miners.put p.1 } :=
    hp.1.acts.tail (.miner mayMiners p.1 (.inl hauth))
  generalize ({ p.2 with miners := p.2.miners.put p.1 } : State) = s₁ at hput ⊢
  refine holds_ite ?_ ?_
  · refine Ensures.bind (ensures_of_forall fun _ => trivial) fun a _ => ?_
    refine Ensures.bind (ensures_of_forall fun _ => trivial) fun _ _ => ensures_pure.2 ?_
    rw [hkey]
    have hreleased : Acts signs R s
        (s₁.releaseLamports (.automationV2Pda signerInfo.key) signerInfo.key) :=
      hput.trans (releaseLamports_funds _ (.inl rfl)).acts
    exact hreleased.tail (.closeAutomation mayAutomations (.inl hsigns))
  · refine Ensures.bind (openPoolMemberFor_acts mayMiners hput hsign hsigns _ _) fun s₂ hs₂ => ?_
    refine Ensures.bind (openAutomation_funds (R := R) hsign _) fun q hq => ?_
    refine Ensures.bind (ensures_of_forall fun _ => trivial) fun balance _ => ?_
    have hopened : Acts signs R s { q.2 with automations := q.2.automations.put { q.1 with
        amount := args.amount
        balance := balance
        executor := executorInfo.key
        fee := args.fee
        mask := args.mask
        config := AutomationV2.configWith q.1.config strategy args.claimAndFund
          args.isPooled } } :=
      (hs₂.trans hq.1.acts).tail (.automation mayAutomations _ (.inl ⟨mayOrders, hq.2 ▸ hsigns⟩))
    refine ensures_optional (P := Acts signs R s) ?_ (fun _ => hopened) fun s₃ hs₃ => ?_
    · intro _
      refine acts_funds (hopened.tail (.miner mayMiners _ (.inl ?_))) (collect_funds hsign _ _)
      exact hauth
    · exact acts_funds hs₃ (collect_funds hsign _ _)

theorem processFundAutomation_acts (mayAutomations : R .automations) (deposit : ℕ) (signerInfo
    automationV2Info systemProgram : AccountInfo) (s : State)
    (hsign : signerInfo.isSigner = true → signs signerInfo.key) :
    Holds (Acts signs R s)
      (processFundAutomation deposit signerInfo automationV2Info systemProgram s) := by
  simp only [processFundAutomation, Holds, ensures_bind, ensures_require, ensures_fromOption,
    ensures_addU64]
  intro hsigner _ _ a ha hauth _ _
  have hput : Acts signs R s { s with
      automations := s.automations.put { a with balance := a.balance + deposit } } := by
    refine .single (.automation mayAutomations _
      (.inr ⟨a, _, ?_, .inl (hauth ▸ hsign hsigner), rfl⟩))
    exact (congrArg s.automations.get (s.automations.key_of_get _ a ha)).trans ha
  exact acts_funds hput (collect_funds hsign _ _)

end Automations

/-! ## The OTC desk -/

section Otc

variable {s : State}

theorem processInitializeOtcTreasury_acts (mayOtc : R .otc) (signerInfo mintInfo otcTreasuryInfo
    otcTreasuryTokensInfo systemProgram tokenProgram associatedTokenProgram : AccountInfo)
    (s : State) (hsign : signerInfo.isSigner = true → signs signerInfo.key) :
    Holds (Acts signs R s) (processInitializeOtcTreasury signerInfo mintInfo otcTreasuryInfo
      otcTreasuryTokensInfo systemProgram tokenProgram associatedTokenProgram s) := by
  simp only [processInitializeOtcTreasury, Holds, ensures_bind, ensures_require]
  intro _ _ _ _ _ _ _ _ _ _
  refine Ensures.mono (createAccount_funds (R := R) hsign _ _) fun s₁ hs₁ => ?_
  have hopen : Acts signs R s { s₁ with
      opened := Function.update s₁.opened .otcTreasury true, otcTreasury := ⟨0, 0⟩ } :=
    (hs₁.acts.tail (.openSingleton .otcTreasury)).tail (.otcBooks mayOtc _)
  exact Ensures.mono (openTokenAccount_funds (R := R) hsign _ _ _)
    fun s₂ hs₂ => hopen.trans hs₂.2.acts

theorem processFundGodlOtc_acts (mayOtc : R .otc) (amount : ℕ) (signerInfo mintInfo signerTokensInfo
    otcTreasuryInfo otcTreasuryTokensInfo tokenProgram : AccountInfo) (s : State)
    (hsign : signerInfo.isSigner = true → signs signerInfo.key) :
    Holds (Acts signs R s) (processFundGodlOtc amount signerInfo mintInfo signerTokensInfo
      otcTreasuryInfo otcTreasuryTokensInfo tokenProgram s) := by
  simp only [processFundGodlOtc, Holds, ensures_bind, ensures_require, ensures_fromOption,
    ensures_addU64, ensures_pure]
  intro _ _ _ hsource _ _ _ _ _ _ hdest _ _ _ _
  refine Ensures.mono (transferTokensFrom_funds (R := R) _ hsign hsource hdest) fun s₁ hs₁ _ => ?_
  exact hs₁.acts.tail (.otcBooks mayOtc _)

theorem processWithdrawSolOtc_acts (mayOtc : R .otc) (signerInfo otcTreasuryInfo chestInfo
    systemProgram : AccountInfo) (s : State) :
    Holds (Acts signs R s)
      (processWithdrawSolOtc signerInfo otcTreasuryInfo chestInfo systemProgram s) := by
  rw [Holds, processWithdrawSolOtc]
  simp only [ensures_bind, ensures_require]
  intro _ _ hkey _ _ _ _
  have hderived : otcTreasuryInfo.key.isKeypair = false := by
    rw [hkey]
    rfl
  refine holds_ite (holds_pure .refl) ?_
  have hput : Acts signs R s
      { s with otcTreasury := { s.otcTreasury with solBalance := 0 } } :=
    .single (.otcBooks mayOtc _)
  exact acts_funds hput (send_funds _ _ hderived)

/-- Unrefined GODL is credited to the miner in hand, who loses nothing. -/
theorem creditUnrefined_gold (mayMiners : R .miners) {payer : AccountInfo}
    (hpayer : payer.isSigner = true → signs payer.key) (e : ProgramError) (amount : ℕ)
    (minerExtendedInfo : AccountInfo) (authority : Pubkey) (m : Miner) :
    Ensures (creditUnrefined e amount minerExtendedInfo payer authority m s) fun p =>
      GoldMoved signs R s p.2 ∧ p.1.authority = m.authority ∧ p.1.rewardsSol = m.rewardsSol ∧
        m.rewardsGodl + m.refinedGodl ≤ p.1.rewardsGodl + p.1.refinedGodl := by
  simp only [creditUnrefined, ensures_bind, ensures_addU64, ensures_pure]
  refine Ensures.mono (loadOrCreateMinerExtended_gold (R := R) mayMiners hpayer _ _ _)
    fun p hp => ?_
  refine Ensures.mono (m.updateRewards_spec _) fun m' hm' => ?_
  refine Ensures.mono (syncGoldRewards_gold (R := R) mayMiners hp.1 hp.2 m') fun s₁ hs₁ _ _ _ => ?_
  refine ⟨hs₁.trans (treasury_gold _), hm'.authority, hm'.rewardsSol, ?_⟩
  have hrewards := hm'.rewardsGodl
  have hrefined := hm'.refinedGodl
  omega

theorem processInjectUnrefinedRewards_acts (mayMiners : R .miners) (amount : ℕ) (signerInfo
    configInfo minerInfo treasuryInfo signerTokensInfo treasuryTokensInfo tokenProgram goldVaultInfo
    minerExtendedInfo systemProgram : AccountInfo) (s : State)
    (hsign : signerInfo.isSigner = true → signs signerInfo.key) :
    Holds (Acts signs R s) (processInjectUnrefinedRewards amount signerInfo configInfo
      minerInfo treasuryInfo signerTokensInfo treasuryTokensInfo tokenProgram goldVaultInfo
      minerExtendedInfo systemProgram s) := by
  simp only [processInjectUnrefinedRewards, Holds, ensures_bind, ensures_require,
    ensures_fromOption, ensures_pure]
  intro _ _ _ _ m hm _ _ htreasury _ hsource _ _ _ hdest _ _ _ _ _ _ _
  rw [htreasury.1] at hdest
  refine Ensures.mono (transferTokensFrom_funds (R := R) _ hsign hsource hdest) fun s₁ hs₁ => ?_
  refine Ensures.mono (creditUnrefined_gold (R := R) mayMiners hsign _ _ _ _ m) fun p hp => ?_
  have hgold : GoldMoved signs R s p.2 := hs₁.gold.trans hp.1
  have hpda : p.1.pda = m.pda := by rw [Miner.pda, Miner.pda, hp.2.1]
  refine hgold.acts.tail (.miner mayMiners p.1 (.inr (.inr ⟨?_, ?_⟩)))
  · rw [hgold.miners, hpda, Store.view_key hm]
    exact hp.2.2.1.ge
  · rw [hgold.miners, hpda, Store.view_key hm]
    exact hp.2.2.2

/-- What the checks of a trade say about the accounts that it moves tokens between. -/
theorem checkOtcTrade_accounts (clock : Clock) (args : OtcTradeArgs) (a : OtcTradeAccounts)
    (s : State) :
    Ensures (checkOtcTrade clock args a s) fun _ =>
      a.buyerInfo.isSigner = true ∧ a.mintInfo.key = mintAddress ∧
      a.otcTreasuryTokensInfo.key = otcTreasuryTokensAddress ∧
      a.treasuryTokensInfo.key = treasuryTokensAddress := by
  simp only [checkOtcTrade, ensures_bind, ensures_require, ensures_fromOption, ensures_pure]
  intro hsigner _ _ hmint _ _ _ _ _ hotc _ hotcTokens _ _ _ htreasury _ htreasuryTokens _ _ _ _ _
    _ _ _ _ _ _ _ _ _ _
  rw [hotc] at hotcTokens
  rw [htreasury] at htreasuryTokens
  exact ⟨hsigner, hmint, hotcTokens, htreasuryTokens⟩

theorem openOtcStake_acts (mayStakes : R .stakes) (mayOtc : R .otc) {s₀ : State}
    (hs : Acts signs R s₀ s) (clock : Clock) (args : OtcTradeArgs) {a : OtcTradeAccounts}
    (hsign : a.buyerInfo.isSigner = true → signs a.buyerInfo.key) (hsigns : signs a.buyerInfo.key)
    (hmint : a.mintInfo.key = mintAddress)
    (hotc : a.otcTreasuryTokensInfo.key = otcTreasuryTokensAddress) (n : ℕ) :
    Holds (Acts signs R s₀) (openOtcStake clock args a n s) := by
  simp only [openOtcStake, Holds, ensures_bind, ensures_require, ensures_pure]
  have howns : ∀ x,
      OwnsStake signs (StakeV2Account.derived a.buyerInfo.key args.stakeId x).address :=
    fun x => ⟨a.buyerInfo.key, args.stakeId, rfl, hsigns⟩
  refine Ensures.mono (createAccount_funds (R := R) hsign _ _) fun s₁ hs₁ _ => ?_
  refine ensures_of_forall fun x => ?_
  have hopen : Acts signs R s₀ { s₁ with
      stakesV2 := s₁.stakesV2.put (.derived a.buyerInfo.key args.stakeId x) } :=
    (hs.trans hs₁.acts).tail (.stakeV2 mayStakes _ (.inl (howns x)))
  refine Ensures.mono (openTokenAccount_funds (R := R) hsign _ _ _) fun s₂ hs₂ => ?_
  refine ensures_of_forall fun r _ => ?_
  have hput :=
    acts_putStakeV2 mayStakes (x := r.2.1) (hopen.trans hs₂.2.acts) (.inl (howns x)) r.2.2
  have hdest := hs₂.1
  rw [hmint] at hdest
  exact acts_funds hput (transferTokens_funds r.1 hotc hdest (.otcTreasury mayOtc))

theorem processExecuteOtcTrade_acts (mayMiners : R .miners) (mayStakes : R .stakes)
    (mayOtc : R .otc) (clock : Clock) (args : OtcTradeArgs) (a : OtcTradeAccounts) (s : State)
    (hsign : a.buyerInfo.isSigner = true → signs a.buyerInfo.key) :
    Holds (Acts signs R s) (processExecuteOtcTrade clock args a s) := by
  simp only [processExecuteOtcTrade, bookOtcTrade, Holds, ensures_bind, ensures_addU64,
    ensures_require, ensures_fromOption, ensures_pure]
  refine Ensures.mono (checkOtcTrade_accounts clock args a s) fun n hn _ _ _ _ _ => ?_
  obtain ⟨hsigner, hmint, hotc, htreasury⟩ := hn
  have hsigns := hsign hsigner
  have hbooked : Acts signs R s { s with otcTreasury := ⟨s.otcTreasury.solBalance + args.solIn,
      s.otcTreasury.godlBalance - (args.godlOut + args.godlBonus)⟩ } :=
    .single (.otcBooks mayOtc _)
  refine Ensures.mono (acts_funds hbooked (collect_funds hsign _ _)) fun s₁ hs₁ => ?_
  refine Ensures.mono (openMiner_funds (R := R) hsign _ _ _) fun p hp => ?_
  refine Ensures.mono (P := fun q => FundsMoved signs R p.2 q.2 ∧ q.1.authority = a.buyerInfo.key)
    ?_ fun q hq => ?_
  · simp only [openOtcUser, ensures_ite, ensures_bind, ensures_pure, ensures_fromOption,
      ensures_require]
    refine ⟨fun _ => ?_, fun _ u _ hauth => ⟨.refl _, hauth⟩⟩
    exact Ensures.mono (createAccount_funds (R := R) hsign _ _) fun s₂ hs₂ => ⟨hs₂, trivial⟩
  have hs : Acts signs R s q.2 := hs₁.trans (hp.1.acts.trans hq.1.acts)
  refine Ensures.mono (openOtcStake_acts mayStakes mayOtc hs clock args hsign hsigns hmint hotc n)
    fun r hr => ?_
  refine Ensures.mono (P := fun w => Acts signs R s w.2 ∧ w.1.authority = a.buyerInfo.key)
    ?_ fun w hw _ _ _ _ _ _ _ => ?_
  · simp only [payOtcBonus, ensures_ite, ensures_bind, ensures_pure]
    refine ⟨fun _ => ?_, fun _ => ⟨hr, hp.2⟩⟩
    refine Ensures.mono
      (acts_funds hr (transferTokens_funds _ hotc htreasury (.otcTreasury mayOtc))) ?_
    intro s₂ hs₂
    refine Ensures.mono (creditUnrefined_gold (R := R) mayMiners hsign _ _ _ _ p.1) fun w hw => ?_
    exact ⟨hs₂.trans hw.1.acts, hw.2.1.trans hp.2⟩
  have hput : Acts signs R s { w.2 with miners := w.2.miners.put w.1 } :=
    hw.1.tail (.miner mayMiners w.1 (.inl (hw.2 ▸ hsigns)))
  exact hput.tail (.otcUser mayOtc _ (hq.2 ▸ hsigns))

end Otc

end Godl
