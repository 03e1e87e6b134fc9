import Godl.Proof.Registry

/-!
# Referral credits

A claim is split between the referrer that the miner names and a recipient.  What follows
says where the two parts go, and that no other referrer hears of it.

## Main definitions

* `SplitsClaim` — the share of the referrer and the rest.
* `PaysOut` — both parts leave an account.
* `CreditsReferrer` — the referrer books its share.
* `SolClaimed`, `GodlClaimed` — a claim as a whole.
-/

namespace Godl

open Lib

/-- A claimed amount is split at a rate: the referrer's share, and the rest. -/
structure SplitsClaim (m : Miner) (bps amount share rest : ℕ) : Prop where
  total : share + rest = amount
  share : share = if m.referrerAccount.isSome then amount * bps / denominatorBps else 0

/-- A share and a rest leave an account for the referrer, if there is one, and for `dest`. -/
def PaysOut (l l' : Pubkey → ℕ) (source : Pubkey) (referrer : Option Pubkey) (dest : Pubkey)
    (share rest : ℕ) : Prop :=
  ∀ k, l' k + (if k = source then share + rest else 0) =
    l k + (if referrer = some k then share else 0) + (if k = dest then rest else 0)

/-- The referrer of a miner books its share, and no other one changes. -/
structure CreditsReferrer (credit : ℕ → Referrer → Referrer) (m : Miner) (share : ℕ)
    (s s' : State) : Prop where
  get : ∀ k, s'.referrers.get k =
    (s.referrers.get k).map fun x => if m.referrerAccount = some k then credit share x else x
  known : ∀ k, m.referrerAccount = some k →
    ∃ x, s.referrers.get k = some x ∧ k = .referrerPda x.authority

/-- A share of SOL. -/
def Referrer.creditSol (share : ℕ) (x : Referrer) : Referrer :=
  { x with
    rewardsSol := x.rewardsSol + share
    cumulativeRewardsSol := x.cumulativeRewardsSol + share }

/-- A share of GODL. -/
def Referrer.creditGodl (share : ℕ) (x : Referrer) : Referrer :=
  { x with
    rewardsGodl := x.rewardsGodl + share
    cumulativeRewardsGodl := x.cumulativeRewardsGodl + share }

/-- A miner's SOL is claimed: it is split between the referrer and `dest`. -/
structure SolClaimed (clock : Clock) (bps : ℕ) (m : Miner) (dest : Pubkey) (s s' : State)
    (share rest : ℕ) : Prop where
  miner : s.miners.get m.pda = some m
  claimed : s'.miners = s.miners.put (m.claimSol clock).2
  split : SplitsClaim m bps m.rewardsSol share rest
  referrers : CreditsReferrer Referrer.creditSol m share s s'
  paid : PaysOut s.lamports s'.lamports m.pda m.referrerAccount dest share rest

/-- A miner's GODL is claimed: it is split between the token accounts of the referrer and of
the miner's authority. -/
structure GodlClaimed (clock : Clock) (m : Miner) (s s' : State) (amount share rest : ℕ) :
    Prop where
  miner : s.miners.get m.pda = some m
  claimed : ∃ m', m.claimGodl clock s.treasury = .ok (amount, m', s'.treasury) ∧
    s'.miners = s.miners.put m'
  split : SplitsClaim m referralBps amount share rest
  referrers : CreditsReferrer Referrer.creditGodl m share s s'
  paid : PaysOut (balances s.tokens) (balances s'.tokens) treasuryTokensAddress
    (m.referrerAccount.map (.associatedTokenAddress · mintAddress))
    (.associatedTokenAddress m.authority mintAddress) share rest

section Split

variable {m : Miner} {bps amount : ℕ}

/-- The share at a rate, and what is left of the amount. -/
theorem referralAmount_splits (m : Miner) (bps amount : ℕ) :
    Ensures (referralAmount m amount bps) fun share => ∀ e : ProgramError,
      Ensures (subU64 e amount share) fun rest => SplitsClaim m bps amount share rest := by
  by_cases hsome : m.referrerAccount.isSome
  · simp only [referralAmount, if_pos hsome, ensures_bind, ensures_mulU64, ensures_pure,
      ensures_subU64]
    intro _ _ hle
    exact ⟨Nat.add_sub_cancel' hle, (if_pos hsome).symm⟩
  · simp only [referralAmount, if_neg hsome, ensures_pure, ensures_subU64]
    intro _ hle
    exact ⟨Nat.add_sub_cancel' hle, (if_neg hsome).symm⟩

/-- Without a referrer there is no share. -/
theorem SplitsClaim.share_eq_zero {share rest : ℕ} (h : SplitsClaim m bps amount share rest)
    (hnone : m.referrerAccount = none) : share = 0 := by
  rw [h.share, hnone]
  rfl

/-- The two parts are paid one after the other. -/
theorem paysOut_of_moved {l l' l'' : Pubkey → ℕ} {source p dest : Pubkey} {share rest : ℕ}
    (h : Moved l l' source p share) (h' : Moved l' l'' source dest rest) :
    PaysOut l l'' source (some p) dest share rest := by
  intro k
  have hshare := h.balance k
  have hrest := h'.balance k
  simp only [Option.some.injEq, eq_comm (a := p)]
  by_cases hsource : k = source
  · simp only [if_pos hsource] at hshare hrest ⊢
    omega
  · simp only [if_neg hsource] at hshare hrest ⊢
    omega

/-- Nobody else is paid. -/
theorem paysOut_of_moved_rest {l l' : Pubkey → ℕ} {source dest : Pubkey} {rest : ℕ}
    (h : Moved l l' source dest rest) : PaysOut l l' source none dest 0 rest := by
  intro k
  have hrest := h.balance k
  simp only [Nat.zero_add, reduceCtorEq, if_false, Nat.add_zero]
  exact hrest

theorem Moved.zero (l : Pubkey → ℕ) (source dest : Pubkey) : Moved l l source dest 0 :=
  ⟨Nat.zero_le _, fun _ => by simp⟩

/-- Without a referrer, no referrer changes. -/
theorem creditsReferrer_none {credit : ℕ → Referrer → Referrer} {share : ℕ} {s s' : State}
    (hnone : m.referrerAccount = none) (hsame : s'.referrers = s.referrers) :
    CreditsReferrer credit m share s s' := by
  refine ⟨fun k => ?_, fun k hk => ?_⟩
  · rw [hsame, hnone]
    simp
  · rw [hnone] at hk
    cases hk

/-- The referrer that is written back is the one the miner names. -/
theorem creditsReferrer_put {credit : ℕ → Referrer → Referrer} {share : ℕ} {s s' : State}
    {p : Pubkey} {x : Referrer} (hsome : m.referrerAccount = some p)
    (hx : s.referrers.get p = some x) (hauth : (credit share x).authority = x.authority)
    (hput : s'.referrers = s.referrers.put (credit share x)) :
    CreditsReferrer credit m share s s' := by
  have hkey : x.pda = p := s.referrers.key_of_get _ _ hx
  have hpda : (credit share x).pda = p := by rw [Referrer.pda, hauth, ← hkey, Referrer.pda]
  refine ⟨fun k => ?_, fun k hk => ?_⟩
  · rw [hput, Store.get_put, hpda, hsome]
    by_cases hk : k = p
    · subst hk
      simp [hx]
    · have hne : ¬ some p = some k := fun h => hk (Option.some.inj h).symm
      simp [hk, hne]
  · rw [hsome] at hk
    cases hk
    exact ⟨x, hx, hkey.symm⟩

end Split

section Credit

variable {m : Miner} {bps amount share rest : ℕ}

/-- The referrer of a SOL claim books its share and gets it, then the rest is paid. -/
theorem creditReferrerSol_spec {s : State} (minerInfo : AccountInfo) (infos : List AccountInfo)
    (hsplit : SplitsClaim m bps amount share rest) :
    Ensures (creditReferrerSol m minerInfo share infos s) fun s' =>
      CreditsReferrer Referrer.creditSol m share s s' ∧
      ∃ l r, s' = { s with lamports := l, referrers := r } ∧
        ∀ dest l', Moved l l' minerInfo.key dest rest →
          PaysOut s.lamports l' minerInfo.key m.referrerAccount dest share rest := by
  cases hreferrer : m.referrerAccount with
  | none =>
    simp only [creditReferrerSol, hreferrer, ensures_bind, ensures_require, ensures_pure]
    intro _
    refine ⟨creditsReferrer_none hreferrer rfl, s.lamports, s.referrers, rfl, ?_⟩
    intro dest l' hmoved
    rw [hsplit.share_eq_zero hreferrer]
    exact paysOut_of_moved_rest hmoved
  | some p =>
    simp only [creditReferrerSol, hreferrer]
    split
    · simp only [loadReferrer, ensures_bind, ensures_fromOption, ensures_require,
        ensures_addU64, ensures_pure]
      intro x hx _ hp _ _ _
      refine Ensures.mono (State.send_spec _ _ _ _) ?_
      rintro _ ⟨l, rfl, hl⟩
      rw [hp] at hx hl
      refine ⟨creditsReferrer_put hreferrer hx rfl rfl, l, _, rfl, ?_⟩
      exact fun dest l' hmoved => paysOut_of_moved hl hmoved
    · exact ensures_throw.2 trivial

/-- The referrer of a GODL claim books its share and gets it, then the rest is paid. -/
theorem creditReferrerGodl_spec {s : State} {treasuryTokensInfo mintInfo : AccountInfo}
    (infos : List AccountInfo) (hmint : mintInfo.key = mintAddress)
    (hsplit : SplitsClaim m bps amount share rest) :
    Ensures (creditReferrerGodl m treasuryTokensInfo mintInfo share infos s) fun s' =>
      CreditsReferrer Referrer.creditGodl m share s s' ∧
      ∃ tok r, s' = { s with tokens := tok, referrers := r } ∧
        ∀ dest l', Moved (balances tok) l' treasuryTokensInfo.key dest rest →
          PaysOut (balances s.tokens) l' treasuryTokensInfo.key
            (m.referrerAccount.map (.associatedTokenAddress · mintAddress)) dest share rest := by
  cases hreferrer : m.referrerAccount with
  | none =>
    simp only [creditReferrerGodl, hreferrer, ensures_bind, ensures_require, ensures_pure]
    intro _
    refine ⟨creditsReferrer_none hreferrer rfl, s.tokens, s.referrers, rfl, ?_⟩
    intro dest l' hmoved
    rw [hsplit.share_eq_zero hreferrer]
    exact paysOut_of_moved_rest hmoved
  | some p =>
    simp only [creditReferrerGodl, hreferrer]
    split
    · simp only [loadReferrer, ensures_bind, ensures_fromOption, ensures_require,
        ensures_addU64, ensures_pure]
      intro x hx _ hp _ _ htokens _ _ _ _
      refine Ensures.mono (State.transferTokens_spec _ _ _ _) ?_
      rintro _ ⟨tok, rfl, hl, -⟩
      rw [htokens, hmint, hp] at hl
      rw [hp] at hx
      refine ⟨creditsReferrer_put hreferrer hx rfl rfl, tok, _, rfl, ?_⟩
      exact fun dest l' hmoved => paysOut_of_moved hl hmoved
    · exact ensures_throw.2 trivial

end Credit

/-! ## The claims -/

section Claims

variable {s : State}

theorem processClaimSol_spec (clock : Clock) (signerInfo minerInfo systemProgram : AccountInfo)
    (infos : List AccountInfo) :
    Ensures (processClaimSol clock signerInfo minerInfo systemProgram infos s) fun s' =>
      ∃ m share rest, SolClaimed clock referralBps m m.authority s s' share rest := by
  simp only [processClaimSol, ensures_bind, ensures_require, ensures_fromOption]
  intro _ m hm hauth _
  have hkey : minerInfo.key = m.pda := (s.miners.key_of_get _ _ hm).symm
  refine Ensures.mono (referralAmount_splits m referralBps (m.claimSol clock).1)
    fun share hsub => ?_
  refine Ensures.mono (hsub _) fun rest hsplit => ?_
  refine Ensures.mono (creditReferrerSol_spec minerInfo infos hsplit) ?_
  rintro _ ⟨hcredit, l, r, rfl, hpaid⟩
  rw [hkey] at hm hpaid
  rw [← hauth]
  by_cases hrest : 0 < rest
  · rw [if_pos hrest]
    refine Ensures.mono (State.send_spec _ _ _ _) ?_
    rintro _ ⟨l', rfl, hl'⟩
    rw [hkey] at hl'
    exact ⟨m, share, rest, hm, rfl, hsplit, ⟨hcredit.get, hcredit.known⟩, hpaid _ _ hl'⟩
  · rw [if_neg hrest, ensures_pure]
    obtain rfl : rest = 0 := by omega
    exact ⟨m, share, 0, hm, rfl, hsplit, ⟨hcredit.get, hcredit.known⟩,
      hpaid _ _ (Moved.zero _ _ _)⟩

theorem processClaimSolAndFundAutomation_spec (clock : Clock) (signerInfo minerInfo
    automationV2Info systemProgram : AccountInfo) (infos : List AccountInfo) :
    Ensures (processClaimSolAndFundAutomation clock signerInfo minerInfo automationV2Info
      systemProgram infos s) fun s' => ∃ m share rest,
        SolClaimed clock (referralBps / 10) m (.automationV2Pda m.authority) s s' share rest := by
  simp only [processClaimSolAndFundAutomation, ensures_bind, ensures_require,
    ensures_fromOption]
  intro _ a _ _ _ _ hseeds m hm hauth _
  have hkey : minerInfo.key = m.pda := (s.miners.key_of_get _ _ hm).symm
  refine Ensures.mono (referralAmount_splits m (referralBps / 10) (m.claimSol clock).1) ?_
  intro share hsub
  refine Ensures.mono (hsub _) fun rest hsplit => ?_
  refine Ensures.mono (creditReferrerSol_spec minerInfo infos hsplit) ?_
  rintro _ ⟨hcredit, l, r, rfl, hpaid⟩
  rw [hkey] at hm hpaid
  rw [← hauth] at hseeds
  rw [hseeds]
  by_cases hrest : 0 < rest
  · rw [if_pos hrest, ensures_bind, ensures_addU64]
    intro _
    refine Ensures.mono (State.send_spec _ _ _ _) ?_
    rintro _ ⟨l', rfl, hl'⟩
    rw [hkey] at hl'
    exact ⟨m, share, rest, hm, rfl, hsplit, ⟨hcredit.get, hcredit.known⟩, hpaid _ _ hl'⟩
  · rw [if_neg hrest, ensures_pure]
    obtain rfl : rest = 0 := by omega
    exact ⟨m, share, 0, hm, rfl, hsplit, ⟨hcredit.get, hcredit.known⟩,
      hpaid _ _ (Moved.zero _ _ _)⟩

/-- What the claim splits and who is credited is still as it was. -/
structure BeforeClaim (s s' : State) : Prop where
  miners : s'.miners = s.miners
  referrers : s'.referrers = s.referrers
  treasury : s'.treasury = s.treasury
  balances : Godl.balances s'.tokens = Godl.balances s.tokens

theorem loadOrCreateMinerExtended_beforeClaim (minerExtendedInfo : AccountInfo)
    (authority : Pubkey) (payer : AccountInfo) (create : Bool) (s : State) :
    Ensures (loadOrCreateMinerExtended minerExtendedInfo authority payer create s) fun p =>
      BeforeClaim s p.2 := by
  refine Ensures.mono (loadOrCreateMinerExtended_spec _ _ _ _ _) ?_
  rintro ⟨extended, _⟩ ⟨hopen, -⟩
  obtain ⟨l, t, rfl, -⟩ := hopen.change
  exact ⟨rfl, rfl, rfl, rfl⟩

theorem openTokenAccount_beforeClaim (info : AccountInfo) (owner mint : Pubkey)
    (payer : AccountInfo) (s : State) :
    Ensures (s.openTokenAccount info owner mint payer) fun s' =>
      info.key = .associatedTokenAddress owner mint ∧ BeforeClaim s s' := by
  refine Ensures.mono (State.openTokenAccount_spec _ _ _ _ _) ?_
  rintro _ ⟨hkey, l, tok, rfl, -, hbalances⟩
  exact ⟨hkey, rfl, rfl, rfl, hbalances⟩

theorem syncGoldRewards_beforeClaim (extended : Option MinerExtended) (m : Miner) (s : State) :
    Ensures (syncGoldRewards extended m s) (BeforeClaim s) := by
  unfold syncGoldRewards
  split
  · simp only [ensures_bind, ensures_pure]
    exact ensures_of_forall fun _ => ensures_of_forall fun _ => ⟨rfl, rfl, rfl, rfl⟩
  · simp only [ensures_bind, ensures_pure]
    exact ensures_of_forall fun _ => ⟨rfl, rfl, rfl, rfl⟩

theorem BeforeClaim.trans {s s' s'' : State} (h : BeforeClaim s s') (h' : BeforeClaim s' s'') :
    BeforeClaim s s'' :=
  ⟨h'.miners.trans h.miners, h'.referrers.trans h.referrers, h'.treasury.trans h.treasury,
    h'.balances.trans h.balances⟩

/-- What is left after the referrer's share goes to the authority's token account. -/
theorem payRestGodl_spec {clock : Clock} {m : Miner} {s t : State} {amount share rest : ℕ}
    (hm : s.miners.get m.pda = some m)
    (hclaimed : ∃ m', m.claimGodl clock s.treasury = .ok (amount, m', t.treasury) ∧
      t.miners = s.miners.put m')
    (hsplit : SplitsClaim m referralBps amount share rest)
    (hcredit : CreditsReferrer Referrer.creditGodl m share s t)
    (hpaid : ∀ l', Moved (balances t.tokens) l' treasuryTokensAddress
        (.associatedTokenAddress m.authority mintAddress) rest →
      PaysOut (balances s.tokens) l' treasuryTokensAddress
        (m.referrerAccount.map (.associatedTokenAddress · mintAddress))
        (.associatedTokenAddress m.authority mintAddress) share rest) :
    Ensures (if 0 < rest then t.transferTokens treasuryTokensAddress
        (.associatedTokenAddress m.authority mintAddress) rest else pure t) fun s' =>
      GodlClaimed clock m s s' amount share rest := by
  by_cases hrest : 0 < rest
  · rw [if_pos hrest]
    refine Ensures.mono (State.transferTokens_spec _ _ _ _) ?_
    rintro _ ⟨tok, rfl, hl, -⟩
    exact ⟨hm, hclaimed, hsplit, ⟨hcredit.get, hcredit.known⟩, hpaid _ hl⟩
  · rw [if_neg hrest, ensures_pure]
    have hzero : rest = 0 := by omega
    subst hzero
    exact ⟨hm, hclaimed, hsplit, hcredit, hpaid _ (Moved.zero _ _ _)⟩

theorem processClaimGodl_split (clock : Clock) (signerInfo configInfo minerInfo mintInfo
    recipientInfo treasuryInfo treasuryTokensInfo systemProgram tokenProgram
    associatedTokenProgram goldVaultInfo minerExtendedInfo : AccountInfo)
    (infos : List AccountInfo) :
    Ensures (processClaimGodl clock signerInfo configInfo minerInfo mintInfo recipientInfo
      treasuryInfo treasuryTokensInfo systemProgram tokenProgram associatedTokenProgram
      goldVaultInfo minerExtendedInfo infos s) fun s' =>
        ∃ m amount share rest, GodlClaimed clock m s s' amount share rest := by
  simp only [processClaimGodl, ensures_bind, ensures_require, ensures_fromOption]
  intro _ m hm hauth hmint _ htreasury htokens _ _ _ _ _ _ _
  have hkey : m.pda = minerInfo.key := s.miners.key_of_get _ _ hm
  rw [htreasury.1, hmint] at htokens
  refine Ensures.mono (loadOrCreateMinerExtended_beforeClaim _ _ _ _ _) fun p h₁ => ?_
  refine Ensures.mono (openTokenAccount_beforeClaim _ _ _ _ _) fun s₂ h₂ => ?_
  refine Ensures.mono (syncGoldRewards_beforeClaim _ _ _) fun s₃ h₃ => ?_
  have hbefore := (h₁.trans h₂.2).trans h₃
  rintro ⟨amount, m', treasury⟩ hclaim
  rw [hbefore.treasury] at hclaim
  refine Ensures.mono (referralAmount_splits m referralBps amount) fun share hsub => ?_
  refine Ensures.mono (hsub _) fun rest hsplit => ?_
  refine Ensures.mono (creditReferrerGodl_spec infos hmint hsplit) ?_
  rintro _ ⟨hcredit, tok, r, rfl, hpaid⟩
  rw [h₂.1, ← hauth, hmint, htokens]
  rw [htokens] at hpaid
  rw [← hkey] at hm
  refine Ensures.mono (P := fun s' => GodlClaimed clock m s s' amount share rest) ?_ ?_
  · refine payRestGodl_spec hm ?_ hsplit ?_ ?_
    · exact ⟨m', hclaim, congrArg (·.put m') hbefore.miners⟩
    · have hget := hcredit.get
      have hknown := hcredit.known
      rw [hbefore.referrers] at hget hknown
      exact ⟨hget, hknown⟩
    · rw [← hbefore.balances]
      exact hpaid _
  · exact fun s' hs' => ⟨m, amount, share, rest, hs'⟩

end Claims

end Godl
