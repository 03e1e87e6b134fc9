import Godl.Proof.CheckpointHandler
import Godl.Proof.CloseHandler
import Godl.Proof.DeployHandler
import Godl.System

/-!
# The config and the referrals

Few instructions write the config, and only one names the referrer of a miner.  All other
ones, also those that create miners or pay referrers, leave both as they were.

## Main definitions

* `State.registry` — the config, who refers whom, and the counts of the referrers.
* `Keeps` — a computation that leaves the registry as it was.
-/

namespace Godl

open Lib

/-- What most instructions leave alone. -/
structure Registry where
  config : Config
  /-- The referrer of every miner; the null address where there is none. -/
  referrer : Pubkey → Pubkey
  /-- How often every referrer counts itself named. -/
  referrerCount : Pubkey → ℕ

/-- The referrer of the miner at an address. -/
def State.referrer (s : State) : Pubkey → Pubkey := s.miners.view Pubkey.default (·.referrer)

/-- The count of the referrer at an address. -/
def State.referrerCount (s : State) : Pubkey → ℕ := s.referrers.view 0 (·.referrerCount)

def State.registry (s : State) : Registry := ⟨s.config, s.referrer, s.referrerCount⟩

/-- A value that carries a state. -/
class HasRegistry (α : Type) where
  registry : α → Registry

instance : HasRegistry State := ⟨State.registry⟩

instance {α β : Type} [HasRegistry β] : HasRegistry (α × β) := ⟨fun p => HasRegistry.registry p.2⟩

/-- The state that is returned has a given registry. -/
def Keeps {α : Type} [HasRegistry α] (r : Registry) (x : Result α) : Prop :=
  Ensures x fun a => HasRegistry.registry a = r

section Rules

variable {α β : Type} {r : Registry}

theorem keeps_bind [HasRegistry α] [HasRegistry β] {x : Result α} {f : α → Result β}
    (hx : Keeps r x) (hf : ∀ a, HasRegistry.registry a = r → Keeps r (f a)) :
    Keeps r (x >>= f) := by
  rw [Keeps, ensures_bind]
  exact Ensures.mono hx hf

/-- What is read does not matter. -/
theorem keeps_any [HasRegistry β] {x : Result α} {f : α → Result β} (hf : ∀ a, Keeps r (f a)) :
    Keeps r (x >>= f) := by
  rw [Keeps, ensures_bind]
  exact ensures_of_forall hf

theorem keeps_pure [HasRegistry α] {a : α} (ha : HasRegistry.registry a = r) :
    Keeps r (pure a : Result α) := ensures_pure.2 ha

theorem keeps_error [HasRegistry α] {e : ProgramError} : Keeps r (.error e : Result α) :=
  ensures_error.2 trivial

theorem keeps_throw [HasRegistry α] {e : ProgramError} : Keeps r (throw e : Result α) :=
  ensures_throw.2 trivial

theorem keeps_ite [HasRegistry α] {c : Prop} [Decidable c] {x y : Result α} (hx : Keeps r x)
    (hy : Keeps r y) : Keeps r (if c then x else y) := by
  split
  · exact hx
  · exact hy

end Rules

/-! ## Moving lamports and tokens -/

section Moves

variable {s : State} {r : Registry} (hs : s.registry = r)

include hs

theorem send_keeps (source dest : Pubkey) (n : ℕ) : Keeps r (s.send source dest n) := by
  refine Ensures.mono (s.send_spec source dest n) ?_
  rintro _ ⟨l, rfl, -⟩
  exact hs

theorem collect_keeps (dest : Pubkey) (n : ℕ) (payer : AccountInfo) :
    Keeps r (s.collect dest n payer) := by
  refine Ensures.mono (s.collect_spec dest n payer) ?_
  rintro _ ⟨l, rfl, -⟩
  exact hs

theorem createAccount_keeps (target : AccountInfo) (len : ℕ) (payer : AccountInfo) :
    Keeps r (s.createAccount target len payer) := by
  refine Ensures.mono (s.createAccount_spec target len payer) ?_
  rintro _ ⟨-, l, rfl, -⟩
  exact hs

theorem transferTokens_keeps (source dest : Pubkey) (n : ℕ) :
    Keeps r (s.transferTokens source dest n) := by
  refine Ensures.mono (s.transferTokens_spec source dest n) ?_
  rintro _ ⟨tok, rfl, -⟩
  exact hs

theorem transferTokensFrom_keeps (authority : AccountInfo) (source dest : Pubkey) (n : ℕ) :
    Keeps r (s.transferTokensFrom authority source dest n) :=
  keeps_any fun _ => transferTokens_keeps hs source dest n

theorem burnTokens_keeps (source : Pubkey) (n : ℕ) : Keeps r (s.burnTokens source n) := by
  refine Ensures.mono (s.burnTokens_spec source n) ?_
  rintro _ ⟨tok, rfl, -⟩
  exact hs

theorem mintGodl_keeps (dest : Pubkey) (n : ℕ) : Keeps r (s.mintGodl dest n) := by
  refine Ensures.mono (s.mintGodl_spec dest n) ?_
  rintro _ ⟨tok, rfl, -⟩
  exact hs

theorem createTokenAccount_keeps (info : AccountInfo) (owner mint : Pubkey)
    (payer : AccountInfo) : Keeps r (s.createTokenAccount info owner mint payer) :=
  keeps_any fun _ => keeps_bind (createAccount_keeps hs _ _ _) fun _ hs' => keeps_pure hs'

theorem openTokenAccount_keeps (info : AccountInfo) (owner mint : Pubkey)
    (payer : AccountInfo) : Keeps r (s.openTokenAccount info owner mint payer) := by
  refine Ensures.mono (s.openTokenAccount_spec info owner mint payer) ?_
  rintro _ ⟨-, l, tok, rfl, -⟩
  exact hs

theorem closeTokenAccount_keeps (source dest : Pubkey) :
    Keeps r (s.closeTokenAccount source dest) := by
  refine Ensures.mono (s.closeTokenAccount_spec source dest) ?_
  rintro _ ⟨l, tok, rfl, -⟩
  exact hs

theorem syncNative_keeps (account : Pubkey) : Keeps r (s.syncNative account) := by
  refine Ensures.mono (s.syncNative_spec account) ?_
  rintro _ ⟨tok, rfl, -⟩
  exact hs

end Moves

/-! ## Writing miners and referrers -/

section Records

variable {s : State} {r : Registry} {k : Pubkey} {m m' : Miner}

theorem referrer_of_registry {s' : State} (hs' : s'.registry = r) (hs : s.registry = r) :
    s'.referrer = s.referrer := congrArg Registry.referrer (hs'.trans hs.symm)

theorem referrer_of_get (h : s.miners.get k = some m) : s.referrer k = m.referrer :=
  Store.view_of_get h

/-- A miner may be written back with the referrer that the state knows. -/
theorem registry_putMiner (hs : s.registry = r) (h : s.referrer m.pda = m.referrer) :
    ({ s with miners := s.miners.put m } : State).registry = r := by
  rw [← hs]
  refine congrArg (fun f => (⟨s.config, f, s.referrerCount⟩ : Registry)) ?_
  exact Store.view_put_of_eq h

/-- A change of a stored miner that keeps its authority and its referrer. -/
theorem registry_replaceMiner (hs : s.registry = r) (hget : s.miners.get k = some m)
    (hauth : m'.authority = m.authority) (href : m'.referrer = m.referrer) :
    ({ s with miners := s.miners.put m' } : State).registry = r := by
  have hpda : m'.pda = k := by
    rw [Miner.pda, hauth]
    exact s.miners.key_of_get k m hget
  refine registry_putMiner hs ?_
  rw [hpda, href]
  exact referrer_of_get hget

/-- A change of a stored referrer that keeps its authority and its count. -/
theorem registry_replaceReferrer (hs : s.registry = r) {x x' : Referrer}
    (hget : s.referrers.get k = some x) (hauth : x'.authority = x.authority)
    (hcount : x'.referrerCount = x.referrerCount) :
    ({ s with referrers := s.referrers.put x' } : State).registry = r := by
  have hpda : x'.pda = k := by
    rw [Referrer.pda, hauth]
    exact s.referrers.key_of_get k x hget
  rw [← hs]
  refine congrArg (fun f => (⟨s.config, s.referrer, f⟩ : Registry)) ?_
  refine Store.view_put_of_eq ?_
  rw [hpda, hcount]
  exact Store.view_of_get hget

end Records

/-- Settling keeps the owner and the referrer. -/
theorem Miner.updateRewards_referrer (m : Miner) (t : Treasury) :
    Ensures (m.updateRewards t) fun m' => m'.authority = m.authority ∧
      m'.referrer = m.referrer := by
  simp only [Miner.updateRewards, ensures_ite, ensures_bind, ensures_addU64, ensures_pure]
  refine ⟨fun _ => ?_, fun _ => ⟨trivial, trivial⟩⟩
  exact ensures_of_forall fun _ => ensures_of_forall fun _ _ _ => ⟨trivial, trivial⟩

theorem Miner.claimGodl_referrer (m : Miner) (clock : Clock) (t : Treasury) :
    Ensures (m.claimGodl clock t) fun p => p.2.1.authority = m.authority ∧
      p.2.1.referrer = m.referrer := by
  simp only [Miner.claimGodl, ensures_bind, ensures_addU64, ensures_subU64]
  refine Ensures.mono (Miner.updateRewards_referrer m t) fun x hx _ _ _ => ?_
  simp only [ensures_ite, ensures_bind, ensures_subU64, ensures_addU64, ensures_pure]
  refine ⟨fun _ _ => ?_, fun _ => hx⟩
  exact ensures_of_forall fun _ => ensures_of_forall fun _ _ _ => hx

theorem resetMiner_referrer (round : Round) (m : Miner) :
    Ensures (resetMiner round m) fun m' => m'.authority = m.authority ∧
      m'.referrer = m.referrer := by
  simp only [resetMiner, ensures_ite, ensures_bind, ensures_require, ensures_pure]
  exact ⟨fun _ _ => ⟨trivial, trivial⟩, fun _ _ => ⟨trivial, trivial⟩⟩

section Open

variable {s : State} {r : Registry} (hs : s.registry = r)

include hs

/-- A miner that is opened has the referrer that the state knows: none when it is new. -/
theorem openMiner_keeps (e : ProgramError) {minerInfo : AccountInfo} {authority : Pubkey}
    (payer : AccountInfo) (hkey : minerInfo.key = .minerPda authority) :
    Ensures (openMiner e minerInfo authority payer s) fun p => p.2.registry = r ∧
      p.2.referrer p.1.pda = p.1.referrer := by
  refine Ensures.mono (openMiner_spec e minerInfo authority payer s) ?_
  rintro ⟨m, _⟩ ⟨l, rfl, -, hauth, hm⟩
  refine ⟨hs, ?_⟩
  have hpda : m.pda = minerInfo.key := by rw [Miner.pda, hauth, hkey]
  rw [← hpda] at hm
  rcases hm with ⟨hnone, rfl⟩ | hsome
  · exact Store.view_of_none hnone
  · exact referrer_of_get hsome

theorem loadOrCreateMinerExtended_keeps (minerExtendedInfo : AccountInfo) (authority : Pubkey)
    (payer : AccountInfo) (create : Bool) :
    Keeps r (loadOrCreateMinerExtended minerExtendedInfo authority payer create s) := by
  refine keeps_any fun _ => keeps_any fun _ => keeps_ite (keeps_ite ?_ (keeps_pure hs)) ?_
  · exact keeps_bind (createAccount_keeps hs _ _ _) fun _ h => keeps_pure h
  · exact keeps_any fun _ => keeps_any fun _ => keeps_pure hs

theorem syncGoldRewards_keeps (extended : Option MinerExtended) (m : Miner) :
    Keeps r (syncGoldRewards extended m s) := by
  unfold syncGoldRewards
  split
  · exact keeps_any fun _ => keeps_any fun _ => keeps_pure hs
  · exact keeps_any fun _ => keeps_pure hs

/-- What is credited goes to the miner in hand. -/
theorem creditUnrefined_keeps {e : ProgramError} {amount : ℕ}
    {minerExtendedInfo payer : AccountInfo} {authority : Pubkey} {m : Miner}
    (hm : s.referrer m.pda = m.referrer) :
    Ensures (creditUnrefined e amount minerExtendedInfo payer authority m s) fun p =>
      p.2.registry = r ∧ p.2.referrer p.1.pda = p.1.referrer := by
  simp only [creditUnrefined, ensures_bind, ensures_addU64, ensures_pure]
  refine Ensures.mono (loadOrCreateMinerExtended_keeps hs _ _ _ _) fun p hp => ?_
  refine Ensures.mono (Miner.updateRewards_referrer m _) fun m' hm' => ?_
  refine Ensures.mono (syncGoldRewards_keeps hp p.1 m') fun s' hs' _ _ _ => ?_
  refine ⟨hs', ?_⟩
  have hsame : s'.referrer = s.referrer := referrer_of_registry hs' hs
  show s'.referrer (.minerPda m'.authority) = m'.referrer
  rw [hsame, hm'.1, hm'.2]
  exact hm

end Open

/-! ## Claims and referrals -/

section Claims

variable {s : State} {r : Registry} (hs : s.registry = r)

include hs

theorem creditReferrerSol_keeps (miner : Miner) (minerInfo : AccountInfo) (share : ℕ)
    (rest : List AccountInfo) : Keeps r (creditReferrerSol miner minerInfo share rest s) := by
  unfold creditReferrerSol
  split
  · split
    · simp only [loadReferrer, Keeps, ensures_bind, ensures_fromOption, ensures_require,
        ensures_addU64, ensures_pure]
      intro x hx _ _ _ _ _
      refine send_keeps ?_ _ _ _
      exact registry_replaceReferrer hs hx rfl rfl
    · exact keeps_throw
  · exact keeps_any fun _ => keeps_pure hs

theorem creditReferrerGodl_keeps (miner : Miner) (treasuryTokensInfo mintInfo : AccountInfo)
    (share : ℕ) (rest : List AccountInfo) :
    Keeps r (creditReferrerGodl miner treasuryTokensInfo mintInfo share rest s) := by
  unfold creditReferrerGodl
  split
  · split
    · simp only [loadReferrer, Keeps, ensures_bind, ensures_fromOption, ensures_require,
        ensures_addU64, ensures_pure]
      intro x hx _ _ _ _ _ _ _ _ _
      refine transferTokens_keeps ?_ _ _ _
      exact registry_replaceReferrer hs hx rfl rfl
    · exact keeps_throw
  · exact keeps_any fun _ => keeps_pure hs

theorem processClaimSol_keeps (clock : Clock) (signerInfo minerInfo systemProgram : AccountInfo)
    (rest : List AccountInfo) :
    Keeps r (processClaimSol clock signerInfo minerInfo systemProgram rest s) := by
  simp only [processClaimSol, Keeps, ensures_bind, ensures_require, ensures_fromOption,
    ensures_subU64]
  intro _ m hm _ _
  refine ensures_of_forall fun share _ => ?_
  have hput : ({ s with miners := s.miners.put (m.claimSol clock).2 } : State).registry = r :=
    registry_replaceMiner hs hm rfl rfl
  refine Ensures.mono (creditReferrerSol_keeps hput _ _ _ _) fun s' hs' => ?_
  exact keeps_ite (send_keeps hs' _ _ _) (keeps_pure hs')

theorem processClaimSolAndFundAutomation_keeps (clock : Clock) (signerInfo minerInfo
    automationV2Info systemProgram : AccountInfo) (rest : List AccountInfo) :
    Keeps r (processClaimSolAndFundAutomation clock signerInfo minerInfo automationV2Info
      systemProgram rest s) := by
  simp only [processClaimSolAndFundAutomation, Keeps, ensures_bind, ensures_require,
    ensures_fromOption, ensures_subU64]
  intro _ automation _ _ _ _ _ m hm _ _
  refine ensures_of_forall fun share _ => ?_
  have hput : ({ s with miners := s.miners.put (m.claimSol clock).2 } : State).registry = r :=
    registry_replaceMiner hs hm rfl rfl
  refine Ensures.mono (creditReferrerSol_keeps hput _ _ _ _) fun s' hs' => ?_
  refine keeps_ite (keeps_any fun balance => ?_) (keeps_pure hs')
  refine send_keeps ?_ _ _ _
  exact hs'

theorem processClaimGodl_keeps (clock : Clock) (signerInfo configInfo minerInfo mintInfo
    recipientInfo treasuryInfo treasuryTokensInfo systemProgram tokenProgram
    associatedTokenProgram goldVaultInfo minerExtendedInfo : AccountInfo)
    (rest : List AccountInfo) :
    Keeps r (processClaimGodl clock signerInfo configInfo minerInfo mintInfo recipientInfo
      treasuryInfo treasuryTokensInfo systemProgram tokenProgram associatedTokenProgram
      goldVaultInfo minerExtendedInfo rest s) := by
  simp only [processClaimGodl, Keeps, ensures_bind, ensures_require, ensures_fromOption,
    ensures_subU64]
  intro _ m hm _ _ _ _ _ _ _ _ _ _ _ _
  refine Ensures.mono (loadOrCreateMinerExtended_keeps hs _ _ _ _) ?_
  rintro ⟨extended, s₀⟩ hs₀
  refine Ensures.mono (openTokenAccount_keeps hs₀ _ _ _ _) fun s₁ hs₁ => ?_
  refine Ensures.mono (syncGoldRewards_keeps hs₁ _ _) fun s₂ hs₂ => ?_
  refine Ensures.mono (Miner.claimGodl_referrer m _ _) ?_
  rintro ⟨amount, m', treasury⟩ ⟨hauth, href⟩
  refine ensures_of_forall fun share _ => ?_
  -- The miner that claims is still stored as it was loaded.
  have hpda : m'.pda = minerInfo.key := by
    rw [Miner.pda, hauth]
    exact s.miners.key_of_get _ _ hm
  have hput : ({ s₂ with miners := s₂.miners.put m' } : State).registry = r := by
    refine registry_putMiner hs₂ ?_
    rw [hpda, href, referrer_of_registry hs₂ hs]
    exact referrer_of_get hm
  refine Ensures.mono (creditReferrerGodl_keeps (r := r) ?_ _ _ _ _ _) fun s₃ hs₃ => ?_
  · exact hput
  · exact keeps_ite (transferTokens_keeps hs₃ _ _ _) (keeps_pure hs₃)

theorem processClaimReferral_keeps (authorityInfo referrerInfo referrerTokensInfo
    authorityTokensInfo mintInfo systemProgram tokenProgram associatedTokenProgram :
    AccountInfo) :
    Keeps r (processClaimReferral authorityInfo referrerInfo referrerTokensInfo
      authorityTokensInfo mintInfo systemProgram tokenProgram associatedTokenProgram s) := by
  simp only [processClaimReferral, Keeps, ensures_bind, ensures_require, ensures_fromOption]
  intro _ _ _ _ _ _ _ _ _ x hx _ _ _ _
  refine Ensures.mono (State.openTokenAccount_spec s _ _ _ _) ?_
  rintro _ ⟨-, l, tok, rfl, -⟩
  rw [ensures_ite]
  refine ⟨fun _ => keeps_pure hs, fun _ => ?_⟩
  have hput : ({ s with
      lamports := l
      tokens := tok
      referrers := s.referrers.put { x with rewardsGodl := 0, rewardsSol := 0 } } : State).registry
        = r := registry_replaceReferrer (s := { s with lamports := l, tokens := tok }) hs hx rfl rfl
  have hrest : ∀ s' : State, s'.registry = r → Keeps r (if 0 < x.rewardsSol then
      s'.send referrerInfo.key authorityInfo.key x.rewardsSol else pure s') :=
    fun s' hs' => keeps_ite (send_keeps hs' _ _ _) (keeps_pure hs')
  rw [ensures_ite]
  refine ⟨fun _ => ?_, fun _ => hrest _ hput⟩
  exact keeps_bind (transferTokens_keeps hput _ _ _) hrest

/-- A new referrer was named by nobody, as before. -/
theorem processInitializeReferrer_keeps (authorityInfo referrerInfo referrerTokensInfo mintInfo
    systemProgram tokenProgram associatedTokenProgram : AccountInfo) :
    Keeps r (processInitializeReferrer authorityInfo referrerInfo referrerTokensInfo mintInfo
      systemProgram tokenProgram associatedTokenProgram s) := by
  simp only [processInitializeReferrer, Keeps, ensures_bind, ensures_require]
  intro _ _ _ hempty hkey _ _ _ _
  refine Ensures.mono (State.createAccount_spec s _ _ _) ?_
  rintro _ ⟨-, l, rfl, -⟩
  refine openTokenAccount_keeps ?_ _ _ _ _
  have hnone : s.referrers.get (.referrerPda authorityInfo.key) = none := by
    simp only [State.dataIsEmpty, Bool.and_eq_true, Option.isNone_iff_eq_none] at hempty
    rw [← hkey]
    exact hempty.1.1.1.1.1.1.1.1.1.1.1.1.2
  rw [← hs]
  refine congrArg (fun f => (⟨s.config, s.referrer, f⟩ : Registry)) ?_
  exact Store.view_put_of_eq (Store.view_of_none hnone)

end Claims

/-! ## Automations and trades -/

section Players

variable {s : State} {r : Registry} (hs : s.registry = r)

include hs

theorem openPoolMemberFor_keeps (poolMemberInfo signerInfo : AccountInfo) (isPooled : Bool) :
    Keeps r (openPoolMemberFor poolMemberInfo signerInfo isPooled s) := by
  refine keeps_ite (keeps_ite ?_ (keeps_pure hs)) ?_
  · exact keeps_bind (createAccount_keeps hs _ _ _) fun _ h => keeps_pure h
  · exact keeps_any fun _ => keeps_any fun _ => keeps_pure hs

theorem openAutomation_keeps (automationV2Info signerInfo : AccountInfo) :
    Keeps r (openAutomation automationV2Info signerInfo s) := by
  refine keeps_ite ?_ ?_
  · exact keeps_bind (createAccount_keeps hs _ _ _) fun _ h => keeps_pure h
  · exact keeps_any fun _ => keeps_any fun _ => keeps_pure hs

theorem processAutomate_keeps (args : AutomateArgs) (signerInfo automationV2Info executorInfo
    minerInfo poolMemberInfo systemProgram : AccountInfo) :
    Keeps r (processAutomate args signerInfo automationV2Info executorInfo minerInfo
      poolMemberInfo systemProgram s) := by
  simp only [processAutomate, Keeps, ensures_bind, ensures_require]
  refine ensures_of_forall fun _ _ _ _ _ hminer _ _ _ => ?_
  refine Ensures.mono (openMiner_keeps hs _ _ hminer) fun p hp => ?_
  have hput := registry_putMiner hp.1 hp.2
  refine keeps_ite ?_ ?_
  · exact keeps_any fun _ => keeps_any fun _ => keeps_pure hput
  · refine keeps_bind (openPoolMemberFor_keeps hput _ _ _) fun s₁ hs₁ => ?_
    refine keeps_bind (openAutomation_keeps hs₁ _ _) fun q hq => ?_
    refine keeps_any fun balance => keeps_ite (keeps_bind ?_ fun s₂ hs₂ => ?_) ?_
    · refine collect_keeps ?_ _ _ _
      have hsame : q.2.referrer = p.2.referrer := referrer_of_registry hq hp.1
      refine registry_putMiner hq ?_
      show q.2.referrer p.1.pda = p.1.referrer
      rw [hsame]
      exact hp.2
    · exact collect_keeps hs₂ _ _ _
    · refine keeps_bind (keeps_pure ?_) fun s₂ hs₂ => collect_keeps hs₂ _ _ _
      exact hq

theorem processInjectUnrefinedRewards_keeps (amount : ℕ) (signerInfo configInfo minerInfo
    treasuryInfo signerTokensInfo treasuryTokensInfo tokenProgram goldVaultInfo
    minerExtendedInfo systemProgram : AccountInfo) :
    Keeps r (processInjectUnrefinedRewards amount signerInfo configInfo minerInfo treasuryInfo
      signerTokensInfo treasuryTokensInfo tokenProgram goldVaultInfo minerExtendedInfo
      systemProgram s) := by
  simp only [processInjectUnrefinedRewards, Keeps, ensures_bind, ensures_require,
    ensures_fromOption, ensures_pure]
  intro _ _ _ _ m hm _ _ _ _ _ _ _ _ _ _ _ _ _ _ _ _
  refine Ensures.mono (transferTokensFrom_keeps hs _ _ _ _) fun s₁ hs₁ => ?_
  have hm₁ : s₁.referrer m.pda = m.referrer := by
    rw [referrer_of_registry hs₁ hs, ← referrer_of_get hm]
    exact congrArg s.referrer (s.miners.key_of_get _ _ hm)
  refine Ensures.mono (creditUnrefined_keeps hs₁ hm₁) fun p hp => ?_
  exact registry_putMiner hp.1 hp.2

theorem bookOtcTrade_keeps (args : OtcTradeArgs) (a : OtcTradeAccounts)
    (otcTreasuryTokens : ℕ) : Keeps r (bookOtcTrade args a otcTreasuryTokens s) := by
  refine keeps_any fun _ => keeps_any fun _ => keeps_any fun _ => keeps_any fun _ => ?_
  refine keeps_any fun solBalance => collect_keeps ?_ _ _ _
  exact hs

theorem openOtcUser_keeps (a : OtcTradeAccounts) : Keeps r (openOtcUser a s) := by
  refine keeps_ite ?_ ?_
  · exact keeps_bind (createAccount_keeps hs _ _ _) fun _ h => keeps_pure h
  · exact keeps_any fun _ => keeps_any fun _ => keeps_pure hs

theorem openOtcStake_keeps (clock : Clock) (args : OtcTradeArgs) (a : OtcTradeAccounts)
    (otcTreasuryTokens : ℕ) : Keeps r (openOtcStake clock args a otcTreasuryTokens s) := by
  refine keeps_bind (createAccount_keeps hs _ _ _) fun s₁ hs₁ => keeps_any fun _ => ?_
  refine keeps_any fun stake => keeps_bind (openTokenAccount_keeps ?_ _ _ _ _) fun s₂ hs₂ => ?_
  · exact hs₁
  · refine keeps_any ?_
    rintro ⟨deposited, stake', treasury⟩
    refine keeps_any fun _ => keeps_bind (transferTokens_keeps ?_ _ _ _) fun s₃ hs₃ =>
      keeps_pure hs₃
    exact hs₂

theorem payOtcBonus_keeps (args : OtcTradeArgs) (a : OtcTradeAccounts) {m : Miner}
    (hm : s.referrer m.pda = m.referrer) :
    Ensures (payOtcBonus args a m s) fun p => p.2.registry = r ∧
      p.2.referrer p.1.pda = p.1.referrer := by
  rw [payOtcBonus, ensures_ite]
  refine ⟨fun _ => ?_, fun _ => ensures_pure.2 ⟨hs, hm⟩⟩
  refine Ensures.bind (transferTokens_keeps hs _ _ _) fun s₁ hs₁ => ?_
  refine creditUnrefined_keeps hs₁ ?_
  rw [referrer_of_registry hs₁ hs]
  exact hm

theorem processExecuteOtcTrade_keeps (clock : Clock) (args : OtcTradeArgs)
    (a : OtcTradeAccounts) : Keeps r (processExecuteOtcTrade clock args a s) := by
  refine Ensures.bind (checkOtcTrade_spec clock args a s) fun _ hchecked => ?_
  refine keeps_bind (bookOtcTrade_keeps hs _ _ _) fun s₁ hs₁ => ?_
  refine Ensures.bind (openMiner_keeps hs₁ _ _ hchecked.1) ?_
  rintro ⟨m, s₂⟩ ⟨hs₂, hm⟩
  refine keeps_bind (openOtcUser_keeps hs₂ _) ?_
  rintro ⟨otcUser, s₃⟩ hs₃
  refine keeps_bind (openOtcStake_keeps hs₃ _ _ _ _) ?_
  rintro ⟨stake, s₄⟩ hs₄
  have hm₄ : s₄.referrer m.pda = m.referrer := by
    rw [referrer_of_registry hs₄ hs₂]
    exact hm
  refine Ensures.bind (payOtcBonus_keeps hs₄ _ _ hm₄) ?_
  rintro ⟨m', s₅⟩ ⟨hs₅, hm'⟩
  refine keeps_any fun solIn => keeps_any fun godlOut => keeps_any fun godlBonus => ?_
  refine keeps_any fun stakeTokens => keeps_any fun _ => keeps_pure ?_
  exact registry_putMiner hs₅ hm'

end Players

/-! ## Playing -/

section Play

variable {s : State} {r : Registry}

theorem deploySquare_referrer (c : DeployContext) (b : Bet) (sq : Square) :
    Ensures (deploySquare c b sq) fun b' => b'.miner.authority = b.miner.authority ∧
      b'.miner.referrer = b.miner.referrer ∧ b'.state.registry = b.state.registry := by
  simp only [deploySquare, deployPooled, openPoolMember, ensures_bind, ensures_addU64, ensures_ite,
    ensures_pure]
  refine fun _ _ _ => ⟨fun _ => ?_, fun _ _ => ⟨trivial, trivial, trivial⟩⟩
  split
  · simp only [ensures_bind, ensures_pure]
    refine Ensures.mono (createAccount_keeps rfl _ _ _) fun s' hs' _ => ⟨trivial, trivial, hs'⟩
  · simp only [ensures_bind, ensures_require, ensures_pure]
    exact fun _ _ => ⟨trivial, trivial, trivial⟩

/-- The loop over the squares changes neither the owner nor the referrer of the miner. -/
theorem deployLoop_referrer (c : DeployContext) (squares : Square → Bool) (l : List Square)
    (b : Bet) : Ensures (deployLoop c squares l b) fun b' =>
      b'.miner.authority = b.miner.authority ∧ b'.miner.referrer = b.miner.referrer ∧
        b'.state.registry = b.state.registry := by
  induction l generalizing b with
  | nil => exact ensures_ok.2 ⟨rfl, rfl, rfl⟩
  | cons sq rest ih =>
    rw [deployLoop]
    split
    · exact ih b
    · split
      · exact ih b
      · refine Ensures.bind (deploySquare_referrer c b sq) fun b₁ h₁ => ?_
        rw [ensures_bind]
        refine ensures_of_forall fun _ => ?_
        split
        · exact ensures_pure.2 h₁
        · refine Ensures.mono (ih b₁) fun b₂ h₂ => ?_
          exact ⟨h₂.1.trans h₁.1, h₂.2.1.trans h₁.2.1, h₂.2.2.trans h₁.2.2⟩

theorem openGold_keeps (hs : s.registry = r) (gold : Option (AccountInfo × AccountInfo))
    (a : DeployAccounts) : Keeps r (openGold gold a s) := by
  unfold openGold
  split
  · exact keeps_pure hs
  · exact keeps_bind (loadOrCreateMinerExtended_keeps hs _ _ _ _) fun _ h => keeps_pure h

theorem payBet_keeps (hs : s.registry = r) (a : DeployAccounts) (totalAmount : ℕ)
    (automation : Option AutomationV2) : Keeps r (payBet a totalAmount automation s) := by
  unfold payBet
  split
  · refine keeps_any fun spent => keeps_any fun balance => ?_
    refine keeps_bind (send_keeps ?_ _ _ _) fun s₁ hs₁ => ?_
    · exact hs
    · refine keeps_bind (send_keeps hs₁ _ _ _) fun s₂ hs₂ => keeps_any fun next => ?_
      exact keeps_ite (keeps_pure hs₂) (keeps_pure hs₂)
  · exact collect_keeps hs _ _ _

/-- Saving a bet writes the miner back. -/
theorem saveBet_registry {b : Bet} (hs : b.state.registry = r)
    (hm : b.state.referrer b.miner.pda = b.miner.referrer) : (saveBet b).registry = r :=
  registry_putMiner hs hm

theorem finishBet_keeps (c : DeployContext) (minerInfo : AccountInfo) {b : Bet}
    (hs : b.state.registry = r) (hm : b.state.referrer b.miner.pda = b.miner.referrer) :
    Keeps r (finishBet c minerInfo b) := by
  have hrest : ∀ s', s'.registry = r → Keeps r (if c.isPooled then do
      let poolMember ← fromOption b.poolMember .invalidAccountOwner
      require (poolMember.totalDeployed ≤ lamportsPerSol) .invalidInstructionData
      return s' else return s' : Result State) := fun s' hs' =>
    keeps_ite (keeps_any fun _ => keeps_any fun _ => keeps_pure hs') (keeps_pure hs')
  refine keeps_any fun lifetimeDeployed => ?_
  by_cases hfee : b.miner.checkpointFee = 0
  · simp only [hfee, if_true]
    refine keeps_bind (collect_keeps ?_ _ _ _) hrest
    exact saveBet_registry hs hm
  · simp only [hfee, if_false]
    exact hrest _ (saveBet_registry hs hm)

theorem placeBet_keeps (hs : s.registry = r) (args : DeployArgs) (a : DeployAccounts)
    (automation : Option AutomationV2) (squares : Square → Bool) (round : Round)
    (poolRound : PoolRound) {m : Miner} (hm : s.referrer m.pda = m.referrer) :
    Keeps r (placeBet args a automation squares round poolRound m s) := by
  set start : Bet := ⟨s, round, poolRound, m, s.poolMembers.get a.poolMemberInfo.key, 0⟩
  have hplaced : ∀ c : DeployContext, Keeps r (do
      let b ← deployLoop c squares squareList start
      let s ← finishBet c a.minerInfo b
      payBet a b.totalAmount automation s) := by
    intro c
    refine Ensures.bind (deployLoop_referrer c squares squareList start) ?_
    rintro b ⟨hauth, href, hb⟩
    have hb' : b.state.registry = r := hb.trans hs
    refine keeps_bind (finishBet_keeps c _ hb' ?_) fun s' hs' => payBet_keeps hs' _ _ _
    rw [referrer_of_registry hb' hs, href, Miner.pda, hauth]
    exact hm
  have hsaved : (saveBet start).registry = r := saveBet_registry hs hm
  cases automation with
  | some automation =>
    refine keeps_any fun affordable => ?_
    exact keeps_ite (hplaced _) (keeps_pure hsaved)
  | none => exact hplaced _

theorem deployBody_keeps (hs : s.registry = r) (clock : Clock) (env : Env) (args : DeployArgs)
    (a : DeployAccounts) (gold : Option (AccountInfo × AccountInfo))
    (entropyAccounts : List AccountInfo) (cpi : Cpi) :
    Keeps r (deployBody clock env args a gold entropyAccounts cpi s) := by
  have hrest : ∀ round pool, DeployChecked clock a s round pool → Keeps r (do
        let r ← openRound clock env a entropyAccounts cpi round s
        let automation ← loadAutomation a r.2
        let squares ← deploySquares env args r.1 automation
        let q ← openMiner .invalidAccountData a.minerInfo a.authorityInfo.key a.signerInfo r.2
        let s ← openGold gold a q.2
        let miner ← resetMiner r.1 q.1
        placeBet args a automation squares r.1 pool miner s : Result State) := by
    intro round pool hchecked
    refine Ensures.bind (openRound_spec _ _ _ _ _ _ _) ?_
    rintro ⟨round₁, _⟩ ⟨-, b, v, rfl, -⟩
    refine keeps_any fun automation => keeps_any fun squares => ?_
    refine Ensures.bind (openMiner_keeps (r := r) ?_ _ _ hchecked.miner) ?_
    · exact hs
    · rintro ⟨m, s₁⟩ ⟨hs₁, hm⟩
      refine keeps_bind (openGold_keeps hs₁ _ _) fun s₂ hs₂ => ?_
      refine Ensures.bind (resetMiner_referrer round₁ m) fun m' hm' => ?_
      refine placeBet_keeps hs₂ _ _ _ _ _ _ ?_
      rw [referrer_of_registry hs₂ hs₁, Miner.pda, hm'.1, hm'.2]
      exact hm
  refine Ensures.bind (checkDeployAccounts_spec clock a s) ?_
  rintro ⟨round, pool⟩ hchecked
  cases gold with
  | some gold => exact keeps_any fun _ => hrest round pool hchecked
  | none => exact hrest round pool hchecked

theorem botFee_referrer (clock : Clock) (round : Round) (m : Miner) :
    Ensures (botFee clock round m) fun p => p.2.authority = m.authority ∧
      p.2.referrer = m.referrer := by
  simp only [botFee, ensures_bind, ensures_subU64, ensures_ite, ensures_pure]
  exact fun _ => ⟨fun _ => ⟨trivial, trivial⟩, fun _ => ⟨trivial, trivial⟩⟩

theorem settleGold_keeps (hs : s.registry = r) (gold : Option (AccountInfo × AccountInfo))
    (signerInfo : AccountInfo) (m : Miner) (rewardsGodl : ℕ) :
    Keeps r (settleGold gold signerInfo m rewardsGodl s) := by
  unfold settleGold
  split
  · exact keeps_pure hs
  · refine keeps_bind (loadOrCreateMinerExtended_keeps hs _ _ _ _) ?_
    rintro ⟨extended, s₁⟩ hs₁
    exact keeps_any fun _ => syncGoldRewards_keeps hs₁ _ _

theorem payCheckpoint_keeps (hs : s.registry = r) (a : CheckpointAccounts) (m : Miner)
    (rewardsSol fee : ℕ) : Keeps r (payCheckpoint a m rewardsSol fee s) := by
  have hlast : ∀ s', s'.registry = r → Keeps r (do
      let s ← if 0 < fee then s'.send a.minerInfo.key a.signerInfo.key fee else pure s'
      require (minimumBalance minerSize + m.checkpointFee + (m.rewardsSol + rewardsSol) ≤
        s.lamports a.minerInfo.key) (.panic .minerInsufficientFunds)
      return s : Result State) := by
    intro s' hs'
    refine keeps_ite (keeps_bind (send_keeps hs' _ _ _) fun _ h => ?_) ?_
    · exact keeps_any fun _ => keeps_pure h
    · exact keeps_bind (keeps_pure hs') fun _ h => keeps_any fun _ => keeps_pure h
  refine keeps_ite (keeps_bind (send_keeps hs _ _ _) hlast) ?_
  exact hlast s hs

/-- A miner that is credited was loaded, perhaps without its fee. -/
theorem creditRound_keeps (hs : s.registry = r) (clock : Clock) (a : CheckpointAccounts)
    (gold : Option (AccountInfo × AccountInfo)) (round : Round) {m : Miner}
    (poolMember : Option PoolMember) (hm : s.referrer m.pda = m.referrer) :
    Keeps r (creditRound clock a gold round m poolMember s) := by
  refine Ensures.bind (botFee_referrer clock round m) ?_
  rintro ⟨fee, m₁⟩ ⟨hauth₁, href₁⟩
  refine keeps_any ?_
  rintro ⟨rewardsSol, rewardsGodl, round'⟩
  refine Ensures.bind (m₁.updateRewards_referrer s.treasury) ?_
  rintro m₂ ⟨hauth₂, href₂⟩
  refine keeps_bind (settleGold_keeps hs _ _ _ _) fun s₁ hs₁ => ?_
  refine keeps_bind ?_ fun s₂ hs₂ => payCheckpoint_keeps hs₂ _ _ _ _
  refine keeps_any fun _ => keeps_any fun _ => keeps_any fun _ => keeps_any fun _ => ?_
  refine keeps_any fun _ => keeps_pure ?_
  refine registry_putMiner hs₁ ?_
  show s₁.referrer (.minerPda m₂.authority) = m₂.referrer
  rw [referrer_of_registry hs₁ hs, hauth₂, href₂, hauth₁, href₁]
  exact hm

/-- A checkpoint credits the miner that it loaded. -/
theorem checkpointBody_keeps (hs : s.registry = r) (clock : Clock) (a : CheckpointAccounts)
    (gold : Option (AccountInfo × AccountInfo)) : Keeps r (checkpointBody clock a gold s) := by
  refine keeps_any fun _ => keeps_any fun _ => ?_
  rw [Keeps, ensures_bind, State.load, ensures_fromOption]
  intro m hm
  have hreferrer : s.referrer m.pda = m.referrer := by
    rw [← referrer_of_get hm]
    exact congrArg s.referrer (s.miners.key_of_get _ _ hm)
  have hforfeit : (forfeit m s).registry = r := registry_putMiner hs hreferrer
  have hrest : Keeps r (checkpointMiner clock a gold m s) := by
    unfold checkpointMiner
    refine keeps_ite (keeps_pure hs) (keeps_ite (keeps_any fun _ => keeps_pure hforfeit) ?_)
    refine keeps_any fun round => keeps_ite (keeps_pure hs) (keeps_any fun poolMember => ?_)
    exact keeps_ite (keeps_pure hforfeit) (creditRound_keeps hs _ _ _ _ _ hreferrer)
  refine keeps_any fun _ => keeps_any fun _ => ?_
  cases gold with
  | some gold => exact keeps_any fun _ => keeps_any fun _ => hrest
  | none => exact hrest

theorem processDeploy_keeps (hs : s.registry = r) (clock : Clock) (env : Env)
    (args : DeployArgs) (a : DeployAccounts) (entropyAccounts : List AccountInfo) (cpi : Cpi) :
    Keeps r (processDeploy clock env args a entropyAccounts cpi s) :=
  keeps_any fun _ => deployBody_keeps hs _ _ _ _ _ _ _

theorem processDeployWithMinerExtended_keeps (hs : s.registry = r) (clock : Clock) (env : Env)
    (args : DeployArgs) (a : DeployAccounts) (goldVaultInfo minerExtendedInfo : AccountInfo)
    (entropyAccounts : List AccountInfo) (cpi : Cpi) :
    Keeps r (processDeployWithMinerExtended clock env args a goldVaultInfo minerExtendedInfo
      entropyAccounts cpi s) := deployBody_keeps hs _ _ _ _ _ _ _

theorem processCheckpoint_keeps (hs : s.registry = r) (clock : Clock) (a : CheckpointAccounts) :
    Keeps r (processCheckpoint clock a s) :=
  keeps_any fun _ => checkpointBody_keeps hs _ _ _

theorem processCheckpointWithMinerExtended_keeps (hs : s.registry = r) (clock : Clock)
    (a : CheckpointAccounts) (goldVaultInfo minerExtendedInfo : AccountInfo) :
    Keeps r (processCheckpointWithMinerExtended clock a goldVaultInfo minerExtendedInfo s) :=
  checkpointBody_keeps hs _ _ _

end Play

/-! ## Resets and closing rounds -/

section Rounds

variable {s : State} {r : Registry}

theorem advanceBoard_keeps (hs : s.registry = r) (clock : Clock) :
    Keeps r (advanceBoard clock s) := keeps_any fun _ => keeps_pure hs

theorem openNextRound_keeps (hs : s.registry = r) (a : ResetAccounts) (nextId : ℕ) :
    Keeps r (openNextRound a nextId s) := by
  refine keeps_bind (createAccount_keeps hs _ _ _) fun s₁ hs₁ => ?_
  refine keeps_bind (createAccount_keeps ?_ _ _ _) fun s₂ hs₂ => keeps_pure hs₂
  exact hs₁

theorem payAdminFee_keeps (hs : s.registry = r) (variant : ResetVariant) (a : ResetAccounts)
    (totalAdminFee : ℕ) : Keeps r (payAdminFee variant a totalAdminFee s) := by
  cases variant with
  | lenient => exact send_keeps hs _ _ _
  | permissionless => exact keeps_bind (send_keeps hs _ _ _) fun _ h => send_keeps h _ _ _

theorem mintRound_keeps (hs : s.registry = r) (env : Env) (a : ResetAccounts) (amount : ℕ) :
    Keeps r (mintRound env a amount s) := by
  refine keeps_ite ?_ (keeps_pure hs)
  split
  · exact keeps_any fun _ => keeps_any fun _ => mintGodl_keeps hs _ _
  · exact keeps_throw

theorem resetVault_keeps (hs : s.registry = r) (clock : Clock) (variant : ResetVariant)
    (a : ResetAccounts) (round : Round) (ws : Square) (totalAdminFee solMotherlodeAmount : ℕ) :
    Keeps r (resetVault clock variant a round ws totalAdminFee solMotherlodeAmount s) := by
  refine keeps_any fun _ => keeps_any fun _ => keeps_any fun _ => keeps_any fun _ => ?_
  refine keeps_bind (advanceBoard_keeps ?_ _) fun s₁ hs₁ => ?_
  · exact hs
  · refine keeps_bind (payAdminFee_keeps hs₁ _ _ _) fun s₂ hs₂ => ?_
    exact keeps_bind (send_keeps hs₂ _ _ _) fun _ h => send_keeps h _ _ _

theorem resetWinners_keeps (hs : s.registry = r) (clock : Clock) (env : Env)
    (variant : ResetVariant) (a : ResetAccounts) (round : Round) (rng : BitVec 64) (ws : Square)
    (totalAdminFee solMotherlodeAmount : ℕ) :
    Keeps r (resetWinners clock env variant a round rng ws totalAdminFee solMotherlodeAmount
      s) := by
  refine keeps_any ?_
  rintro ⟨winnings, vaultAmount, winningsFees⟩
  refine keeps_any fun balance => keeps_any fun _ => keeps_any ?_
  rintro ⟨mintAmount, motherlodeMintAmount⟩
  refine keeps_any fun topMiner => keeps_any fun motherlode => ?_
  refine keeps_bind (mintRound_keeps ?_ _ _ _) fun s₁ hs₁ => ?_
  · exact hs
  · refine keeps_bind (send_keeps hs₁ _ _ _) fun s₂ hs₂ => keeps_any fun _ => ?_
    refine keeps_bind (advanceBoard_keeps ?_ _) fun s₃ hs₃ => ?_
    · exact hs₂
    · refine keeps_bind (payAdminFee_keeps hs₃ _ _ _) fun _ h => ?_
      exact send_keeps h _ _ _

theorem resetBody_keeps (hs : s.registry = r) (clock : Clock) (env : Env)
    (variant : ResetVariant) (a : ResetAccounts) :
    Keeps r (resetBody clock env variant a s) := by
  refine keeps_any fun round => keeps_bind (openNextRound_keeps hs _ _) fun s₁ hs₁ => ?_
  refine keeps_any fun value => ?_
  unfold settleRound
  split
  · unfold resetRefund
    refine advanceBoard_keeps ?_ clock
    exact hs₁
  · refine keeps_any fun _ => keeps_any fun _ => keeps_ite ?_ ?_
    · exact resetVault_keeps hs₁ _ _ _ _ _ _ _
    · exact resetWinners_keeps hs₁ _ _ _ _ _ _ _ _ _

theorem closeToTreasury_keeps (hs : s.registry = r) (info treasuryInfo rentPayerInfo :
    AccountInfo) (size : ℕ) : Keeps r (closeToTreasury info treasuryInfo rentPayerInfo size s) := by
  refine keeps_ite (keeps_bind (send_keeps hs _ _ _) fun s₁ hs₁ => keeps_any fun balance => ?_) ?_
  · exact keeps_bind (keeps_pure hs₁) fun _ h => keeps_pure h
  · exact keeps_bind (keeps_pure hs) fun _ h => keeps_pure h

theorem buryRest_keeps (hs : s.registry = r) (a : BuryAccounts) (burnAmount : ℕ) :
    Keeps r (buryRest a burnAmount s) := by
  refine keeps_ite (keeps_ite ?_ ?_) (keeps_pure hs)
  · exact keeps_bind (transferTokens_keeps hs _ _ _) fun _ h => keeps_pure h
  · exact keeps_bind (burnTokens_keeps hs _ _) fun _ h => keeps_pure h

theorem buryShares_keeps (hs : s.registry = r) (clock : Clock) (a : BuryAccounts)
    (raiseByZero : Bool) (amount solAmount : ℕ) :
    Keeps r (buryShares clock a raiseByZero amount solAmount s) := by
  have hbury : ∀ s', s'.registry = r → ∀ share admin : ℕ, Keeps r (do
      let afterShare ← subU64 overflow amount share
      let burnAmount ← subU64 overflow afterShare admin
      let p ← buryRest a burnAmount s'
      return p.2.programLog (.bury p.1 share solAmount p.2.mintSupply clock.unixTimestamp) :
        Result State) := by
    intro s' hs' share admin
    refine keeps_any fun _ => keeps_any fun _ => keeps_bind (buryRest_keeps hs' _ _) ?_
    rintro ⟨godlBuried, s₁⟩ hs₁
    exact keeps_pure hs₁
  have hadmin : ∀ s', s'.registry = r → ∀ share : ℕ, Keeps r (do
      let adminAmount ← mulU64 overflow amount adminBps
      let adminAmount := adminAmount / denominatorBps
      let s ← if 0 < adminAmount then
          s'.transferTokens a.treasuryGodlInfo.key a.adminGodlInfo.key adminAmount
        else pure s'
      let afterShare ← subU64 overflow amount share
      let burnAmount ← subU64 overflow afterShare adminAmount
      let p ← buryRest a burnAmount s
      return p.2.programLog (.bury p.1 share solAmount p.2.mintSupply clock.unixTimestamp) :
        Result State) := by
    intro s' hs' share
    refine keeps_any fun _ => keeps_ite (keeps_bind (transferTokens_keeps hs' _ _ _) ?_) ?_
    · exact fun s₁ hs₁ => hbury s₁ hs₁ _ _
    · exact keeps_bind (keeps_pure hs') fun s₁ hs₁ => hbury s₁ hs₁ _ _
  refine keeps_any fun share => keeps_ite (keeps_bind ?_ ?_) (keeps_bind (keeps_pure hs) ?_)
  · exact keeps_any fun _ => keeps_any fun _ => keeps_pure hs
  · exact fun s₁ hs₁ => hadmin s₁ hs₁ _
  · exact fun s₁ hs₁ => hadmin s₁ hs₁ _

end Rounds

/-! ## Staked NFTs -/

section Nfts

variable {s : State} {r : Registry}

theorem transferAsset_keeps (hs : s.registry = r) (asset owner newOwner : Pubkey) :
    Keeps r (transferAsset asset owner newOwner s) := keeps_any fun _ => keeps_pure hs

theorem processStakeNft_keeps (hs : s.registry = r) (id : ℕ) (signerInfo assetInfo
    collectionInfo stakeInfo treasuryInfo mplCoreInfo systemProgram : AccountInfo) :
    Keeps r (processStakeNft id signerInfo assetInfo collectionInfo stakeInfo treasuryInfo
      mplCoreInfo systemProgram s) := by
  refine keeps_any fun _ => keeps_any fun account => keeps_any fun _ => ?_
  refine keeps_any fun p => keeps_any ?_
  rintro ⟨stake, treasury⟩
  refine transferAsset_keeps ?_ _ _ _
  exact hs

theorem processUnstakeNft_keeps (hs : s.registry = r) (id : ℕ) (signerInfo assetInfo
    collectionInfo stakeInfo treasuryInfo mplCoreInfo systemProgram : AccountInfo) :
    Keeps r (processUnstakeNft id signerInfo assetInfo collectionInfo stakeInfo treasuryInfo
      mplCoreInfo systemProgram s) := by
  refine keeps_any fun _ => keeps_any fun account => keeps_any fun _ => ?_
  refine keeps_any fun p => keeps_any ?_
  rintro ⟨stake, treasury⟩
  refine transferAsset_keeps ?_ _ _ _
  exact hs

end Nfts

/-- The instructions that write the registry. -/
def GodlInstruction.Registers : GodlInstruction → Prop
  | .initializeProgram .. | .setAdmin _ | .setFeeCollector _ | .setSwapProgram | .setVarAddress
  | .setMotherlodeDenominator _ | .setGodlPerRound _ | .updateProtocolConfig ..
  | .setReferrer _ => True
  | _ => False

/-- **All other instructions leave the registry as it was.** -/
theorem processInstruction_keeps {s : State} {r : Registry} (hs : s.registry = r) (env : Env)
    (clock : Clock) {ix : GodlInstruction} (hix : ¬ ix.Registers) (accounts : List AccountInfo)
    (cpi : Cpi) : Keeps r (processInstruction env clock ix accounts cpi s) := by
  cases ix
  case initializeProgram | setAdmin | setFeeCollector | setSwapProgram | setVarAddress
    | setMotherlodeDenominator | setGodlPerRound | updateProtocolConfig | setReferrer =>
    exact absurd trivial hix
  all_goals simp only [processInstruction, processResetList, processReset,
    processResetPermissionless]
  all_goals try split
  -- The handlers above.
  all_goals try with_reducible first
    | exact keeps_error
    | exact processAutomate_keeps hs _ _ _ _ _ _ _
    | exact processCheckpoint_keeps hs _ _
    | exact processCheckpointWithMinerExtended_keeps hs _ _ _ _
    | exact processClaimSol_keeps hs _ _ _ _ _
    | exact processClaimSolAndFundAutomation_keeps hs _ _ _ _ _ _
    | exact processClaimGodl_keeps hs _ _ _ _ _ _ _ _ _ _ _ _ _ _
    | exact processInjectUnrefinedRewards_keeps hs _ _ _ _ _ _ _ _ _ _ _
    | exact processInitializeReferrer_keeps hs _ _ _ _ _ _ _
    | exact processClaimReferral_keeps hs _ _ _ _ _ _ _ _
    | exact processDeploy_keeps hs _ _ _ _ _ _
    | exact processDeployWithMinerExtended_keeps hs _ _ _ _ _ _ _ _
    | exact processExecuteOtcTrade_keeps hs _ _ _
    | exact resetBody_keeps hs _ _ _ _
    | exact processStakeNft_keeps hs _ _ _ _ _ _ _ _
    | exact processUnstakeNft_keeps hs _ _ _ _ _ _ _ _
  all_goals first
    | exact keeps_error
    | unfold processFundAutomation
    | unfold processLog
    | unfold processClose
    | unfold processWithdraw
    | unfold processClaimYield
    | unfold processDepositV2
    | unfold processWithdrawV2
    | unfold processClaimYieldV2
    | unfold processCompoundYieldV2 compoundYieldV2
    | unfold processSetStakeExecutorV2
    | unfold processReconcileStakeV2
    | unfold processMigrateStakeWeight
    | unfold processCloseStakeV2
    | unfold processClosePhantomStakeV2
    | unfold processTopUpStakeV2 topUpStakeV2
    | unfold processMergeStakeV2 mergeStakeV2
    | unfold processBury
    | unfold processBuryTokens
    | unfold processPreBury
    | unfold processNewVar
    | unfold processWithdrawVault
    | unfold processInitializeSolMotherlode
    | unfold processInjectGodlMotherlode
    | unfold processRebaseTotalStaked
    | unfold processRebaseTotalUnclaimed
    | unfold processInitializeGoldVault
    | unfold processCreateMinerExtended
    | unfold processPreBuyGold
    | unfold processBuyGold
    | unfold processDepositGold
    | unfold processClaimGold
    | unfold processInitializeOtcTreasury
    | unfold processFundGodlOtc
    | unfold processWithdrawSolOtc
    | unfold processTransferMintAuthority
  -- The other ones are chains of operations that keep it.
  all_goals repeat' with_reducible first
    | assumption
    | exact keeps_error
    | exact keeps_throw
    | refine keeps_pure ?_
    | refine keeps_ite ?_ ?_
    | refine keeps_bind ?_ fun _ _ => ?_
    | refine keeps_any fun _ => ?_
    | refine send_keeps ?_ _ _ _
    | refine collect_keeps ?_ _ _ _
    | refine createAccount_keeps ?_ _ _ _
    | refine transferTokens_keeps ?_ _ _ _
    | refine transferTokensFrom_keeps ?_ _ _ _ _
    | refine burnTokens_keeps ?_ _ _
    | refine createTokenAccount_keeps ?_ _ _ _ _
    | refine openTokenAccount_keeps ?_ _ _ _ _
    | refine closeTokenAccount_keeps ?_ _ _
    | refine syncNative_keeps ?_ _
    | refine loadOrCreateMinerExtended_keeps ?_ _ _ _ _
    | refine syncGoldRewards_keeps ?_ _ _
    | refine closeToTreasury_keeps ?_ _ _ _ _
    | refine buryShares_keeps ?_ _ _ _ _ _
    | split
  all_goals assumption

/-! ## The instructions that write the config -/

/-- The registry with another config. -/
def Registry.withConfig (r : Registry) (c : Config) : Registry := { r with config := c }

/-- The settings that an update of the protocol config accepts. -/
structure Config.Accepted (c : Config) : Prop where
  roundSlots : 0 < c.roundSlots ∧ c.roundSlots ≤ oneDaySlots
  intermissionSlots : 0 < c.intermissionSlots ∧ c.intermissionSlots ≤ oneDaySlots

/-- The defaults are accepted. -/
theorem Config.accepted_default {c : Config} (hround : c.roundSlots = roundSlotsDefault)
    (hintermission : c.intermissionSlots = intermissionSlotsDefault) : c.Accepted := by
  constructor
  · rw [hround]
    decide
  · rw [hintermission]
    decide

/-- What an instruction may write into the config: below the motherlode what it is told, what
was there, or the five of the setup; the slots that were there, or accepted ones. -/
structure GodlInstruction.WritesConfig (ix : GodlInstruction) (s : State) (c : Config) : Prop where
  denominator : ix = .setMotherlodeDenominator c.motherlodeDenominator ∨
    c.motherlodeDenominator = s.config.motherlodeDenominator ∨ c.motherlodeDenominator = 5
  slots : c.roundSlots = s.config.roundSlots ∧ c.intermissionSlots = s.config.intermissionSlots ∨
    c.Accepted

section Setters

variable {s : State}

theorem setConfig_registry (signerInfo configInfo : AccountInfo) (change : Config → Config)
    (s : State) : Ensures (setConfig signerInfo configInfo change s) fun s' =>
      s'.registry = s.registry.withConfig (change s.config) := by
  simp only [setConfig, ensures_bind, ensures_require, ensures_pure]
  exact fun _ _ _ => rfl

theorem resizeConfig_registry (signerInfo configInfo : AccountInfo) (s : State) :
    Ensures (resizeConfig signerInfo configInfo s) fun s' =>
      s'.config.motherlodeDenominator = s.config.motherlodeDenominator ∧
        s'.registry = s.registry.withConfig s'.config := by
  rw [resizeConfig, ensures_ite]
  refine ⟨fun _ => ?_, fun _ => ensures_pure.2 ⟨rfl, rfl⟩⟩
  simp only [ensures_bind, ensures_require, ensures_pure]
  intro _
  refine Ensures.mono (State.collect_spec s _ _ _) ?_
  rintro _ ⟨l, rfl, -⟩
  exact ⟨rfl, rfl⟩

/-- **The setters of the config, and the setup, leave the referrals as they were.** -/
theorem processInstruction_writesConfig {ix : GodlInstruction} (hix : ix.Registers)
    (hreferrer : ∀ desired, ix ≠ .setReferrer desired) (env : Env) (clock : Clock)
    (accounts : List AccountInfo) (cpi : Cpi) (s : State) :
    Ensures (processInstruction env clock ix accounts cpi s) fun s' =>
      ∃ c, s'.registry = s.registry.withConfig c ∧ ix.WritesConfig s c := by
  have hset : ∀ (signerInfo configInfo : AccountInfo) (change : Config → Config),
      ix.WritesConfig s (change s.config) →
      Ensures (setConfig signerInfo configInfo change s) fun s' =>
        ∃ c, s'.registry = s.registry.withConfig c ∧ ix.WritesConfig s c := by
    intro signerInfo configInfo change hchange
    refine Ensures.mono (setConfig_registry signerInfo configInfo change s) fun s' hs' => ?_
    exact ⟨_, hs', hchange⟩
  cases ix <;> simp only [GodlInstruction.Registers] at hix
  all_goals simp only [processInstruction]
  case setReferrer => exact absurd rfl (hreferrer _)
  all_goals split
  all_goals try exact ensures_error.2 trivial
  · simp only [processInitialize, ensures_bind, ensures_require, ensures_pure]
    intro _ _ _ _ _ _ _ _ _ _ _ _ _ _ _ _
    refine Ensures.mono (State.createAccount_spec _ _ _ _) ?_
    rintro _ ⟨-, l₁, rfl, -⟩
    refine Ensures.mono (State.createAccount_spec _ _ _ _) ?_
    rintro _ ⟨-, l₂, rfl, -⟩
    refine Ensures.mono (State.createAccount_spec _ _ _ _) ?_
    rintro _ ⟨-, l₃, rfl, -⟩
    refine Ensures.mono (State.createAccount_spec _ _ _ _) ?_
    rintro _ ⟨-, l₄, rfl, -⟩
    exact ⟨_, rfl, .inr (.inr rfl), .inr (Config.accepted_default rfl rfl)⟩
  · exact ensures_bind.2 (ensures_of_forall fun _ => hset _ _ _ ⟨.inr (.inl rfl), .inl ⟨rfl, rfl⟩⟩)
  · exact ensures_bind.2 (ensures_of_forall fun _ => hset _ _ _ ⟨.inr (.inl rfl), .inl ⟨rfl, rfl⟩⟩)
  · exact ensures_bind.2 (ensures_of_forall fun _ => hset _ _ _ ⟨.inr (.inl rfl), .inl ⟨rfl, rfl⟩⟩)
  · simp only [processSetVarAddress, ensures_bind]
    refine ensures_of_forall fun _ => ensures_of_forall fun _ => ensures_of_forall fun _ => ?_
    exact ensures_of_forall fun _ => hset _ _ _ ⟨.inr (.inl rfl), .inl ⟨rfl, rfl⟩⟩
  · exact ensures_bind.2 (ensures_of_forall fun _ => hset _ _ _ ⟨.inl rfl, .inl ⟨rfl, rfl⟩⟩)
  · simp only [processSetGodlPerRound, ensures_bind]
    exact ensures_of_forall fun _ => ensures_of_forall fun _ =>
      hset _ _ _ ⟨.inr (.inl rfl), .inl ⟨rfl, rfl⟩⟩
  · simp only [processUpdateProtocolConfig, ensures_bind, ensures_require]
    intro _ _ _ _
    refine Ensures.mono (resizeConfig_registry _ _ s) ?_
    rintro s₁ ⟨hdenominator, hs₁⟩ ⟨hround, hday, hintermission, hday'⟩
    refine Ensures.mono (setConfig_registry _ _ _ s₁) fun s₂ hs₂ => ?_
    rw [hs₁] at hs₂
    exact ⟨_, hs₂, .inr (.inl hdenominator), .inr ⟨⟨hround, hday⟩, ⟨hintermission, hday'⟩⟩⟩

end Setters

/-! ## What a call does to the registry -/

/-- What a call of an instruction does to the registry.  A referrer is named only where there
is none yet, and never by its own authority. -/
inductive Registry.Step (ix : GodlInstruction) (s : State) : Registry → Prop
  | kept : Registry.Step ix s s.registry
  | config (c : Config) (hwrites : ix.WritesConfig s c) :
      Registry.Step ix s (s.registry.withConfig c)
  | locked (authority : Pubkey) (hfree : s.referrer (.minerPda authority) = Pubkey.default) :
      Registry.Step ix s { s.registry with
        referrer := Function.update s.referrer (.minerPda authority) referrerLockedSentinel }
  | named (authority other : Pubkey) (hne : other ≠ authority)
      (hfree : s.referrer (.minerPda authority) = Pubkey.default) :
      Registry.Step ix s { s.registry with
        referrer := Function.update s.referrer (.minerPda authority) (.referrerPda other)
        referrerCount := Function.update s.referrerCount (.referrerPda other)
          (s.referrerCount (.referrerPda other) + 1) }

section Naming

variable {ix : GodlInstruction} {s : State}

/-- The registry with another referrer of a miner. -/
theorem registry_putReferrer (s : State) (m : Miner) (p : Pubkey) :
    ({ s with miners := s.miners.put { m with referrer := p } } : State).registry =
      { s.registry with referrer := Function.update s.referrer (.minerPda m.authority) p } :=
  congrArg (fun f => (⟨s.config, f, s.referrerCount⟩ : Registry)) (Store.view_put ..)

/-- The registry with another count of a referrer. -/
theorem registry_putCount (s : State) (x : Referrer) (n : ℕ) :
    ({ s with referrers := s.referrers.put { x with referrerCount := n } } : State).registry =
      { s.registry with
        referrerCount := Function.update s.referrerCount (.referrerPda x.authority) n } :=
  congrArg (fun f => (⟨s.config, s.referrer, f⟩ : Registry)) (Store.view_put ..)

theorem processSetReferrer_registry (desired : Pubkey) (authorityInfo minerInfo : AccountInfo)
    (rest : List AccountInfo) (s : State) :
    Ensures (processSetReferrer desired authorityInfo minerInfo rest s) fun s' =>
      Registry.Step ix s s'.registry := by
  rw [processSetReferrer, ensures_bind, ensures_require]
  intro _
  rw [ensures_bind, State.load, ensures_fromOption]
  intro m hm
  rw [ensures_bind, ensures_require]
  intro _
  have hpda : Pubkey.minerPda m.authority = minerInfo.key := s.miners.key_of_get _ _ hm
  by_cases hfree : m.referrer = Pubkey.default
  · have hnone : s.referrer (.minerPda m.authority) = Pubkey.default := by
      rw [hpda, referrer_of_get hm, hfree]
    rw [if_neg (not_not.2 hfree)]
    by_cases hnull : desired = Pubkey.default
    · rw [if_pos hnull, ensures_pure, registry_putReferrer]
      exact .locked m.authority hnone
    · rw [if_neg hnull]
      by_cases hsentinel : desired = referrerLockedSentinel
      · rw [if_pos hsentinel]
        exact ensures_throw.2 trivial
      · rw [if_neg hsentinel]
        split
        · simp only [loadReferrer, ensures_bind, ensures_require, ensures_fromOption,
            ensures_addU64, ensures_pure]
          intro x hx _ _ hkey hne _
          have hcount : s.referrerCount (.referrerPda x.authority) = x.referrerCount := by
            rw [← hkey]
            exact Store.view_of_get hx
          have hstep := @Registry.Step.named ix s m.authority x.authority hne hnone
          rw [hcount] at hstep
          have hput := registry_putReferrer { s with
            referrers := s.referrers.put { x with referrerCount := x.referrerCount + 1 } } m
            (.referrerPda x.authority)
          rw [registry_putCount] at hput
          rw [hkey, hput]
          exact hstep
        · exact ensures_throw.2 trivial
  · rw [if_pos hfree, ensures_pure]
    exact .kept

/-- **Every call makes a step of the registry.** -/
theorem processInstruction_registry (env : Env) (clock : Clock) (ix : GodlInstruction)
    (accounts : List AccountInfo) (cpi : Cpi) (s : State) :
    Ensures (processInstruction env clock ix accounts cpi s) fun s' =>
      Registry.Step ix s s'.registry := by
  by_cases hregisters : ix.Registers
  · by_cases hreferrer : ∀ desired, ix ≠ .setReferrer desired
    · refine Ensures.mono
        (processInstruction_writesConfig hregisters hreferrer env clock accounts cpi s) ?_
      rintro s' ⟨c, hregistry, hwrites⟩
      rw [hregistry]
      exact .config c hwrites
    · obtain ⟨desired, hdesired⟩ := not_forall.1 hreferrer
      obtain rfl := not_not.1 hdesired
      simp only [processInstruction]
      split
      · exact processSetReferrer_registry _ _ _ _ s
      · exact ensures_error.2 trivial
  · refine Ensures.mono (processInstruction_keeps rfl env clock hregisters accounts cpi) ?_
    intro s' hs'
    rw [show s'.registry = s.registry from hs']
    exact .kept

end Naming

end Godl
