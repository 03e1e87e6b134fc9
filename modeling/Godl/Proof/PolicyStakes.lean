import Godl.Proof.PolicyOps
import Godl.Proof.SoundHandlers

/-!
# The instructions on stakes follow the policy

A stake is written when its owner signs.  Where somebody else may call, which is a migration, a
reconciliation and a compounding by the executor, the stake keeps its balance and its rewards,
or what the policy allows of them.

## Main definitions

* `StakeV2.Grown` — the same stake, whose rewards gained what it was credited with.
-/

namespace Godl

open Lib

/-! ## Going on -/

section Acts

variable {signs : Pubkey → Prop} {R : Right → Prop} {s₀ s : State}

/-- Acts go on with what moves funds. -/
theorem acts_funds {x : Result State} (hs : Acts signs R s₀ s)
    (h : Ensures x (FundsMoved signs R s)) : Holds (Acts signs R s₀) x :=
  Ensures.mono h fun _ hmoved => hs.trans hmoved.acts

/-- The program's own books are written. -/
theorem acts_books (hs : Acts signs R s₀ s) (t : Treasury) (m : SolMotherlode)
    (g : GoldVault) :
    Acts signs R s₀ { s with treasury := t, solMotherlode := m, goldVault := g } :=
  hs.tail (.books t m g)

theorem acts_treasury (hs : Acts signs R s₀ s) (t : Treasury) :
    Acts signs R s₀ { s with treasury := t } :=
  acts_books hs t s.solMotherlode s.goldVault

/-- A stake is written, and the treasury. -/
theorem acts_putStakeV2 (mayStakes : R .stakes) (hs : Acts signs R s₀ s) {a : StakeV2Account}
    {x : StakeV2} (h : OwnsStake signs a.address ∨ StakeKept signs s { a with stake := x })
    (t : Treasury) :
    Acts signs R s₀ { s.putStakeV2 a x with treasury := t } :=
  acts_treasury (hs.tail (.stakeV2 mayStakes { a with stake := x } h)) t

/-- A stake is deleted. -/
theorem acts_closeStakeV2 (mayStakes : R .stakes) (hs : Acts signs R s₀ s) {stakeInfo : AccountInfo}
    (dest : Pubkey) (hsome : (s.stakesV2.get stakeInfo.key).isSome = true)
    (h : OwnsStake signs stakeInfo.key ∨
      (signs s.config.admin ∧ ∃ a, s.stakesV2.get stakeInfo.key = some a ∧
        a.stake.balance = 0 ∧ stakeInfo.key ≠ a.stake.pda)) :
    Acts signs R s₀ (closeStakeV2Account stakeInfo dest s) := by
  have hreleased : Acts signs R s₀ (s.releaseLamports stakeInfo.key dest) :=
    hs.trans (releaseLamports_funds dest (.inr hsome)).acts
  exact hreleased.tail (.closeStakeV2 mayStakes h)

/-- The signer owns the stake at an address derived from its own. -/
theorem ownsStake {stakeInfo signerInfo : AccountInfo} {id : ℕ} {a : StakeV2Account}
    (hsigns : signs signerInfo.key) (hkey : stakeInfo.key = .stakeV2Pda signerInfo.key id)
    (ha : s.stakesV2.get stakeInfo.key = some a) : OwnsStake signs a.address :=
  ⟨signerInfo.key, id, (s.stakesV2.key_of_get _ a ha).trans hkey, hsigns⟩

end Acts

/-! ## What the methods of a stake keep -/

namespace StakeV2

theorem Earns.refl (x : StakeV2) : Earns x x := ⟨rfl, le_refl _, rfl⟩

theorem Earns.trans {x y z : StakeV2} (h : Earns x y) (h' : Earns y z) : Earns x z := by
  refine ⟨h'.executor.trans h.executor, h.rewards.trans h'.rewards, ?_⟩
  have h₁ := h.lifetimeRewards
  have h₂ := h'.lifetimeRewards
  omega

/-- The same stake, whose rewards gained what it was credited with. -/
structure Grown (x x' : StakeV2) : Prop extends Earns x x' where
  id : x'.id = x.id
  authority : x'.authority = x.authority

theorem Grown.refl (x : StakeV2) : Grown x x := ⟨.refl x, rfl, rfl⟩

/-- The other fields of a stake that has grown may change. -/
theorem Grown.congr {x y z : StakeV2} (h : Grown x y) (hid : z.id = y.id)
    (hauthority : z.authority = y.authority) (hexecutor : z.executor = y.executor)
    (hrewards : z.rewards = y.rewards) (hlifetime : z.lifetimeRewards = y.lifetimeRewards) :
    Grown x z := by
  refine ⟨⟨hexecutor.trans h.executor, hrewards ▸ h.rewards, ?_⟩, hid.trans h.id,
    hauthority.trans h.authority⟩
  rw [hrewards, hlifetime, h.lifetimeRewards]

theorem Grown.pda {x x' : StakeV2} (h : Grown x x') : x'.pda = x.pda := by
  rw [StakeV2.pda, StakeV2.pda, h.id, h.authority]

theorem updateRewards_grown (x : StakeV2) (t : Treasury) :
    Ensures (x.updateRewards t) fun x' => Grown x x' ∧ x'.balance = x.balance := by
  simp only [updateRewards, ensures_ite, ensures_bind, Fixed.ensures_mul, Fixed.ensures_floor,
    ensures_addU64, ensures_pure]
  refine ⟨fun _ => ensures_of_forall fun _ _ _ _ _ => ?_, fun _ => ?_⟩
  · exact ⟨⟨⟨rfl, Nat.le_add_right _ _, by dsimp only; omega⟩, rfl, rfl⟩, trivial⟩
  · exact ⟨⟨⟨rfl, le_refl _, rfl⟩, rfl, rfl⟩, trivial⟩

theorem deposit_grown (x : StakeV2) (amount : ℕ) (clock : Clock) (t : Treasury) (sender : ℕ) :
    Ensures (x.deposit amount clock t sender) fun r =>
      Grown x r.2.1 ∧ r.2.1.balance = x.balance + min sender amount := by
  simp only [deposit, ensures_bind, ensures_addU64, ensures_pure]
  refine Ensures.mono (updateRewards_grown x t) fun y hy => ?_
  refine ensures_of_forall fun _ _ => ensures_of_forall fun _ => ensures_of_forall fun _ => ?_
  refine ⟨hy.1.congr rfl rfl rfl rfl rfl, ?_⟩
  simp only [hy.2]

theorem withdraw_grown (x : StakeV2) (amount : ℕ) (clock : Clock) (t : Treasury) :
    Ensures (x.withdraw amount clock t) fun r =>
      Grown x r.2.1 ∧ r.2.1.balance = x.balance - r.1 ∧ r.1 = min x.balance amount := by
  simp only [withdraw, ensures_bind, ensures_pure]
  refine Ensures.mono (updateRewards_grown x t) fun y hy => ?_
  refine ensures_of_forall fun _ => ensures_of_forall fun _ => ensures_of_forall fun _ => ?_
  refine ⟨hy.1.congr rfl rfl rfl rfl rfl, ?_, ?_⟩ <;> simp only [hy.2]

/-- A claim takes settled rewards out and keeps the rest. -/
theorem claim_grown (x : StakeV2) (amount : ℕ) (clock : Clock) (t : Treasury) :
    Ensures (x.claim amount clock t) fun r => r.2.id = x.id ∧ r.2.authority = x.authority ∧
      r.2.executor = x.executor ∧ r.2.balance = x.balance := by
  simp only [claim, ensures_bind, ensures_pure]
  exact Ensures.mono (updateRewards_grown x t) fun y hy =>
    ⟨hy.1.id, hy.1.authority, hy.1.executor, hy.2⟩

theorem migrateWeight_grown (x : StakeV2) (t : Treasury) :
    Ensures (x.migrateWeight t) fun r => Grown x r.1 ∧ r.1.balance = x.balance := by
  unfold migrateWeight
  split
  · exact ensures_ok.2 ⟨.refl x, rfl⟩
  · simp only [reweigh, ensures_bind, ensures_pure]
    refine Ensures.mono (updateRewards_grown x t) fun y hy => ?_
    refine ensures_of_forall fun _ => ensures_of_forall fun _ => ensures_of_forall fun _ => ?_
    exact ⟨hy.1.congr rfl rfl rfl rfl rfl, hy.2⟩

end StakeV2

/-- A stake that has grown is kept, when it keeps what its vault holds. -/
theorem StakeV2.Grown.kept {signs : Pubkey → Prop} {s : State} {k : Pubkey} {a : StakeV2Account}
    {x : StakeV2} (h : StakeV2.Grown a.stake x) (ha : s.stakesV2.get k = some a)
    (hbalance : min a.stake.balance (s.tokensAt (.associatedTokenAddress k mintAddress)) ≤
      x.balance) : StakeKept signs s { a with stake := x } := by
  obtain rfl := s.stakesV2.key_of_get k a ha
  exact ⟨a, ha, h.pda, hbalance, .inl h.toEarns⟩

/-! ## Version 1 -/

section Handlers

variable {signs : Pubkey → Prop} {R : Right → Prop}

theorem processWithdraw_acts (mayStakes : R .stakes) (clock : Clock) (amount : ℕ) (signerInfo
    mintInfo recipientInfo stakeInfo stakeTokensInfo treasuryInfo systemProgram tokenProgram
    associatedTokenProgram : AccountInfo) (s : State)
    (hsign : signerInfo.isSigner = true → signs signerInfo.key) :
    Holds (Acts signs R s) (processWithdraw clock amount signerInfo mintInfo recipientInfo
      stakeInfo stakeTokensInfo treasuryInfo systemProgram tokenProgram associatedTokenProgram
      s) := by
  simp only [processWithdraw, Holds, ensures_bind, ensures_require, ensures_fromOption,
    ensures_pure]
  intro hsigner hmint _ hkey x _ hauth htokens _ _ _ _ _ _
  have hsigns := hsign hsigner
  refine Ensures.mono (openTokenAccount_funds (R := R) hsign _ _ _) fun s₁ hs₁ => ?_
  refine Ensures.mono (Stake.withdraw_spec x amount clock s₁.treasury) fun r hr => ?_
  have hput : Acts signs R s { s₁ with stakes := s₁.stakes.put r.2.1, treasury := r.2.2 } :=
    acts_treasury (hs₁.2.acts.tail (.stake mayStakes r.2.1 (by rwa [hr.1, hauth]))) r.2.2
  rw [hkey] at htokens
  have hpaid := acts_funds hput (transferTokens_funds r.1 htokens hs₁.1 (.stake mayStakes hsigns))
  exact Ensures.mono hpaid fun s₂ hs₂ _ _ _ _ => hs₂

theorem processClaimYield_acts (mayStakes : R .stakes) (clock : Clock) (amount : ℕ) (signerInfo
    mintInfo recipientInfo stakeInfo treasuryInfo treasuryTokensInfo systemProgram tokenProgram
    associatedTokenProgram : AccountInfo) (s : State)
    (hsign : signerInfo.isSigner = true → signs signerInfo.key) :
    Holds (Acts signs R s) (processClaimYield clock amount signerInfo mintInfo recipientInfo
      stakeInfo treasuryInfo treasuryTokensInfo systemProgram tokenProgram associatedTokenProgram
      s) := by
  simp only [processClaimYield, Holds, ensures_bind, ensures_require, ensures_fromOption,
    ensures_pure]
  intro hsigner _ _ _ x _ hauth htreasury _ htokens _ _ _ _ _
  refine Ensures.mono (openTokenAccount_funds (R := R) hsign _ _ _) fun s₁ hs₁ => ?_
  refine Ensures.mono (Stake.claim_spec x amount clock s₁.treasury) fun r hr => ?_
  have hput : Acts signs R s { s₁ with stakes := s₁.stakes.put r.2 } :=
    hs₁.2.acts.tail (.stake mayStakes r.2 (by rw [hr.1, hauth]; exact hsign hsigner))
  rw [htreasury.1] at htokens
  exact acts_funds hput (transferTokens_funds r.1 htokens hs₁.1 .treasury)

/-! ## Version 2, by the owner -/

theorem processDepositV2_acts (mayStakes : R .stakes) (clock : Clock) (id amount : ℕ)
    (lockDuration : ℤ) (signerInfo mintInfo senderInfo stakeInfo stakeTokensInfo treasuryInfo
    executorInfo systemProgram tokenProgram associatedTokenProgram : AccountInfo) (s : State)
    (hsign : signerInfo.isSigner = true → signs signerInfo.key) :
    Holds (Acts signs R s) (processDepositV2 clock id amount lockDuration signerInfo mintInfo
      senderInfo stakeInfo stakeTokensInfo treasuryInfo executorInfo systemProgram tokenProgram
      associatedTokenProgram s) := by
  simp only [processDepositV2, Holds, ensures_bind, ensures_require, ensures_fromOption,
    ensures_pure]
  intro hsigner hmint _ hsender _ _ _ _ _ _ _ _ _ _ _
  have howns : ∀ x, OwnsStake signs (StakeV2Account.derived signerInfo.key id x).address :=
    fun x => ⟨signerInfo.key, id, rfl, hsign hsigner⟩
  refine Ensures.mono (createAccount_funds (R := R) hsign _ _) fun s₁ hs₁ => ?_
  refine ensures_of_forall fun x => ?_
  have hopen : Acts signs R s { s₁ with
      stakesV2 := s₁.stakesV2.put (.derived signerInfo.key id x) } :=
    hs₁.acts.tail (.stakeV2 mayStakes _ (.inl (howns x)))
  refine Ensures.mono (openTokenAccount_funds (R := R) hsign _ _ _) fun s₂ hs₂ => ?_
  refine ensures_of_forall fun r hr => ?_
  have hput : Acts signs R s _ :=
    acts_putStakeV2 mayStakes (x := r.2.1) (hopen.trans hs₂.2.acts) (.inl (howns x)) r.2.2
  have htokens := hs₂.1
  rw [hmint] at htokens
  have hpaid := acts_funds hput (transferTokensFrom_funds r.1 hsign hsender htokens)
  exact Ensures.mono hpaid fun s₃ hs₃ _ _ _ _ => hs₃

theorem processWithdrawV2_acts (mayStakes : R .stakes) (mayVaults : R .vaults) (clock : Clock)
    (id amount : ℕ) (signerInfo mintInfo recipientInfo stakeInfo stakeTokensInfo treasuryInfo
    systemProgram tokenProgram associatedTokenProgram : AccountInfo) (s : State)
    (hsign : signerInfo.isSigner = true → signs signerInfo.key) :
    Holds (Acts signs R s) (processWithdrawV2 clock id amount signerInfo mintInfo
      recipientInfo stakeInfo stakeTokensInfo treasuryInfo systemProgram tokenProgram
      associatedTokenProgram s) := by
  simp only [processWithdrawV2, Holds, ensures_bind, ensures_require, ensures_fromOption,
    ensures_pure]
  intro hsigner _ _ hkey a ha _ _ htokens _ _ _ _ _ _
  refine ensures_of_forall fun p _ _ => ?_
  refine Ensures.mono (openTokenAccount_funds (R := R) hsign _ _ _) fun s₁ hs₁ => ?_
  refine ensures_of_forall fun r => ?_
  have hput : Acts signs R s _ := acts_putStakeV2 mayStakes (x := r.2.1) hs₁.2.acts
    (.inl (ownsStake (hsign hsigner) hkey ha)) r.2.2
  rw [hkey] at htokens
  have hpaid := acts_funds hput
    (transferTokens_funds r.1 htokens hs₁.1 (.stakeV2 mayVaults (hsign hsigner)))
  exact Ensures.mono hpaid fun s₂ hs₂ _ _ _ _ => hs₂

theorem processClaimYieldV2_acts (mayStakes : R .stakes) (clock : Clock) (id amount : ℕ) (signerInfo
    mintInfo recipientInfo stakeInfo treasuryInfo treasuryTokensInfo systemProgram tokenProgram
    associatedTokenProgram : AccountInfo) (s : State)
    (hsign : signerInfo.isSigner = true → signs signerInfo.key) :
    Holds (Acts signs R s) (processClaimYieldV2 clock id amount signerInfo mintInfo
      recipientInfo stakeInfo treasuryInfo treasuryTokensInfo systemProgram tokenProgram
      associatedTokenProgram s) := by
  simp only [processClaimYieldV2, Holds, ensures_bind, ensures_require, ensures_fromOption,
    ensures_pure]
  intro hsigner _ _ hkey a ha _ _ htreasury _ htokens _ _ _ _ _
  refine Ensures.mono (openTokenAccount_funds (R := R) hsign _ _ _) fun s₁ hs₁ => ?_
  refine ensures_of_forall fun r => ?_
  have howns : OwnsStake signs a.address := ownsStake (hsign hsigner) hkey ha
  have hput : Acts signs R s _ :=
    hs₁.2.acts.tail (.stakeV2 mayStakes { a with stake := r.2 } (.inl howns))
  rw [htreasury.1] at htokens
  exact acts_funds hput (transferTokens_funds r.1 htokens hs₁.1 .treasury)

theorem processTopUpStakeV2_acts (mayStakes : R .stakes) (clock : Clock) (id amount : ℕ) (signerInfo
    mintInfo senderInfo stakeInfo stakeTokensInfo treasuryInfo systemProgram tokenProgram
    associatedTokenProgram : AccountInfo) (s : State)
    (hsign : signerInfo.isSigner = true → signs signerInfo.key) :
    Holds (Acts signs R s) (processTopUpStakeV2 clock id amount signerInfo mintInfo senderInfo
      stakeInfo stakeTokensInfo treasuryInfo systemProgram tokenProgram associatedTokenProgram
      s) := by
  simp only [processTopUpStakeV2, topUpStakeV2, Holds, ensures_bind, ensures_require,
    ensures_fromOption, ensures_pure]
  intro hsigner hmint _ hsender _ _ _ hkey _ _ a ha _ _ _ _ _ _ _
  refine ensures_of_forall fun p htokens _ _ => ?_
  refine ensures_of_forall fun r _ => ?_
  have hput : Acts signs R s _ :=
    acts_putStakeV2 mayStakes (x := { r.2.1 with createdAt := clock.unixTimestamp }) .refl
      (.inl (ownsStake (hsign hsigner) hkey ha)) r.2.2
  rw [hmint] at htokens
  have hpaid := acts_funds hput (transferTokensFrom_funds r.1 hsign hsender htokens)
  exact Ensures.mono hpaid fun s₁ hs₁ _ _ _ _ => hs₁

theorem processStakeNft_acts (mayStakes : R .stakes) (id : ℕ) (signerInfo assetInfo collectionInfo
    stakeInfo treasuryInfo mplCoreInfo systemProgram : AccountInfo) (s : State)
    (hsign : signerInfo.isSigner = true → signs signerInfo.key) :
    Holds (Acts signs R s) (processStakeNft id signerInfo assetInfo collectionInfo stakeInfo
      treasuryInfo mplCoreInfo systemProgram s) := by
  simp only [processStakeNft, transferAsset, Holds, ensures_bind, ensures_require,
    ensures_fromOption, ensures_pure]
  intro hsigner _ _ _ hkey a ha _ _ _
  refine ensures_of_forall fun p => ensures_of_forall fun r hasset => ?_
  have hput : Acts signs R s _ :=
    acts_putStakeV2 mayStakes (x := r.1) .refl (.inl (ownsStake (hsign hsigner) hkey ha)) r.2
  exact hput.tail (.asset stakeInfo.key (.inl (hsign hsigner)) hasset)

theorem processUnstakeNft_acts (mayStakes : R .stakes) (id : ℕ) (signerInfo assetInfo collectionInfo
    stakeInfo treasuryInfo mplCoreInfo systemProgram : AccountInfo) (s : State)
    (hsign : signerInfo.isSigner = true → signs signerInfo.key) :
    Holds (Acts signs R s) (processUnstakeNft id signerInfo assetInfo collectionInfo stakeInfo
      treasuryInfo mplCoreInfo systemProgram s) := by
  simp only [processUnstakeNft, transferAsset, Holds, ensures_bind, ensures_require,
    ensures_fromOption, ensures_pure]
  intro hsigner _ _ _ hkey a ha _ _ _
  refine ensures_of_forall fun p => ensures_of_forall fun r hasset => ?_
  have hput : Acts signs R s _ :=
    acts_putStakeV2 mayStakes (x := r.1) .refl (.inl (ownsStake (hsign hsigner) hkey ha)) r.2
  exact hput.tail (.asset signerInfo.key (.inr ⟨mayStakes, _, _, hkey, hsign hsigner⟩) hasset)

theorem processCloseStakeV2_acts (mayStakes : R .stakes) (mayVaults : R .vaults) (clock : Clock)
    (id : ℕ) (signerInfo mintInfo recipientInfo stakeInfo stakeTokensInfo treasuryInfo
    treasuryTokensInfo systemProgram tokenProgram associatedTokenProgram : AccountInfo) (s : State)
    (hsign : signerInfo.isSigner = true → signs signerInfo.key) :
    Holds (Acts signs R s) (processCloseStakeV2 clock id signerInfo mintInfo recipientInfo
      stakeInfo stakeTokensInfo treasuryInfo treasuryTokensInfo systemProgram tokenProgram
      associatedTokenProgram s) := by
  rw [Holds, processCloseStakeV2]
  simp only [ensures_bind, ensures_require, ensures_fromOption, ensures_addU64, ensures_pure]
  intro hsigner _ _ _ hkey a ha _ _ htreasury _ htreasuryTokens _ _ _ _ _ _ _ hstakeTokens
    residual _
  refine ensures_of_forall fun p _ => ?_
  have hsigns := hsign hsigner
  rw [htreasury.1] at htreasuryTokens
  rw [hkey] at hstakeTokens
  -- The recipient's account is opened when anything is paid out at all.
  refine ensures_optional (P := fun s₁ => FundsMoved signs R s s₁ ∧ (0 < p.1 + residual →
    recipientInfo.key = .associatedTokenAddress signerInfo.key mintInfo.key)) ?_ ?_ ?_
  · intro _
    refine Ensures.mono (openTokenAccount_funds (R := R) hsign _ _ _)
      fun s₁ hs₁ => ⟨hs₁.2, fun _ => hs₁.1⟩
  · exact fun hzero => ⟨.refl s, fun h => absurd h hzero⟩
  intro s₁ hs₁
  refine ensures_optional (P := FundsMoved signs R s) ?_ (fun _ => hs₁.1) fun s₂ hs₂ => ?_
  · intro hpos
    exact hs₁.1.after (transferTokens_funds _ htreasuryTokens (hs₁.2 (by omega)) .treasury)
  refine ensures_optional (P := FundsMoved signs R s) ?_ (fun _ => hs₂) fun s₃ hs₃ => ?_
  · intro hpos
    exact hs₂.after
      (transferTokens_funds _ hstakeTokens (hs₁.2 (by omega)) (.stakeV2 mayVaults hsigns))
  refine Ensures.bind (hs₃.after (closeTokenAccount_funds _ hstakeTokens)) fun s₄ hs₄ => ?_
  obtain ⟨l, tok, supply, rfl, hacts⟩ := hs₄
  refine ensures_pure.2 ?_
  refine acts_closeStakeV2 mayStakes hacts _ (by simp [ha]) (.inl ?_)
  exact ⟨signerInfo.key, id, hkey, hsigns⟩

theorem processMergeStakeV2_acts (mayStakes : R .stakes) (mayVaults : R .vaults) (clock : Clock)
    (targetId sourceId : ℕ) (signerInfo mintInfo targetStakeInfo targetTokensInfo sourceStakeInfo
    sourceTokensInfo treasuryInfo systemProgram tokenProgram associatedTokenProgram : AccountInfo)
    (s : State) (hsign : signerInfo.isSigner = true → signs signerInfo.key) :
    Holds (Acts signs R s) (processMergeStakeV2 clock targetId sourceId signerInfo mintInfo
      targetStakeInfo targetTokensInfo sourceStakeInfo sourceTokensInfo treasuryInfo systemProgram
      tokenProgram associatedTokenProgram s) := by
  rw [Holds, processMergeStakeV2, mergeStakeV2]
  simp only [ensures_bind, ensures_require, ensures_fromOption, ensures_pure]
  intro hne hsigner _ _ htarget _ hsource _ a ha _ _ _ b hb _ _ _ hstokens _ _ httokens _ _ _ _ _
    _ _ _
  refine ensures_of_forall fun p => ensures_of_forall fun q => ?_
  refine ensures_of_forall fun _ => ensures_of_forall fun _ => ?_
  refine ensures_of_forall fun _ => ensures_of_forall fun _ => ?_
  refine ensures_of_forall fun _ => ensures_of_forall fun x => ?_
  refine ensures_of_forall fun _ => ensures_of_forall fun t => ?_
  have hsigns := hsign hsigner
  have hput : Acts signs R s { s.putStakeV2 a x with treasury := t } :=
    acts_putStakeV2 mayStakes .refl (.inl (ownsStake hsigns htarget ha)) t
  have haddress : a.address ≠ sourceStakeInfo.key := by
    rw [s.stakesV2.key_of_get _ a ha, htarget, hsource]
    simpa using hne
  have hkept : ({ s.putStakeV2 a x with treasury := t } : State).stakesV2.get sourceStakeInfo.key =
      some b := by
    rw [← hb]
    exact Store.get_put_of_ne _ haddress.symm
  rw [htarget] at httokens
  rw [hsource] at hstokens
  generalize ({ s.putStakeV2 a x with treasury := t } : State) = s₀ at hput hkept ⊢
  refine ensures_optional (P := FundsMoved signs R s₀) ?_ (fun _ => .refl s₀) fun s₁ hs₁ => ?_
  · exact fun _ => transferTokens_funds _ hstokens httokens (.stakeV2 mayVaults hsigns)
  refine Ensures.bind (hs₁.after (closeTokenAccount_funds _ hstokens)) fun s₂ hs₂ => ?_
  simp only [ensures_bind, ensures_require, ensures_fromOption, ensures_pure]
  intro _ _ _ _
  obtain ⟨l, tok, supply, rfl, hacts⟩ := hs₂
  refine acts_closeStakeV2 mayStakes (hput.trans hacts) _ (by simp [hkept]) (.inl ?_)
  exact ⟨signerInfo.key, sourceId, hsource, hsigns⟩

/-! ## Version 2, by others -/

theorem processCompoundYieldV2_acts (mayStakes : R .stakes) (mayBurn : R .burn) (clock : Clock)
    (id : ℕ) (signerInfo mintInfo stakeInfo stakeTokensInfo treasuryInfo treasuryTokensInfo
    systemProgram tokenProgram associatedTokenProgram : AccountInfo) (s : State)
    (hsign : signerInfo.isSigner = true → signs signerInfo.key) :
    Holds (Acts signs R s) (processCompoundYieldV2 clock id signerInfo mintInfo stakeInfo
      stakeTokensInfo treasuryInfo treasuryTokensInfo systemProgram tokenProgram
      associatedTokenProgram s) := by
  rw [Holds, processCompoundYieldV2, compoundYieldV2]
  simp only [ensures_bind, ensures_require, ensures_fromOption]
  intro hsigner _ _ _ hmint _ _ htreasury _ _ _ a ha _ hby _ hstokens _ _ httokens _ _
  refine Ensures.mono (StakeV2.migrateWeight_grown _ _) fun p hp => ?_
  refine Ensures.mono (StakeV2.claim_grown _ _ _ _) fun q hq _ => ?_
  rw [hmint] at hstokens httokens
  rw [htreasury.1] at httokens
  refine ensures_optional (P := FundsMoved signs R s) ?_ (fun _ => .refl s) fun s₁ hs₁ => ?_
  · exact fun _ => burnTokens_funds mayBurn _ httokens
  refine Ensures.bind (hs₁.after (transferTokens_funds _ httokens hstokens .treasury)) ?_
  intro s₂ hs₂
  simp only [ensures_bind, ensures_require, ensures_fromOption, ensures_pure]
  intro _ n _
  refine Ensures.mono (StakeV2.deposit_grown _ _ _ _ _) fun r hr _ => ?_
  obtain ⟨l, tok, supply, rfl, hacts⟩ := hs₂
  refine acts_putStakeV2 mayStakes hacts (.inr ⟨a, ?_, ?_, ?_, .inr ?_⟩) r.2.2
  · rw [← ha, s.stakesV2.key_of_get _ a ha]
  · rw [hr.1.pda, StakeV2.pda, hq.1, hq.2.1]
    exact hp.1.pda
  · refine (min_le_left _ _).trans ?_
    rw [hr.2, hq.2.2.2, hp.2]
    exact Nat.le_add_right _ _
  · rcases hby with hby | hby
    · exact .inr (hby ▸ hsign hsigner)
    · exact .inl (hby ▸ hsign hsigner)

theorem processSetStakeExecutorV2_acts (mayStakes : R .stakes) (id : ℕ) (executor : Pubkey)
    (signerInfo stakeInfo : AccountInfo) (s : State)
    (hsign : signerInfo.isSigner = true → signs signerInfo.key) :
    Holds (Acts signs R s) (processSetStakeExecutorV2 id executor signerInfo stakeInfo s) := by
  simp only [processSetStakeExecutorV2, Holds, ensures_bind, ensures_require, ensures_fromOption,
    ensures_pure]
  intro hsigner _ a ha _ hauth
  refine .single (.stakeV2 mayStakes _ (.inr ⟨a, ?_, rfl, min_le_left _ _, .inr (.inr ?_)⟩))
  · rw [← ha, s.stakesV2.key_of_get _ a ha]
  · exact hauth ▸ hsign hsigner

theorem processReconcileStakeV2_acts (mayStakes : R .stakes) (clock : Clock) (signerInfo configInfo
    stakeInfo stakeTokensInfo mintInfo treasuryInfo : AccountInfo) (s : State) :
    Holds (Acts signs R s) (processReconcileStakeV2 clock signerInfo configInfo stakeInfo
      stakeTokensInfo mintInfo treasuryInfo s) := by
  have hlast : ∀ (a : StakeV2Account) (n : ℕ), s.stakesV2.get stakeInfo.key = some a →
      s.tokensAt (.associatedTokenAddress stakeInfo.key mintAddress) ≤ n →
      Holds (Acts signs R s) (do
        let p ← a.stake.withdraw (a.stake.balance - n) clock s.treasury
        return { s.putStakeV2 a p.2.1 with treasury := p.2.2 } : Result State) := by
    intro a n ha hn
    simp only [Holds, ensures_bind, ensures_pure]
    refine Ensures.mono (StakeV2.withdraw_grown _ _ _ _) fun p hp => ?_
    refine acts_putStakeV2 mayStakes .refl (.inr (hp.1.kept ha ?_)) p.2.2
    rw [hp.2.1, hp.2.2]
    omega
  rw [Holds, processReconcileStakeV2]
  simp only [ensures_bind, ensures_require, ensures_fromOption]
  intro _ _ _ hmint _ a ha _ _ hkey
  split
  · rename_i hempty
    have hnone := (State.noData hempty).tokens
    rw [hkey] at hnone
    exact holds_skip (hlast a 0 ha (by simp [State.tokensAt, hnone]))
  · simp only [ensures_bind, ensures_require, ensures_fromOption]
    intro _ n hn
    have hlast' := hlast a n ha (by rw [State.tokensAt, ← hkey, hn]; rfl)
    simpa only [Holds, ensures_bind] using hlast'

theorem processMigrateStakeWeight_acts (mayStakes : R .stakes) (signerInfo stakeInfo
    treasuryInfo : AccountInfo) (s : State) :
    Holds (Acts signs R s)
      (processMigrateStakeWeight signerInfo stakeInfo treasuryInfo s) := by
  simp only [processMigrateStakeWeight, Holds, ensures_bind, ensures_require,
    ensures_fromOption, ensures_ite, ensures_pure]
  intro _ _ a ha _ _
  refine ⟨fun _ => .refl, fun _ => ensures_of_forall fun _ => ?_⟩
  refine Ensures.mono (StakeV2.migrateWeight_grown _ _) fun p hp => ensures_of_forall fun _ => ?_
  refine acts_putStakeV2 mayStakes .refl (.inr (hp.1.kept ha ?_)) p.2
  rw [hp.2]
  exact min_le_left _ _

theorem processClosePhantomStakeV2_acts (mayStakes : R .stakes) (signerInfo configInfo stakeInfo
    treasuryInfo : AccountInfo) (s : State)
    (hsign : signerInfo.isSigner = true → signs signerInfo.key) :
    Holds (Acts signs R s)
      (processClosePhantomStakeV2 signerInfo configInfo stakeInfo treasuryInfo s) := by
  simp only [processClosePhantomStakeV2, Holds, ensures_bind, ensures_require,
    ensures_fromOption, ensures_addU64, ensures_pure]
  intro hsigner _ hadmin _ a ha hphantom hzero _ _ _
  have hclosed : Acts signs R s (closeStakeV2Account stakeInfo treasuryInfo.key s) :=
    acts_closeStakeV2 mayStakes .refl _ (by simp [ha])
      (.inr ⟨hadmin ▸ hsign hsigner, a, ha, hzero, hphantom⟩)
  exact acts_treasury hclosed _

end Handlers

end Godl
