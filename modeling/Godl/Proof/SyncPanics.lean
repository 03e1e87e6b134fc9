import Godl.Program.Processor
import Godl.Proof.Ops
import Godl.Proof.Positions

/-!
# The assertions on extended accounts

Settling a miner's gold asserts that the extended account is the miner's own, and that a
miner without one holds no unrefined GODL.  No handler ever runs into one of them: the
checks that come before exclude both.

## Main definitions

* `ProgramError.IsSyncPanic` — the two assertions.
* `NoSyncPanic x` — `x` does not fail on them.
-/

namespace Godl

open Lib

/-- One of the two assertions that settling gold makes. -/
def ProgramError.IsSyncPanic (e : ProgramError) : Prop :=
  e = .panic .minerExtendedAuthorityMismatch ∨ e = .panic .minerExtendedAbsent

/-- A computation that does not fail on the assertions. -/
abbrev NoSyncPanic {α : Type} (x : Result α) : Prop := Avoids ProgramError.IsSyncPanic x

section Operations

variable (s : State)

@[simp] theorem loadError_noSyncPanic (k : Pubkey) : ¬ (s.loadError k).IsSyncPanic := by
  simp [ProgramError.IsSyncPanic]

@[simp] theorem send_noSyncPanic (source dest : Pubkey) (n : ℕ) :
    NoSyncPanic (s.send source dest n) := by
  simp [State.send, ProgramError.IsSyncPanic]

@[simp] theorem collect_noSyncPanic (dest : Pubkey) (n : ℕ) (payer : AccountInfo) :
    NoSyncPanic (s.collect dest n payer) := by
  simp [State.collect, ProgramError.IsSyncPanic]

@[simp] theorem createAccount_noSyncPanic (target : AccountInfo) (len : ℕ)
    (payer : AccountInfo) : NoSyncPanic (s.createAccount target len payer) := by
  simp [State.createAccount, ProgramError.IsSyncPanic]

@[simp] theorem transferTokens_noSyncPanic (source dest : Pubkey) (n : ℕ) :
    NoSyncPanic (s.transferTokens source dest n) := by
  simp [State.transferTokens, ProgramError.IsSyncPanic]

@[simp] theorem openTokenAccount_noSyncPanic (info : AccountInfo) (owner mint : Pubkey)
    (payer : AccountInfo) : NoSyncPanic (s.openTokenAccount info owner mint payer) := by
  simp [State.openTokenAccount, State.createTokenAccount, ProgramError.IsSyncPanic]

end Operations

/-! ## Loading and settling -/

/-- The extended account that is loaded belongs to the authority, and is there when it may be
created. -/
theorem loadOrCreateMinerExtended_owner (minerExtendedInfo : AccountInfo) (authority : Pubkey)
    (payer : AccountInfo) (create : Bool) (s : State) :
    Ensures (loadOrCreateMinerExtended minerExtendedInfo authority payer create s) fun r =>
      (∀ e, r.1 = some e → e.authority = authority) ∧ (create = true → r.1 ≠ none) := by
  simp only [loadOrCreateMinerExtended, ensures_bind, ensures_require, ensures_ite,
    ensures_fromOption, ensures_pure]
  refine fun _ _ => ⟨fun _ => ⟨fun _ => ensures_of_forall fun s' => ?_, fun hcreate => ?_⟩,
    fun _ e he hauth => ?_⟩
  · exact ⟨fun e he => by cases he; rfl, fun _ => Option.some_ne_none _⟩
  · exact ⟨fun e he => (Option.some_ne_none e he.symm).elim, fun h => absurd h hcreate⟩
  · exact ⟨fun e' he' => by cases he'; exact hauth, fun _ => Option.some_ne_none _⟩

@[simp] theorem loadOrCreateMinerExtended_noSyncPanic (minerExtendedInfo : AccountInfo)
    (authority : Pubkey) (payer : AccountInfo) (create : Bool) (s : State) :
    NoSyncPanic (loadOrCreateMinerExtended minerExtendedInfo authority payer create s) := by
  simp [loadOrCreateMinerExtended, ProgramError.IsSyncPanic]

/-- Settling does not fail on its assertions when the account is the miner's own, and when a
miner without one holds nothing. -/
theorem syncGoldRewards_noSyncPanic {extended : Option MinerExtended} {miner : Miner} (s : State)
    (howner : ∀ e, extended = some e → e.authority = miner.authority)
    (hnone : extended = none → miner.rewardsGodl = 0) :
    NoSyncPanic (syncGoldRewards extended miner s) := by
  cases extended with
  | none => simp [syncGoldRewards, hnone rfl]
  | some e =>
    simp [syncGoldRewards, howner e rfl, MinerExtended.updateRewards, ProgramError.IsSyncPanic]

/-! ## The handlers that settle -/

@[simp] theorem updateRewards_noSyncPanic (m : Miner) (t : Treasury) :
    NoSyncPanic (m.updateRewards t) := by
  simp [Miner.updateRewards, ProgramError.IsSyncPanic]

@[simp] theorem claimGodl_noSyncPanic (m : Miner) (clock : Clock) (t : Treasury) :
    NoSyncPanic (m.claimGodl clock t) := by
  simp [Miner.claimGodl, ProgramError.IsSyncPanic]

@[simp] theorem creditReferrerGodl_noSyncPanic (miner : Miner) (treasuryTokensInfo mintInfo :
    AccountInfo) (share : ℕ) (rest : List AccountInfo) (s : State) :
    NoSyncPanic (creditReferrerGodl miner treasuryTokensInfo mintInfo share rest s) := by
  unfold creditReferrerGodl
  split
  · split <;> simp [loadReferrer, ProgramError.IsSyncPanic]
  · simp [ProgramError.IsSyncPanic]

@[simp] theorem referralAmount_noSyncPanic (miner : Miner) (amount bps : ℕ) :
    NoSyncPanic (referralAmount miner amount bps) := by
  unfold referralAmount
  split <;> simp [ProgramError.IsSyncPanic]

theorem processClaimGodl_noSyncPanic (clock : Clock) (signerInfo configInfo minerInfo mintInfo
    recipientInfo treasuryInfo treasuryTokensInfo systemProgram tokenProgram
    associatedTokenProgram goldVaultInfo minerExtendedInfo : AccountInfo)
    (rest : List AccountInfo) (s : State) :
    NoSyncPanic (processClaimGodl clock signerInfo configInfo minerInfo mintInfo recipientInfo
      treasuryInfo treasuryTokensInfo systemProgram tokenProgram associatedTokenProgram
      goldVaultInfo minerExtendedInfo rest s) := by
  simp only [processClaimGodl, ProgramError.IsSyncPanic, avoids_bind, avoids_require,
    avoids_fromOption, avoids_ite, avoids_pure, avoids_subU64, ensures_bind, ensures_require,
    ensures_fromOption, ensures_true, implies_true, State.loadError_ne_panic, reduceCtorEq, or_self,
    not_false_eq_true, and_self, and_true, true_and, loadOrCreateMinerExtended_noSyncPanic,
    openTokenAccount_noSyncPanic, claimGodl_noSyncPanic, referralAmount_noSyncPanic,
    creditReferrerGodl_noSyncPanic, transferTokens_noSyncPanic]
  intro _ miner _ _ _ _ _ _ _ _ _ _ _ _ _
  refine Ensures.mono (loadOrCreateMinerExtended_owner _ _ _ _ s) fun r hcreate => ?_
  obtain ⟨howner, hcreate⟩ := hcreate
  refine ensures_of_forall fun s' => syncGoldRewards_noSyncPanic s' howner fun hnone => ?_
  -- Without an extended account the handler did not ask for one to be created.
  by_contra hne
  exact hcreate (decide_eq_true (Nat.pos_of_ne_zero hne)) hnone

theorem creditUnrefined_noSyncPanic {e : ProgramError} (he : ¬ e.IsSyncPanic) (amount : ℕ)
    (minerExtendedInfo payer : AccountInfo) {authority : Pubkey} {miner : Miner}
    (hauth : miner.authority = authority) (s : State) :
    NoSyncPanic (creditUnrefined e amount minerExtendedInfo payer authority miner s) := by
  simp only [creditUnrefined, avoids_bind, avoids_pure, he, avoids_addU64,
    ensures_true, not_false_eq_true, and_self, and_true, true_and, updateRewards_noSyncPanic,
    loadOrCreateMinerExtended_noSyncPanic]
  refine Ensures.mono (loadOrCreateMinerExtended_owner _ _ _ _ s) fun r hcreate => ?_
  obtain ⟨howner, hcreate⟩ := hcreate
  refine Ensures.mono (Miner.updateRewards_spec miner r.2.treasury) fun m hm => ?_
  refine syncGoldRewards_noSyncPanic r.2 (fun e' he' => ?_) fun hnone => ?_
  · rw [howner e' he', hm.authority, hauth]
  · exact absurd hnone (hcreate rfl)

theorem processInjectUnrefinedRewards_noSyncPanic (amount : ℕ) (signerInfo configInfo minerInfo
    treasuryInfo signerTokensInfo treasuryTokensInfo tokenProgram goldVaultInfo
    minerExtendedInfo systemProgram : AccountInfo) (s : State) :
    NoSyncPanic (processInjectUnrefinedRewards amount signerInfo configInfo minerInfo
      treasuryInfo signerTokensInfo treasuryTokensInfo tokenProgram goldVaultInfo
      minerExtendedInfo systemProgram s) := by
  simp [processInjectUnrefinedRewards, State.transferTokensFrom, ProgramError.IsSyncPanic,
    ensures_of_forall, creditUnrefined_noSyncPanic]

/-! ## Checkpoints -/

theorem settleGold_noSyncPanic (gold : Option (AccountInfo × AccountInfo))
    (signerInfo : AccountInfo) (miner : Miner) (rewardsGodl : ℕ) (s : State) :
    NoSyncPanic (settleGold gold signerInfo miner rewardsGodl s) := by
  unfold settleGold
  split
  · exact avoids_pure
  · simp only [avoids_bind, avoids_require, ensures_require, ProgramError.IsSyncPanic,
      reduceCtorEq, or_self, not_false_eq_true, implies_true, true_and,
      loadOrCreateMinerExtended_noSyncPanic]
    refine Ensures.mono (loadOrCreateMinerExtended_owner _ _ _ _ s) fun r howner hsome => ?_
    obtain ⟨howner, _⟩ := howner
    refine syncGoldRewards_noSyncPanic r.2 howner fun hnone => ?_
    rw [hnone] at hsome
    exact (hsome.resolve_left (by simp)).1

@[simp] theorem poolShare_noSyncPanic (a : CheckpointAccounts) (round : Round) (miner : Miner)
    (poolMember : Option PoolMember) (ws : Square) (s : State) :
    NoSyncPanic (poolShare a round miner poolMember ws s) := by
  unfold poolShare
  split <;> simp [ProgramError.IsSyncPanic]

@[simp] theorem winnerGodl_noSyncPanic (a : CheckpointAccounts) (round : Round) (miner : Miner)
    (poolMember : Option PoolMember) (r : BitVec 64) (ws : Square) (s : State) :
    NoSyncPanic (winnerGodl a round miner poolMember r ws s) := by
  simp [winnerGodl, isTopMiner, ProgramError.IsSyncPanic]

@[simp] theorem checkpointRewards_noSyncPanic (a : CheckpointAccounts) (round : Round)
    (miner : Miner) (poolMember : Option PoolMember) (s : State) :
    NoSyncPanic (checkpointRewards a round miner poolMember s) := by
  unfold checkpointRewards
  split <;> simp [winnerSol, ProgramError.IsSyncPanic]

theorem creditRound_noSyncPanic (clock : Clock) (a : CheckpointAccounts)
    (gold : Option (AccountInfo × AccountInfo)) (round : Round) (miner : Miner)
    (poolMember : Option PoolMember) (s : State) :
    NoSyncPanic (creditRound clock a gold round miner poolMember s) := by
  simp [creditRound, botFee, creditMiner, payCheckpoint, settleGold_noSyncPanic,
    ensures_of_forall, ProgramError.IsSyncPanic]

theorem checkpointBody_noSyncPanic (clock : Clock) (a : CheckpointAccounts)
    (gold : Option (AccountInfo × AccountInfo)) (s : State) :
    NoSyncPanic (checkpointBody clock a gold s) := by
  cases gold <;> simp [checkpointBody, checkpointMiner, loadPoolMember, creditRound_noSyncPanic,
    ensures_of_forall, ProgramError.IsSyncPanic]

/-! ## Trades -/

@[simp] theorem openMiner_noSyncPanic {e : ProgramError} (he : ¬ e.IsSyncPanic)
    (minerInfo : AccountInfo) (authority : Pubkey) (payer : AccountInfo) (s : State) :
    NoSyncPanic (openMiner e minerInfo authority payer s) := by
  simp [openMiner, he]

theorem checkOtcTrade_noSyncPanic (clock : Clock) (args : OtcTradeArgs)
    (a : OtcTradeAccounts) (s : State) : NoSyncPanic (checkOtcTrade clock args a s) := by
  simp [checkOtcTrade, ProgramError.IsSyncPanic]

theorem bookOtcTrade_noSyncPanic (args : OtcTradeArgs) (a : OtcTradeAccounts) (n : ℕ)
    (s : State) : NoSyncPanic (bookOtcTrade args a n s) := by
  simp [bookOtcTrade, ProgramError.IsSyncPanic]

theorem openOtcUser_noSyncPanic (a : OtcTradeAccounts) (s : State) :
    NoSyncPanic (openOtcUser a s) := by
  simp [openOtcUser, ProgramError.IsSyncPanic]

@[simp] theorem isqrtU128_noSyncPanic (n : ℕ) : NoSyncPanic (isqrtU128 n) := by
  have hloop : ∀ x, NoSyncPanic (isqrtLoop n x) := by
    intro x
    fun_induction isqrtLoop n x <;> simp_all [ProgramError.IsSyncPanic]
  simp [isqrtU128, hloop, ProgramError.IsSyncPanic]

@[simp] theorem weightedUnits_noSyncPanic (x : StakeV2) : NoSyncPanic x.weightedUnits := by
  simp [StakeV2.weightedUnits, StakeV2.applyMultiplier, StakeV2.getEffectiveMultiplier,
    effectiveMultiplier, ensures_of_forall, ProgramError.IsSyncPanic]

@[simp] theorem StakeV2.updateRewards_noSyncPanic (x : StakeV2) (t : Treasury) :
    NoSyncPanic (x.updateRewards t) := by
  simp [StakeV2.updateRewards, ensures_of_forall, ProgramError.IsSyncPanic]

theorem openOtcStake_noSyncPanic (clock : Clock) (args : OtcTradeArgs) (a : OtcTradeAccounts)
    (n : ℕ) (s : State) : NoSyncPanic (openOtcStake clock args a n s) := by
  simp [openOtcStake, StakeV2.deposit, moveTotalStaked, ensures_of_forall,
    ProgramError.IsSyncPanic]

theorem payOtcBonus_noSyncPanic (args : OtcTradeArgs) (a : OtcTradeAccounts) {miner : Miner}
    (hauth : miner.authority = a.buyerInfo.key) (s : State) :
    NoSyncPanic (payOtcBonus args a miner s) := by
  have he : ¬ ProgramError.IsSyncPanic .arithmeticOverflow := by
    simp [ProgramError.IsSyncPanic]
  simp [payOtcBonus, ensures_of_forall, creditUnrefined_noSyncPanic he _ _ _ hauth]

theorem processExecuteOtcTrade_noSyncPanic (clock : Clock) (args : OtcTradeArgs)
    (a : OtcTradeAccounts) (s : State) :
    NoSyncPanic (processExecuteOtcTrade clock args a s) := by
  have he : ¬ ProgramError.IsSyncPanic .invalidAccountData := by
    simp [ProgramError.IsSyncPanic]
  refine avoids_bind.2 ⟨checkOtcTrade_noSyncPanic clock args a s, ensures_of_forall fun n => ?_⟩
  refine avoids_bind.2 ⟨bookOtcTrade_noSyncPanic args a n s, ensures_of_forall fun s₁ => ?_⟩
  refine avoids_bind.2 ⟨openMiner_noSyncPanic he _ _ _ s₁, ?_⟩
  refine Ensures.mono (openMiner_spec _ _ _ _ s₁) fun r hauth => ?_
  obtain ⟨miner, s₂⟩ := r
  obtain ⟨_, _, _, hauth, _⟩ := hauth
  refine avoids_bind.2 ⟨openOtcUser_noSyncPanic a s₂, ensures_of_forall fun r => ?_⟩
  obtain ⟨otcUser, s₃⟩ := r
  refine avoids_bind.2 ⟨openOtcStake_noSyncPanic clock args a n s₃,
    ensures_of_forall fun r => ?_⟩
  obtain ⟨stake, s₄⟩ := r
  refine avoids_bind.2 ⟨payOtcBonus_noSyncPanic args a hauth s₄, ensures_of_forall fun q => ?_⟩
  simp [ProgramError.IsSyncPanic]

/-! ## Instructions -/

/-- The instructions that settle a miner's gold. -/
def GodlInstruction.SettlesGold : GodlInstruction → Prop
  | .claimGodl | .injectUnrefinedRewards _ | .executeOtcTrade _ | .checkpoint
  | .checkpointWithMinerExtended => True
  | _ => False

/-- **No instruction that settles gold fails on the assertions of settling**, in any state. -/
theorem processInstruction_noSyncPanic {ix : GodlInstruction} (hix : ix.SettlesGold) (env : Env)
    (clock : Clock) (accounts : List AccountInfo) (cpi : Cpi) (s : State) :
    NoSyncPanic (processInstruction env clock ix accounts cpi s) := by
  have hwrong : NoSyncPanic (wrongLength : Result State) := by
    simp [wrongLength, ProgramError.IsSyncPanic]
  cases ix
  case claimGodl =>
    simp only [processInstruction]
    split
    · apply processClaimGodl_noSyncPanic
    · exact hwrong
  case injectUnrefinedRewards =>
    simp only [processInstruction]
    split
    · apply processInjectUnrefinedRewards_noSyncPanic
    · exact hwrong
  case executeOtcTrade =>
    simp only [processInstruction]
    split
    · apply processExecuteOtcTrade_noSyncPanic
    · exact hwrong
  case checkpoint =>
    simp only [processInstruction]
    split
    · simp [processCheckpoint, checkpointBody_noSyncPanic, ProgramError.IsSyncPanic]
    · exact hwrong
  case checkpointWithMinerExtended =>
    simp only [processInstruction]
    split
    · apply checkpointBody_noSyncPanic
    · exact hwrong
  all_goals exact hix.elim

end Godl
