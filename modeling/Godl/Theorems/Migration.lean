import Godl.Proof.Merge
import Godl.Theorems.Yield

/-!
# A migration changes nothing for the user

Anyone may put the migration of a stake right before the owner's own instruction.  The
instructions that change the weight migrate the stake themselves, and find it as they would
have left it; the claim of a yield and the reconciliation do not, and commute with it.

## Main definitions

* `MigratesItself`, `Commutes` — the two ways in which the order makes no difference.
* `GodlInstruction.stakeInfos` — the stakes that an instruction operates on.
* `migration_commutes` — the order makes no difference for any of them.
-/

namespace Godl

open Lib

/-! ## Where the order makes no difference -/

/-- From `s`, the computation `f` ends in the same state whether or not the stake `a` is
migrated before, and leaves it migrated. -/
structure MigratesItself (f : State → Result State) (s : State) (a : StakeV2Account) : Prop where
  agree : ∀ x t t₁ s₂, Migrates s a x t → f (s.restake a x t) = .ok t₁ → f s = .ok s₂ → s₂ = t₁
  migrated : Ensures (f s) (State.Migrated · a.address)

/-- What the migration of the stake at `k` does. -/
def MigrationStep (k : Pubkey) (s s' : State) : Prop :=
  ∃ b, s.stakesV2.get k = some b ∧
    ((b.stake.weightVersion ≠ 0 ∧ s' = s) ∨ ∃ z u, Migrates s b z u ∧ s' = s.restake b z u)

/-- From `s`, the computation `f` commutes with the migration of the stake `a`. -/
def Commutes (f : State → Result State) (s : State) (a : StakeV2Account) : Prop :=
  ∀ x t t₁ s₂ t₂, Migrates s a x t → f (s.restake a x t) = .ok t₁ → f s = .ok s₂ →
    MigrationStep a.address s₂ t₂ → t₂ = t₁

theorem MigratesFirst.itself {f : State → Result State} {s : State} {a : StakeV2Account}
    (h : MigratesFirst f s a) : MigratesItself f s a := by
  refine ⟨fun x t t₁ s₂ hm h₁ h₂ => ?_, h.migrated⟩
  rw [h.same x t hm, h₂] at h₁
  exact Except.ok.inj h₁

/-- After it the migration is a no-op. -/
theorem MigratesItself.commutes {f : State → Result State} {s : State} {a : StakeV2Account}
    (h : MigratesItself f s a) : Commutes f s a := by
  intro x t t₁ s₂ t₂ hm h₁ h₂ hstep
  obtain ⟨b, hb, hcases⟩ := hstep
  rcases hcases with ⟨-, rfl⟩ | ⟨z, u, hm₂, -⟩
  · exact h.agree x t t₁ _ hm h₁ h₂
  · exact absurd hm₂.old (h.migrated.elim h₂ b hb)

/-! ## Merges -/

namespace StakeV2

variable {x x' y y' z z' : StakeV2} {t t' u u' : Treasury} {clock : Clock}

/-- A merge does not notice that its target was migrated before. -/
theorem combine_migrated_target (hmigrate : x.migrateWeight t = .ok (x', t')) :
    x'.combine y clock t' = x.combine y clock t := by
  have hversion : x'.weightVersion ≠ 0 := (migrateWeight_version x t).elim hmigrate
  rw [combine, combine, migrateWeight_of_ne hversion, hmigrate]

/-- A merge does not notice that its source was migrated before. -/
theorem combine_migrated_source (hold : y.weightVersion = 0)
    (hmigrate : y.migrateWeight t = .ok (y', t')) (h' : x.combine y' clock t' = .ok (z', u'))
    (h : x.combine y clock t = .ok (z, u)) : z = z' ∧ u = u' := by
  have hversion : y'.weightVersion ≠ 0 := (migrateWeight_version y t).elim hmigrate
  obtain ⟨x₁, t₁, y₁, t₂, x₂, y₂, p, q, n, hx₁, hy₁, hrest⟩ := combine_eq_ok.1 h
  obtain ⟨x₁', t₁', -, -, -, -, -, -, -, hx₁', -⟩ := combine_eq_ok.1 h'
  -- The two migrations lead to the same two stakes and the same treasury.
  obtain ⟨rfl, rfl, rfl⟩ := migrateWeight_comm hold hmigrate hx₁' hx₁ hy₁
  have hsame : x.combine y' clock t' = .ok (z, u) :=
    combine_eq_ok.2 ⟨_, _, _, _, x₂, y₂, p, q, n, hx₁', migrateWeight_of_ne hversion _, hrest⟩
  rw [h'] at hsame
  cases hsame
  exact ⟨rfl, rfl⟩

end StakeV2

section Handlers

variable {s : State} {a : StakeV2Account} {clock : Clock} {signerInfo mintInfo targetStakeInfo
  targetTokensInfo sourceStakeInfo sourceTokensInfo recipientInfo configInfo stakeInfo
  stakeTokensInfo treasuryInfo treasuryTokensInfo systemProgram tokenProgram
  associatedTokenProgram : AccountInfo}

theorem processMergeStakeV2_target (targetId sourceId : ℕ)
    (hget : s.stakesV2.get targetStakeInfo.key = some a) :
    MigratesItself (processMergeStakeV2 clock targetId sourceId signerInfo mintInfo targetStakeInfo
      targetTokensInfo sourceStakeInfo sourceTokensInfo treasuryInfo systemProgram tokenProgram
      associatedTokenProgram) s a := by
  have hkey : targetStakeInfo.key = a.address := (s.stakesV2.key_of_get _ _ hget).symm
  constructor
  · intro x t t₁ s₂ hm h₁ h₂
    obtain ⟨hne, -, a₁, b₁, m₁, n₁, z₁, u₁, ha₁, hb₁, -, hm₁, hn₁, hcombine₁, rfl⟩ :=
      (processMergeStakeV2_spec _ _ _ _ _ _ _ _ _ _ _ _ _ _).elim h₁
    obtain ⟨-, -, a₂, b₂, m₂, n₂, z₂, u₂, ha₂, hb₂, -, hm₂, hn₂, hcombine₂, rfl⟩ :=
      (processMergeStakeV2_spec _ _ _ _ _ _ _ _ _ _ _ _ _ _).elim h₂
    obtain rfl := Option.some.inj (hget.symm.trans ha₂)
    rw [hkey, State.restake_get, Option.some.injEq] at ha₁
    subst ha₁
    rw [State.restake_get_of_ne (hkey ▸ hne.symm)] at hb₁
    obtain rfl := Option.some.inj (hb₁.symm.trans hb₂)
    obtain rfl := Option.some.inj (hm₁.symm.trans hm₂)
    obtain rfl := Option.some.inj (hn₁.symm.trans hn₂)
    rw [State.restake_treasury, StakeV2.combine_migrated_target hm.migrate] at hcombine₁
    obtain ⟨rfl, rfl⟩ := Prod.mk.inj (Except.ok.inj (hcombine₂.symm.trans hcombine₁))
    have hput : (s.stakesV2.put { a with stake := x }).put { a with stake := z₂ } =
        s.stakesV2.put { a with stake := z₂ } := Store.put_put _ rfl
    rw [← hput]
    rfl
  · refine Ensures.mono (processMergeStakeV2_spec _ _ _ _ _ _ _ _ _ _ _ _ _ _) ?_
    rintro _ ⟨hne, -, a₂, b₂, m₂, n₂, z₂, u₂, ha₂, -, -, -, -, hcombine₂, rfl⟩ b hb
    obtain rfl := Option.some.inj (hget.symm.trans ha₂)
    rw [Store.get_erase, if_neg (hkey ▸ hne), Store.get_put, if_pos rfl, Option.some.injEq] at hb
    obtain ⟨v, w, p, q, n, version, -, -, -, -, -, hversion, hz, -⟩ :=
      StakeV2.combine_spec hcombine₂
    rw [← hb]
    simpa [hz] using hversion

theorem processMergeStakeV2_source (targetId sourceId : ℕ)
    (hget : s.stakesV2.get sourceStakeInfo.key = some a) :
    MigratesItself (processMergeStakeV2 clock targetId sourceId signerInfo mintInfo targetStakeInfo
      targetTokensInfo sourceStakeInfo sourceTokensInfo treasuryInfo systemProgram tokenProgram
      associatedTokenProgram) s a := by
  have hkey : sourceStakeInfo.key = a.address := (s.stakesV2.key_of_get _ _ hget).symm
  constructor
  · intro x t t₁ s₂ hm h₁ h₂
    obtain ⟨hne, -, a₁, b₁, m₁, n₁, z₁, u₁, ha₁, hb₁, -, hm₁, hn₁, hcombine₁, rfl⟩ :=
      (processMergeStakeV2_spec _ _ _ _ _ _ _ _ _ _ _ _ _ _).elim h₁
    obtain ⟨-, -, a₂, b₂, m₂, n₂, z₂, u₂, ha₂, hb₂, -, hm₂, hn₂, hcombine₂, rfl⟩ :=
      (processMergeStakeV2_spec _ _ _ _ _ _ _ _ _ _ _ _ _ _).elim h₂
    obtain rfl := Option.some.inj (hget.symm.trans hb₂)
    rw [hkey, State.restake_get, Option.some.injEq] at hb₁
    subst hb₁
    rw [State.restake_get_of_ne (hkey ▸ hne)] at ha₁
    obtain rfl := Option.some.inj (ha₁.symm.trans ha₂)
    obtain rfl := Option.some.inj (hm₁.symm.trans hm₂)
    obtain rfl := Option.some.inj (hn₁.symm.trans hn₂)
    rw [State.restake_treasury] at hcombine₁
    obtain ⟨rfl, rfl⟩ := StakeV2.combine_migrated_source hm.old hm.migrate hcombine₁ hcombine₂
    have haddress : ({ a₁ with stake := z₂ } : StakeV2Account).address ≠
        ({ a with stake := x } : StakeV2Account).address := by
      have ha : a₁.address = targetStakeInfo.key := s.stakesV2.key_of_get _ _ ha₂
      show a₁.address ≠ a.address
      rw [ha, ← hkey]
      exact hne
    have hput : ((s.stakesV2.put { a with stake := x }).put { a₁ with stake := z₂ }).erase
        sourceStakeInfo.key =
          (s.stakesV2.put { a₁ with stake := z₂ }).erase sourceStakeInfo.key := by
      rw [Store.put_comm _ haddress.symm]
      exact Store.erase_put _ hkey.symm
    rw [← hput]
    rfl
  · refine Ensures.mono (processMergeStakeV2_spec _ _ _ _ _ _ _ _ _ _ _ _ _ _) ?_
    rintro _ ⟨-, -, a₂, b₂, m₂, n₂, z₂, u₂, -, -, -, -, -, -, rfl⟩ b hb
    rw [hkey, Store.get_erase_self] at hb
    cases hb

/-! ## The two that do not migrate -/

/-- Migrating what an instruction left, when it left the stake `y`. -/
theorem restake_migrated {v t₂ : State} {y y' : StakeV2} {t₀ t' : Treasury}
    (hold : y.weightVersion = 0) (hstep : MigrationStep a.address (v.restake a y t₀) t₂)
    (hmigrate : ∀ z u, y.migrateWeight t₀ = .ok (z, u) → z = y' ∧ u = t') :
    t₂ = v.restake a y' t' := by
  obtain ⟨b, hb, hcases⟩ := hstep
  rw [State.restake_get, Option.some.injEq] at hb
  subst hb
  rcases hcases with ⟨hnew, -⟩ | ⟨z, u, hm, rfl⟩
  · exact absurd hold hnew
  · obtain ⟨rfl, rfl⟩ := hmigrate z u hm.migrate
    exact State.restake_restake v a y z t₀ u

theorem processClaimYieldV2_commutes (id amount : ℕ)
    (hget : s.stakesV2.get stakeInfo.key = some a) :
    Commutes (processClaimYieldV2 clock id amount signerInfo mintInfo recipientInfo stakeInfo
      treasuryInfo treasuryTokensInfo systemProgram tokenProgram associatedTokenProgram) s a := by
  have hkey : stakeInfo.key = a.address := (s.stakesV2.key_of_get _ _ hget).symm
  have hstake := State.asStakeV2_of_get hget
  intro x t t₁ s₂ t₂ hm h₁ h₂ hstep
  simp only [processClaimYieldV2, loadStakeV2, State.asStakeV2_restake hkey, hstake,
    State.asTokens_restake, State.asSingleton_restake hm.get, hm.authority, hm.id, ok_bind,
    pure_bind, bind_assoc, bind_eq_ok, (openTokenAccount_passes hm.get _ _ _ _).bind_eq,
    State.restake_treasury] at h₁ h₂
  obtain ⟨_, -, _, -, _, -, _, -, _, -, _, -, _, -, _, -, _, -, _, -, _, -, _, -, _, -, s₁, hs₁,
    ⟨p, y'⟩, hclaim₁, ht₁⟩ := h₁
  obtain ⟨_, -, _, -, _, -, _, -, _, -, _, -, _, -, _, -, _, -, _, -, _, -, _, -, _, -, s₁', hs₁',
    ⟨q, y⟩, hclaim₂, hs₂⟩ := h₂
  obtain rfl := Except.ok.inj (hs₁.symm.trans hs₁')
  have htreasury : s₁.treasury = s.treasury := by
    obtain ⟨-, l, tok, hopened, -⟩ := (State.openTokenAccount_spec s _ _ _ _).elim hs₁
    rw [hopened]
  rw [htreasury] at hclaim₂
  obtain ⟨rfl, hold, hmigrate⟩ :=
    StakeV2.migrateWeight_claim hm.old hm.migrate hclaim₁ hclaim₂
  -- Both transfer the same amount; the one state has the migrated stake in it.
  have hpasses : ∀ (w : StakeV2) (v : Treasury), State.transferTokens (s₁.restake a w v)
      treasuryTokensInfo.key recipientInfo.key p = (State.restake · a w v) <$>
        s₁.transferTokens treasuryTokensInfo.key recipientInfo.key p := fun w v =>
    transferTokens_passes _ _ _
  rw [show s₁.putStakeV2 a y = s₁.restake a y s₁.treasury from rfl, hpasses] at hs₂
  rw [show (s₁.restake a x t).putStakeV2 { a with stake := x } y' = s₁.restake a y' t from
    State.restake_restake s₁ a x y' t t, hpasses] at ht₁
  cases htransfer : s₁.transferTokens treasuryTokensInfo.key recipientInfo.key p with
  | error e =>
    rw [htransfer] at ht₁
    cases ht₁
  | ok s' =>
    rw [htransfer] at ht₁ hs₂
    obtain rfl := Except.ok.inj ht₁
    obtain rfl := Except.ok.inj hs₂
    refine restake_migrated hold hstep fun z' u' hz => ?_
    rw [htreasury, hmigrate] at hz
    cases hz
    exact ⟨rfl, rfl⟩

/-- A reconciliation withdraws what the vault does not hold. -/
theorem processReconcileStakeV2_withdraws (s : State) :
    Ensures (processReconcileStakeV2 clock signerInfo configInfo stakeInfo stakeTokensInfo mintInfo
      treasuryInfo s) fun s' => ∃ b p y u, s.stakesV2.get stakeInfo.key = some b ∧
        b.stake.withdraw (b.stake.balance - s.tokensAt stakeTokensInfo.key) clock s.treasury =
          .ok (p, y, u) ∧ s' = s.restake b y u := by
  simp only [processReconcileStakeV2, ensures_bind, ensures_require, ensures_ite,
    ensures_fromOption, ensures_pure, State.asStakeV2]
  intro _ _ _ _ _ b hb _ _ _
  refine ⟨fun hempty r hr => ?_, fun _ _ n hn r hr => ?_⟩
  · have hvault : s.tokensAt stakeTokensInfo.key = 0 := by
      rw [State.tokensAt, (State.noData hempty).tokens]
      rfl
    rw [hvault]
    exact ⟨b, r.1, r.2.1, r.2.2, hb, hr, rfl⟩
  · have hvault : s.tokensAt stakeTokensInfo.key = n := by
      rw [State.tokensAt, hn]
      rfl
    rw [hvault]
    exact ⟨b, r.1, r.2.1, r.2.2, hb, hr, rfl⟩

theorem processReconcileStakeV2_commutes (hget : s.stakesV2.get stakeInfo.key = some a) :
    Commutes (processReconcileStakeV2 clock signerInfo configInfo stakeInfo stakeTokensInfo
      mintInfo treasuryInfo) s a := by
  have hkey : stakeInfo.key = a.address := (s.stakesV2.key_of_get _ _ hget).symm
  intro x t t₁ s₂ t₂ hm h₁ h₂ hstep
  obtain ⟨a₁, p, y', u', ha₁, hwithdraw₁, rfl⟩ := (processReconcileStakeV2_withdraws _).elim h₁
  obtain ⟨a₂, q, y, v, ha₂, hwithdraw₂, rfl⟩ := (processReconcileStakeV2_withdraws _).elim h₂
  obtain rfl := Option.some.inj (hget.symm.trans ha₂)
  rw [hkey, State.restake_get] at ha₁
  obtain rfl := Option.some.inj ha₁
  have hshort : ({ a with stake := x } : StakeV2Account).stake.balance -
      (s.restake a x t).tokensAt stakeTokensInfo.key =
        a.stake.balance - s.tokensAt stakeTokensInfo.key := by
    rw [hm.balance]
    rfl
  rw [hshort] at hwithdraw₁
  rw [State.restake_restake]
  have hold : y.weightVersion = 0 :=
    ((StakeV2.withdraw_version _ _ _ _).elim hwithdraw₂).trans hm.old
  refine restake_migrated hold hstep fun z' u' hz => ?_
  obtain ⟨-, -, rfl, rfl⟩ :=
    StakeV2.migrateWeight_withdraw hm.old hm.migrate hwithdraw₁ hwithdraw₂ hz
  exact ⟨rfl, rfl⟩

/-! ## The migration -/

/-- What a migration does. -/
theorem processMigrateStakeWeight_spec (s : State) :
    Ensures (processMigrateStakeWeight signerInfo stakeInfo treasuryInfo s)
      (MigrationStep stakeInfo.key s) := by
  simp only [processMigrateStakeWeight, ensures_bind, ensures_require, ensures_ite,
    ensures_fromOption, ensures_pure, State.asStakeV2]
  intro _ _ a ha _ _
  refine ⟨fun hnew => ⟨a, ha, .inl ⟨hnew, rfl⟩⟩, fun hold => ?_⟩
  refine ensures_of_forall fun _ r hr => ensures_of_forall fun _ => ⟨a, ha, .inr ?_⟩
  have hget : s.stakesV2.get a.address = some a := by rwa [← s.stakesV2.key_of_get _ _ ha] at ha
  exact ⟨r.1, r.2, ⟨hget, not_not.1 hold, hr⟩, rfl⟩

/-- **Migrating again changes nothing.** -/
theorem processMigrateStakeWeight_again {s' : State}
    (h : processMigrateStakeWeight signerInfo stakeInfo treasuryInfo s = .ok s') :
    processMigrateStakeWeight signerInfo stakeInfo treasuryInfo s' = .ok s' := by
  obtain ⟨a, ha, ⟨-, rfl⟩ | ⟨x, t, hm, rfl⟩⟩ := (processMigrateStakeWeight_spec s).elim h
  · exact h
  · have hkey : stakeInfo.key = a.address := (s.stakesV2.key_of_get _ _ ha).symm
    simp only [processMigrateStakeWeight, bind_eq_ok] at h
    obtain ⟨_, hsigner, _, hwritable, _, -, _, hwritable', _, hsingleton, -⟩ := h
    rw [processMigrateStakeWeight, hsigner, ok_bind, hwritable, ok_bind,
      State.asStakeV2_restake hkey, ok_bind, hwritable', ok_bind,
      State.asSingleton_restake hm.get, hsingleton, ok_bind, if_pos hm.version]
    rfl

end Handlers

/-! ## The instructions -/

/-- The stakes that an instruction operates on. -/
def GodlInstruction.stakeInfos (ix : GodlInstruction) (accounts : List AccountInfo) :
    List AccountInfo :=
  match ix with
  | .withdrawV2 _ _ | .claimYieldV2 _ _ | .topUpStakeV2 _ _ | .stakeNft _ | .unstakeNft _ =>
      (accounts.drop 3).take 1
  | .compoundYieldV2 _ | .reconcileStakeV2 => (accounts.drop 2).take 1
  | .mergeStakeV2 _ _ => (accounts.drop 2).take 1 ++ (accounts.drop 4).take 1
  | _ => []

/-- Whether an instruction migrates the stakes that it operates on. -/
def GodlInstruction.migrates : GodlInstruction → Bool
  | .withdrawV2 _ _ | .topUpStakeV2 _ _ | .stakeNft _ | .unstakeNft _ | .compoundYieldV2 _
  | .mergeStakeV2 _ _ => true
  | _ => false

section Instructions

variable {env : Env} {clock : Clock} {ix : GodlInstruction} {accounts : List AccountInfo}
  {cpi : Cpi} {s s' : State} {info : AccountInfo} {a : StakeV2Account}

theorem processInstruction_migratesItself (hmigrates : ix.migrates = true)
    (hinfo : info ∈ ix.stakeInfos accounts) (hget : s.stakesV2.get info.key = some a) :
    MigratesItself (fun s => processInstruction env clock ix accounts cpi s) s a := by
  have hwrong : MigratesItself (fun _ => (wrongLength : Result State)) s a :=
    ⟨fun x t t₁ s₂ _ h₁ => (by cases h₁), ensures_error.2 trivial⟩
  cases ix <;> simp only [GodlInstruction.migrates, Bool.false_eq_true] at hmigrates
  all_goals
    simp only [GodlInstruction.stakeInfos] at hinfo
    simp only [processInstruction]
    split
    on_goal 2 => exact hwrong
    simp only [List.drop_succ_cons, List.drop_zero, List.take_succ_cons, List.take_zero,
      List.mem_singleton, List.mem_append] at hinfo
  · -- WithdrawV2
    subst hinfo
    exact (processWithdrawV2_migratesFirst _ _ hget).itself
  · -- CompoundYieldV2
    subst hinfo
    exact (processCompoundYieldV2_migratesFirst _ hget).itself
  · -- TopUpStakeV2
    subst hinfo
    exact (processTopUpStakeV2_migratesFirst _ _ hget).itself
  · -- MergeStakeV2
    rcases hinfo with rfl | rfl
    · exact processMergeStakeV2_target _ _ hget
    · exact processMergeStakeV2_source _ _ hget
  · -- StakeNft
    subst hinfo
    exact (processStakeNft_migratesFirst _ hget).itself
  · -- UnstakeNft
    subst hinfo
    exact (processUnstakeNft_migratesFirst _ hget).itself

theorem processInstruction_commutes (hinfo : info ∈ ix.stakeInfos accounts)
    (hget : s.stakesV2.get info.key = some a) :
    Commutes (fun s => processInstruction env clock ix accounts cpi s) s a := by
  by_cases hmigrates : ix.migrates = true
  · exact (processInstruction_migratesItself hmigrates hinfo hget).commutes
  have hwrong : Commutes (fun _ => (wrongLength : Result State)) s a :=
    fun x t t₁ s₂ t₂ _ h₁ => by cases h₁
  cases ix <;> simp only [GodlInstruction.migrates, not_true] at hmigrates
  case claimYieldV2 =>
    simp only [GodlInstruction.stakeInfos] at hinfo
    simp only [processInstruction]
    split
    · simp only [List.drop_succ_cons, List.drop_zero, List.take_succ_cons, List.take_zero,
        List.mem_singleton] at hinfo
      subst hinfo
      exact processClaimYieldV2_commutes _ _ hget
    · exact hwrong
  case reconcileStakeV2 =>
    simp only [GodlInstruction.stakeInfos] at hinfo
    simp only [processInstruction]
    split
    · simp only [List.drop_succ_cons, List.drop_zero, List.take_succ_cons, List.take_zero,
        List.mem_singleton] at hinfo
      subst hinfo
      exact processReconcileStakeV2_commutes hget
    · exact hwrong
  all_goals exact absurd hinfo (List.not_mem_nil)

theorem migrationCall_spec (h : processInstruction env clock .migrateStakeWeight accounts cpi s =
    .ok s') (hinfo : accounts[1]? = some info) : MigrationStep info.key s s' := by
  simp only [processInstruction] at h
  split at h
  · obtain rfl := Option.some.inj hinfo
    exact (processMigrateStakeWeight_spec s).elim h
  · cases h

end Instructions

/-- **A migration changes nothing for the user.**  Take any instruction that operates on stakes,
and one of them that is not migrated.  If the instruction goes through both right after its
migration and on its own, then migrating it afterwards leads to the same state; the
instructions that migrate their stakes lead there on their own; and a second migration is a
no-op. -/
theorem migration_commutes {env : Env} {clock clock₁ : Clock} {ix : GodlInstruction}
    {accounts accounts₁ : List AccountInfo} {cpi cpi₁ : Cpi} {s s₁ t₁ s₂ : State}
    {info info₁ : AccountInfo} {a : StakeV2Account} (hinfo : info ∈ ix.stakeInfos accounts)
    (hget : s.stakesV2.get info.key = some a) (hold : a.stake.weightVersion = 0)
    (hinfo₁ : accounts₁[1]? = some info₁) (hkey₁ : info₁.key = info.key)
    (hmigrate : processInstruction env clock₁ .migrateStakeWeight accounts₁ cpi₁ s = .ok s₁)
    (hfirst : processInstruction env clock ix accounts cpi s₁ = .ok t₁)
    (hplain : processInstruction env clock ix accounts cpi s = .ok s₂) :
    (∀ clock₂ accounts₂ cpi₂ info₂ t₂, accounts₂[1]? = some info₂ → info₂.key = info.key →
      processInstruction env clock₂ .migrateStakeWeight accounts₂ cpi₂ s₂ = .ok t₂ → t₂ = t₁) ∧
    (ix.migrates = true → s₂ = t₁) ∧
    ∀ clock₂ cpi₂,
      processInstruction env clock₂ .migrateStakeWeight accounts₁ cpi₂ s₁ = .ok s₁ := by
  obtain ⟨b, hb, hcases⟩ := migrationCall_spec hmigrate hinfo₁
  rw [hkey₁] at hb
  obtain rfl := Option.some.inj (hget.symm.trans hb)
  rcases hcases with ⟨hnew, -⟩ | ⟨x, t, hm, rfl⟩
  · exact absurd hold hnew
  refine ⟨fun clock₂ accounts₂ cpi₂ info₂ t₂ hinfo₂ hkey₂ hmigrate₂ => ?_, fun hmigrates => ?_,
    fun clock₂ cpi₂ => ?_⟩
  · have hstep := migrationCall_spec hmigrate₂ hinfo₂
    rw [hkey₂, ← s.stakesV2.key_of_get _ _ hget] at hstep
    exact processInstruction_commutes hinfo hget x t t₁ s₂ t₂ hm hfirst hplain hstep
  · exact (processInstruction_migratesItself hmigrates hinfo hget).agree x t t₁ s₂ hm hfirst hplain
  · simp only [processInstruction] at hmigrate ⊢
    split at hmigrate
    · exact processMigrateStakeWeight_again hmigrate
    · cases hmigrate

/-- A stake of 1000 on the linear curve, locked for a year, that earned 100. -/
def linearState : State := { stakedV2State with
  treasury := { stakedState.treasury with totalStaked := 20000 }
  stakesV2 := Store.empty.put (.derived (.key 7) 1 { StakeV2.create 1 (.key 7) (.key 7) 31536000
    ⟨0, 0⟩ stakedState.treasury with balance := 1000, rewards := 100, weightVersion := 0 }) }

/-- A stranger migrates the stake. -/
def migrateCall : Call := .migrateStakeWeight 1

/-- The owner claims its yield; the migration before or after it does not matter. -/
theorem migration_commutes_claim : ∃ s₁ t₁ s₂ t₂ : State,
    processInstruction .plain migrateCall.clock migrateCall.ix migrateCall.accounts
      migrateCall.cpi linearState = .ok s₁ ∧
    processInstruction .plain claimV2Call.clock claimV2Call.ix claimV2Call.accounts
      claimV2Call.cpi s₁ = .ok t₁ ∧
    processInstruction .plain claimV2Call.clock claimV2Call.ix claimV2Call.accounts
      claimV2Call.cpi linearState = .ok s₂ ∧
    processInstruction .plain migrateCall.clock migrateCall.ix migrateCall.accounts
      migrateCall.cpi s₂ = .ok t₂ ∧
    t₂ = t₁ ∧ t₁.tokensAt (.associatedTokenAddress (.key 7) mintAddress) = 100 ∧
    t₁.treasury.totalStaked ≠ s₂.treasury.totalStaked := by
  obtain ⟨s₁, hs₁, hnext⟩ := exists_of_returns
    (x := processInstruction .plain migrateCall.clock migrateCall.ix migrateCall.accounts
      migrateCall.cpi linearState)
    (P := fun s₁ => returns (processInstruction .plain claimV2Call.clock claimV2Call.ix
      claimV2Call.accounts claimV2Call.cpi s₁) fun t₁ =>
        decide (t₁.tokensAt (.associatedTokenAddress (.key 7) mintAddress) = 100 ∧
          t₁.treasury.totalStaked ≠ 20000)) (by decide +kernel)
  obtain ⟨t₁, ht₁, hP⟩ := exists_of_returns hnext
  obtain ⟨s₂, hs₂, hnext'⟩ := exists_of_returns
    (x := processInstruction .plain claimV2Call.clock claimV2Call.ix claimV2Call.accounts
      claimV2Call.cpi linearState)
    (P := fun s₂ => decide (s₂.treasury.totalStaked = 20000) &&
      returns (processInstruction .plain migrateCall.clock migrateCall.ix
        migrateCall.accounts migrateCall.cpi s₂) fun _ => true) (by decide +kernel)
  rw [Bool.and_eq_true] at hnext'
  obtain ⟨t₂, ht₂, -⟩ := exists_of_returns hnext'.2
  have hinfo : AccountInfo.writable (.stakeV2Pda (.key 7) 1) ∈
      claimV2Call.ix.stakeInfos claimV2Call.accounts := List.mem_singleton.2 rfl
  have hcommutes := (migration_commutes hinfo (Store.get_put_self ..) rfl rfl rfl hs₁ ht₁ hs₂).1
  obtain ⟨htokens, htotal⟩ := of_decide_eq_true hP
  refine ⟨s₁, t₁, s₂, t₂, hs₁, ht₁, hs₂, ht₂, hcommutes _ _ _ _ t₂ rfl rfl ht₂, htokens, ?_⟩
  rw [of_decide_eq_true hnext'.1]
  exact htotal

end Godl
