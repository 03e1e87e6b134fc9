import Godl.Theorems.Migration
import Godl.Theorems.Vaults

/-!
# Locked stakes

Until the lock of a stake is over, nothing that was put into it leaves it, whoever signs: what
touches the stake adds to it, or starts its lock over.  Only a merge moves it, into a stake of
the same user that is locked as long.

## Main definitions

* `State.StakeHeld` — a stake still holds what it held, on a lock that is no shorter.
* `StakeV2.Locked` — something is in a stake, and its lock runs.

## Main results

* `processInstruction_held` — no instruction takes anything out of a locked stake.
* `locked_of_run` — so no run does, while the lock runs.
-/

namespace Godl

open Lib

/-- What was in `x` is in `y`, on a lock as long that started no earlier. -/
structure StakeV2.Contains (y x : StakeV2) : Prop where
  balance : x.balance ≤ y.balance
  lockDuration : x.lockDuration ≤ y.lockDuration
  createdAt : x.createdAt ≤ y.createdAt

/-- Something is in a stake, and its lock runs. -/
structure StakeV2.Locked (x : StakeV2) (time : ℤ) : Prop where
  filled : 0 < x.balance
  started : x.createdAt ≤ time
  runs : time < x.lockEnd

/-- The stake at `k` still holds what was in `x`. -/
def State.StakeHeld (s : State) (k : Pubkey) (x : StakeV2) : Prop :=
  ∃ a, s.stakesV2.get k = some a ∧ a.stake.Contains x

namespace StakeV2

variable {x y z : StakeV2}

theorem Contains.refl (x : StakeV2) : x.Contains x := ⟨le_refl _, le_refl _, le_refl _⟩

theorem Contains.trans (h : z.Contains y) (h' : y.Contains x) : z.Contains x :=
  ⟨h'.balance.trans h.balance, h'.lockDuration.trans h.lockDuration,
    h'.createdAt.trans h.createdAt⟩

/-- Its lock ends no earlier. -/
theorem Contains.lockEnd_le (h : y.Contains x) : x.lockEnd ≤ y.lockEnd := by
  have hduration := h.lockDuration
  have hcreated := h.createdAt
  rw [lockEnd, lockEnd]
  omega

/-- An operation that keeps the terms and takes nothing out. -/
theorem Kept.contains {F : Numeric} (h : Kept F x y) (hbalance : x.balance ≤ y.balance) :
    y.Contains x :=
  ⟨hbalance, h.lockDuration.ge, h.createdAt.ge⟩

theorem migrateWeight_contains (x : StakeV2) (t : Treasury) :
    Ensures (x.migrateWeight t) fun r => r.1.Contains x :=
  Ensures.mono (migrateWeight_kept x t) fun _ hr => hr.1.contains hr.2.ge

theorem claim_contains (x : StakeV2) (amount : ℕ) (clock : Clock) (t : Treasury) :
    Ensures (x.claim amount clock t) fun r => r.2.Contains x :=
  Ensures.mono (claim_kept x amount clock t) fun _ hr => hr.1.contains hr.2.ge

theorem stakeNft_contains (x : StakeV2) (t : Treasury) :
    Ensures (x.stakeNft t) fun r => r.1.Contains x :=
  Ensures.mono (stakeNft_kept x t) fun _ hr => hr.1.contains hr.2.ge

theorem unstakeNft_contains (x : StakeV2) (t : Treasury) :
    Ensures (x.unstakeNft t) fun r => r.1.Contains x :=
  Ensures.mono (unstakeNft_kept x t) fun _ hr => hr.1.contains hr.2.ge

theorem deposit_contains (x : StakeV2) (amount : ℕ) (clock : Clock) (t : Treasury) (sender : ℕ) :
    Ensures (x.deposit amount clock t sender) fun r => r.2.1.Contains x := by
  refine Ensures.mono ((deposit_kept x amount clock t sender).and
    (deposit_grown x amount clock t sender)) ?_
  rintro r ⟨hkept, -, hbalance⟩
  refine hkept.contains ?_
  rw [hbalance]
  exact Nat.le_add_right _ _

/-- A merged stake contains what either stake did, and its lock starts over. -/
theorem combine_contains {clock : Clock} {t u : Treasury} {v : StakeV2}
    (h : x.combine y clock t = .ok (z, u)) (hv : x.Contains v ∨ y.Contains v)
    (hstarted : v.createdAt ≤ clock.unixTimestamp) : z.Contains v := by
  have hsum := combine_balance h
  obtain ⟨x', y', p, q, n, version, hx', hy', -, -, -, -, rfl, -⟩ := combine_spec h
  have hx := ((updateRewards_kept x t).elim hx').1.lockDuration
  have hy := ((updateRewards_kept y t).elim hy').1.lockDuration
  refine ⟨?_, ?_, hstarted⟩
  · rw [hsum]
    obtain hv | hv := hv
    · exact hv.balance.trans (Nat.le_add_right _ _)
    · exact hv.balance.trans (Nat.le_add_left _ _)
  · show v.lockDuration ≤ max x'.lockDuration y'.lockDuration
    rw [hx, hy]
    exact le_max_iff.2 (hv.imp Contains.lockDuration Contains.lockDuration)

end StakeV2

/-! ## Writing and deleting stakes -/

section Writes

variable {s s' : State} {k j : Pubkey} {x y : StakeV2} {b : StakeV2Account}

theorem State.StakeHeld.of_stakes (h : s.StakeHeld k x) (hstakes : s'.stakesV2 = s.stakesV2) :
    s'.StakeHeld k x := by
  obtain ⟨a, ha, hx⟩ := h
  exact ⟨a, hstakes ▸ ha, hx⟩

/-- A new stake lives elsewhere. -/
theorem State.StakeHeld.create (h : s.StakeHeld k x) (hnone : s.stakesV2.get b.address = none)
    (hstakes : s'.stakesV2 = s.stakesV2.put b) : s'.StakeHeld k x := by
  obtain ⟨a, ha, hx⟩ := h
  have hne : k ≠ b.address := by
    rintro rfl
    rw [hnone] at ha
    cases ha
  refine ⟨a, ?_, hx⟩
  rw [hstakes, Store.get_put_of_ne _ hne, ha]

/-- A stake is written back. -/
theorem State.StakeHeld.write (h : s.StakeHeld k x) (hget : s.stakesV2.get j = some b)
    (hy : k = j → b.stake.Contains x → y.Contains x)
    (hstakes : s'.stakesV2 = (s.putStakeV2 b y).stakesV2) : s'.StakeHeld k x := by
  obtain ⟨a, ha, hx⟩ := h
  by_cases hk : k = j
  · subst hk
    rw [hget, Option.some.injEq] at ha
    subst ha
    refine ⟨{ b with stake := y }, ?_, hy rfl hx⟩
    rw [hstakes, s.get_putStakeV2 hget]
  · have hj := s.stakesV2.key_of_get j b hget
    refine ⟨a, ?_, hx⟩
    rw [hstakes]
    exact (get_restaked_of_ne s b y (hj ▸ hk)).trans ha

/-- Another stake is deleted. -/
theorem State.StakeHeld.erase (h : s.StakeHeld k x) (hne : k ≠ j)
    (hstakes : s'.stakesV2 = s.stakesV2.erase j) : s'.StakeHeld k x := by
  obtain ⟨a, ha, hx⟩ := h
  refine ⟨a, ?_, hx⟩
  rw [hstakes, Store.get_erase, if_neg hne, ha]

/-- An empty stake is deleted. -/
theorem State.StakeHeld.close (h : s.StakeHeld k x) (hfilled : 0 < x.balance)
    (hget : s.stakesV2.get j = some b) (hempty : b.stake.balance = 0)
    (hstakes : s'.stakesV2 = s.stakesV2.erase j) : s'.StakeHeld k x := by
  refine h.erase ?_ hstakes
  rintro rfl
  obtain ⟨a, ha, hx⟩ := h
  rw [hget, Option.some.injEq] at ha
  subst ha
  have hbalance := hx.balance
  omega

end Writes

/-! ## The handlers -/

section Handlers

variable {s : State} {clock : Clock} {k : Pubkey} {x : StakeV2}

theorem processWithdraw_held (h : s.StakeHeld k x) (amount : ℕ) (signerInfo mintInfo recipientInfo
    stakeInfo stakeTokensInfo treasuryInfo systemProgram tokenProgram
    associatedTokenProgram : AccountInfo) :
    Ensures (processWithdraw clock amount signerInfo mintInfo recipientInfo stakeInfo
      stakeTokensInfo treasuryInfo systemProgram tokenProgram associatedTokenProgram s)
      (·.StakeHeld k x) := by
  refine Ensures.mono (processWithdraw_step clock amount signerInfo mintInfo recipientInfo
    stakeInfo stakeTokensInfo treasuryInfo systemProgram tokenProgram associatedTokenProgram s) ?_
  exact fun s' hstep => h.of_stakes hstep.2

theorem processClaimYield_held (h : s.StakeHeld k x) (amount : ℕ) (signerInfo mintInfo recipientInfo
    stakeInfo treasuryInfo treasuryTokensInfo systemProgram tokenProgram
    associatedTokenProgram : AccountInfo) :
    Ensures (processClaimYield clock amount signerInfo mintInfo recipientInfo stakeInfo treasuryInfo
      treasuryTokensInfo systemProgram tokenProgram associatedTokenProgram s)
      (·.StakeHeld k x) := by
  refine Ensures.mono (processClaimYield_step clock amount signerInfo mintInfo recipientInfo
    stakeInfo treasuryInfo treasuryTokensInfo systemProgram tokenProgram associatedTokenProgram
    s) ?_
  exact fun s' hstep => h.of_stakes hstep.2

theorem processDepositV2_held (h : s.StakeHeld k x) (id amount : ℕ) (lockDuration : ℤ) (signerInfo
    mintInfo senderInfo stakeInfo stakeTokensInfo treasuryInfo executorInfo systemProgram
    tokenProgram associatedTokenProgram : AccountInfo) :
    Ensures (processDepositV2 clock id amount lockDuration signerInfo mintInfo senderInfo
      stakeInfo stakeTokensInfo treasuryInfo executorInfo systemProgram tokenProgram
      associatedTokenProgram s) (·.StakeHeld k x) := by
  simp only [processDepositV2, ensures_bind, ensures_require, ensures_fromOption, ensures_pure]
  intro _ _ _ hsender _ _ _ _ _ _ _ _ _ hempty hkey
  have hget := (State.noData hempty).stakesV2
  rw [hkey] at hget
  refine Ensures.mono (State.createAccount_spec s _ _ _) ?_
  rintro _ ⟨-, l, rfl, -, -⟩
  refine ensures_of_forall fun y => ?_
  refine Ensures.mono (State.openTokenAccount_spec _ _ _ _ _) ?_
  rintro _ ⟨-, l', tok, rfl, -, -⟩
  refine ensures_of_forall fun r _ => ?_
  refine Ensures.mono (transferTokensFrom_quiet _ _ hsender) fun s₂ hs₂ _ _ _ _ => ?_
  exact h.create (b := .derived signerInfo.key id r.2.1) hget
    (hs₂.stakes.stakesV2.trans (Store.put_put _ rfl))

/-- A withdrawal waits for the end of the lock. -/
theorem processWithdrawV2_held (h : s.StakeHeld k x) (hlocked : x.Locked clock.unixTimestamp)
    (id amount : ℕ) (signerInfo mintInfo recipientInfo stakeInfo stakeTokensInfo treasuryInfo
    systemProgram tokenProgram associatedTokenProgram : AccountInfo) :
    Ensures (processWithdrawV2 clock id amount signerInfo mintInfo recipientInfo stakeInfo
      stakeTokensInfo treasuryInfo systemProgram tokenProgram associatedTokenProgram s)
      (·.StakeHeld k x) := by
  simp only [processWithdrawV2, ensures_bind, ensures_require, ensures_fromOption, ensures_pure]
  intro _ _ _ _ a ha _ _ _ _ _ _ _ _ _
  refine Ensures.mono (StakeV2.migrateWeight_contains _ _) fun r hmigrated hend _ => ?_
  refine Ensures.mono (State.openTokenAccount_spec _ _ _ _ _) ?_
  rintro _ ⟨-, l, tok, rfl, -, -⟩
  refine ensures_of_forall fun r' => ?_
  refine Ensures.mono (State.transferTokens_spec _ _ _ _) ?_
  rintro _ ⟨tok', rfl, -⟩ _ _ _ _
  refine h.write ha (fun _ hcontains => ?_) rfl
  have hend : r.1.lockEnd ≤ clock.unixTimestamp := hend
  exact absurd ((hmigrated.trans hcontains).lockEnd_le.trans hend) (not_le.2 hlocked.runs)

theorem processClaimYieldV2_held (h : s.StakeHeld k x) (id amount : ℕ) (signerInfo mintInfo
    recipientInfo stakeInfo treasuryInfo treasuryTokensInfo systemProgram tokenProgram
    associatedTokenProgram : AccountInfo) :
    Ensures (processClaimYieldV2 clock id amount signerInfo mintInfo recipientInfo stakeInfo
      treasuryInfo treasuryTokensInfo systemProgram tokenProgram associatedTokenProgram s)
      (·.StakeHeld k x) := by
  simp only [processClaimYieldV2, ensures_bind, ensures_require, ensures_fromOption,
    ensures_pure]
  intro _ _ _ _ a ha _ _ _ _ _ _ _ _ _ _
  refine Ensures.mono (State.openTokenAccount_spec _ _ _ _ _) ?_
  rintro _ ⟨-, l, tok, rfl, -, -⟩
  refine Ensures.mono (StakeV2.claim_contains _ _ _ _) fun r hclaimed => ?_
  refine Ensures.mono (State.transferTokens_spec _ _ _ _) ?_
  rintro _ ⟨tok', rfl, -⟩
  exact h.write ha (fun _ hcontains => hclaimed.trans hcontains) rfl

/-- What is compounded is added to the balance. -/
theorem processCompoundYieldV2_held (h : s.StakeHeld k x) (id : ℕ) (signerInfo mintInfo stakeInfo
    stakeTokensInfo treasuryInfo treasuryTokensInfo systemProgram tokenProgram
    associatedTokenProgram : AccountInfo) :
    Ensures (processCompoundYieldV2 clock id signerInfo mintInfo stakeInfo stakeTokensInfo
      treasuryInfo treasuryTokensInfo systemProgram tokenProgram associatedTokenProgram s)
      (·.StakeHeld k x) := by
  simp only [processCompoundYieldV2, compoundYieldV2, ensures_bind, ensures_require,
    ensures_fromOption]
  intro _ _ _ _ _ _ _ _ _ _ _ a ha _ _ _ _ _ _ _ _ _
  refine Ensures.mono (StakeV2.migrateWeight_contains _ _) ?_
  rintro ⟨y, t⟩ hmigrated
  refine Ensures.mono (StakeV2.claim_contains _ _ _ _) ?_
  rintro ⟨compounded, z⟩ hpaid _
  dsimp only at hmigrated hpaid
  have hclaimed := hpaid.trans hmigrated
  have hlast : ∀ s₁ : State, s₁.stakesV2 = s.stakesV2 → ∀ n,
      Ensures (z.deposit (compounded - compounded / 100) clock t n) fun r =>
        State.StakeHeld { s₁.putStakeV2 a r.2.1 with treasury := r.2.2 } k x := by
    intro s₁ hs₁ n
    refine Ensures.mono (StakeV2.deposit_contains _ _ _ _ _) fun r hdeposited => ?_
    refine (h.of_stakes hs₁).write (by rw [hs₁]; exact ha) (fun _ hheld => ?_) rfl
    exact (hdeposited.trans hclaimed).trans hheld
  simp only [ensures_ite, ensures_bind, ensures_require, ensures_fromOption, ensures_pure]
  refine ⟨fun _ => ?_, fun _ => ?_⟩
  · refine Ensures.mono (State.burnTokens_spec _ _ _) ?_
    rintro _ ⟨tok, rfl, -⟩
    refine Ensures.mono (State.transferTokens_spec _ _ _ _) ?_
    rintro _ ⟨tok', rfl, -⟩ _ n _
    exact Ensures.mono (hlast { s with
      tokens := tok'
      mintSupply := s.mintSupply - compounded / 100 } rfl n) fun r hr _ => hr
  · refine Ensures.mono (State.transferTokens_spec _ _ _ _) ?_
    rintro _ ⟨tok', rfl, -⟩ _ n _
    exact Ensures.mono (hlast { s with tokens := tok' } rfl n) fun r hr _ => hr

theorem processSetStakeExecutorV2_held (h : s.StakeHeld k x) (id : ℕ) (executor : Pubkey)
    (signerInfo stakeInfo : AccountInfo) :
    Ensures (processSetStakeExecutorV2 id executor signerInfo stakeInfo s) (·.StakeHeld k x) := by
  simp only [processSetStakeExecutorV2, ensures_bind, ensures_require, ensures_fromOption,
    ensures_pure]
  intro _ _ a ha _ _
  refine h.write ha (fun _ hcontains => ?_) rfl
  exact ⟨hcontains.balance, hcontains.lockDuration, hcontains.createdAt⟩

/-- A reconciliation finds nothing to correct while the vaults are backed. -/
theorem processReconcileStakeV2_held (h : s.StakeHeld k x) (hs : s.VaultsBacked) {user : Pubkey}
    {id : ℕ} (hk : k = .stakeV2Pda user id) (signerInfo configInfo stakeInfo stakeTokensInfo
    mintInfo treasuryInfo : AccountInfo) :
    Ensures (processReconcileStakeV2 clock signerInfo configInfo stakeInfo stakeTokensInfo mintInfo
      treasuryInfo s) (·.StakeHeld k x) := by
  by_cases hkey : stakeInfo.key = .stakeV2Pda user id
  · refine Ensures.mono ((processReconcileStakeV2_withdraws s).and
      (processReconcileStakeV2_idle hs clock hkey)) ?_
    rintro _ ⟨⟨b, p, y, u, hb, hwithdraw, rfl⟩, hidle⟩
    have hkept := ((StakeV2.withdraw_kept _ _ _ _).elim hwithdraw).1
    refine h.write hb (fun _ hcontains => (hkept.contains ?_).trans hcontains) rfl
    have hput : (s.restake b y u).stakesV2.get stakeInfo.key = some { b with stake := y } :=
      s.get_putStakeV2 hb y
    rw [hkey] at hb hidle hput
    rw [State.vaulted_of_stakesV2 hput, State.vaulted_of_stakesV2 hb] at hidle
    exact hidle.ge
  · refine Ensures.mono (processReconcileStakeV2_withdraws s) ?_
    rintro _ ⟨b, p, y, u, hb, -, rfl⟩
    exact h.write hb (fun hkb _ => absurd (hkb.symm.trans hk) hkey) rfl

theorem processMigrateStakeWeight_held (h : s.StakeHeld k x) (signerInfo stakeInfo
    treasuryInfo : AccountInfo) :
    Ensures (processMigrateStakeWeight signerInfo stakeInfo treasuryInfo s) (·.StakeHeld k x) := by
  simp only [processMigrateStakeWeight, ensures_bind, ensures_require, ensures_fromOption,
    ensures_ite, ensures_pure]
  intro _ _ a ha _ _
  refine ⟨fun _ => h, fun _ => ensures_of_forall fun _ => ?_⟩
  refine Ensures.mono (StakeV2.migrateWeight_contains _ _) fun r hmigrated => ?_
  refine ensures_of_forall fun _ => ?_
  exact h.write ha (fun _ hcontains => hmigrated.trans hcontains) rfl

/-- Only empty stakes are closed. -/
theorem processCloseStakeV2_held (h : s.StakeHeld k x) (hfilled : 0 < x.balance) (id : ℕ)
    (signerInfo mintInfo recipientInfo stakeInfo stakeTokensInfo treasuryInfo treasuryTokensInfo
    systemProgram tokenProgram associatedTokenProgram : AccountInfo) :
    Ensures (processCloseStakeV2 clock id signerInfo mintInfo recipientInfo stakeInfo
      stakeTokensInfo treasuryInfo treasuryTokensInfo systemProgram tokenProgram
      associatedTokenProgram s) (·.StakeHeld k x) := by
  simp only [processCloseStakeV2, ensures_bind, ensures_require, ensures_fromOption, ensures_pure]
  intro _ _ _ _ _ a ha _ _ _ _ _ _ _ _ _ _ hempty _ _ residual _
  refine ensures_of_forall fun r => ?_
  rw [ensures_addU64]
  intro _
  have hclosed : ∀ s₁ : State, s₁.stakesV2 = s.stakesV2 →
      Ensures (s₁.closeTokenAccount stakeTokensInfo.key signerInfo.key) fun s₂ =>
        (closeStakeV2Account stakeInfo signerInfo.key s₂).StakeHeld k x := by
    intro s₁ hs₁
    refine Ensures.mono (State.closeTokenAccount_spec _ _ _) ?_
    rintro _ ⟨l, tok, rfl, -⟩
    exact h.close hfilled ha hempty (by rw [← hs₁]; rfl)
  have htransfer : ∀ (s₁ : State) (source dest : Pubkey) (n : ℕ), s₁.stakesV2 = s.stakesV2 →
      Ensures (s₁.transferTokens source dest n) fun s₂ => s₂.stakesV2 = s.stakesV2 := by
    intro s₁ source dest n hs₁
    refine Ensures.mono (State.transferTokens_spec _ _ _ _) ?_
    rintro _ ⟨tok, rfl, -⟩
    exact hs₁
  -- The rewards go first, then what is left in the stake's own account.
  have hresidual : ∀ s₁ : State, s₁.stakesV2 = s.stakesV2 →
      (0 < residual → Ensures (s₁.transferTokens stakeTokensInfo.key recipientInfo.key residual)
        fun s₂ => Ensures (s₂.closeTokenAccount stakeTokensInfo.key signerInfo.key) fun s₃ =>
          (closeStakeV2Account stakeInfo signerInfo.key s₃).StakeHeld k x) ∧
      (¬ 0 < residual → Ensures (s₁.closeTokenAccount stakeTokensInfo.key signerInfo.key)
        fun s₃ => (closeStakeV2Account stakeInfo signerInfo.key s₃).StakeHeld k x) :=
    fun s₁ hs₁ => ⟨fun _ => Ensures.mono (htransfer s₁ _ _ _ hs₁) hclosed,
      fun _ => hclosed s₁ hs₁⟩
  simp only [ensures_ite, ensures_bind, ensures_pure]
  refine ⟨fun _ => ?_, fun _ => ⟨fun _ => ?_, fun _ => hresidual s rfl⟩⟩
  · refine Ensures.mono (State.openTokenAccount_spec _ _ _ _ _) ?_
    rintro _ ⟨-, l, tok, rfl, -, -⟩
    exact ⟨fun _ => Ensures.mono (htransfer _ _ _ _ rfl) hresidual, fun _ => hresidual _ rfl⟩
  · exact Ensures.mono (htransfer s _ _ _ rfl) hresidual

theorem processClosePhantomStakeV2_held (h : s.StakeHeld k x) (hfilled : 0 < x.balance)
    (signerInfo configInfo stakeInfo treasuryInfo : AccountInfo) :
    Ensures (processClosePhantomStakeV2 signerInfo configInfo stakeInfo treasuryInfo s)
      (·.StakeHeld k x) := by
  simp only [processClosePhantomStakeV2, ensures_bind, ensures_require, ensures_fromOption,
    ensures_addU64, ensures_pure]
  intro _ _ _ _ a ha _ hempty _ _ _
  exact h.close hfilled ha hempty rfl

/-- A stake that is topped up starts its lock over. -/
theorem processTopUpStakeV2_held (h : s.StakeHeld k x)
    (hstarted : x.createdAt ≤ clock.unixTimestamp) (id amount : ℕ) (signerInfo mintInfo senderInfo
    stakeInfo stakeTokensInfo treasuryInfo systemProgram tokenProgram
    associatedTokenProgram : AccountInfo) :
    Ensures (processTopUpStakeV2 clock id amount signerInfo mintInfo senderInfo stakeInfo
      stakeTokensInfo treasuryInfo systemProgram tokenProgram associatedTokenProgram s)
      (·.StakeHeld k x) := by
  simp only [processTopUpStakeV2, topUpStakeV2, ensures_bind, ensures_require, ensures_fromOption,
    ensures_pure]
  intro _ _ _ hsender _ _ _ _ _ _ a ha _ _ _ _ _ _ _
  refine Ensures.mono (StakeV2.migrateWeight_contains _ _) fun r hmigrated _ _ _ => ?_
  refine Ensures.mono (StakeV2.deposit_contains _ _ _ _ _) fun r' hdeposited _ => ?_
  refine Ensures.mono (transferTokensFrom_quiet _ _ hsender) fun s₁ hs₁ _ _ _ _ => ?_
  refine h.write ha (fun _ hheld => ?_) hs₁.stakes.stakesV2
  have hcontains := (hdeposited.trans hmigrated).trans hheld
  exact ⟨hcontains.balance, hcontains.lockDuration, hstarted⟩

/-- A merge adds to the target, and the source goes there. -/
theorem processMergeStakeV2_held (h : s.StakeHeld k x)
    (hstarted : x.createdAt ≤ clock.unixTimestamp) (targetId sourceId : ℕ) (signerInfo mintInfo
    targetStakeInfo targetTokensInfo sourceStakeInfo sourceTokensInfo treasuryInfo systemProgram
    tokenProgram associatedTokenProgram : AccountInfo) :
    Ensures (processMergeStakeV2 clock targetId sourceId signerInfo mintInfo targetStakeInfo
      targetTokensInfo sourceStakeInfo sourceTokensInfo treasuryInfo systemProgram tokenProgram
      associatedTokenProgram s) fun s' => s'.StakeHeld k x ∨
        k = .stakeV2Pda signerInfo.key sourceId ∧
          s'.StakeHeld (.stakeV2Pda signerInfo.key targetId) x := by
  refine Ensures.mono (Ensures.and (processMergeStakeV2_spec clock targetId sourceId signerInfo
    mintInfo targetStakeInfo targetTokensInfo sourceStakeInfo sourceTokensInfo treasuryInfo
    systemProgram tokenProgram associatedTokenProgram s) (processMergeStakeV2_checked clock targetId
    sourceId signerInfo mintInfo targetStakeInfo targetTokensInfo sourceStakeInfo sourceTokensInfo
    treasuryInfo systemProgram tokenProgram associatedTokenProgram)) ?_
  rintro s' ⟨⟨hne, -, a, b, m, n, z, u, ha, hb, -, -, -, hcombine, rfl⟩, htarget, hsource, -, -⟩
  by_cases hk : k = sourceStakeInfo.key
  · obtain ⟨c, hc, hcontains⟩ := h
    rw [hk, hb, Option.some.injEq] at hc
    subst hc
    have hput : State.StakeHeld { s with stakesV2 := s.stakesV2.put { a with stake := z } }
        targetStakeInfo.key x :=
      ⟨{ a with stake := z }, s.get_putStakeV2 ha z,
        StakeV2.combine_contains hcombine (.inr hcontains) hstarted⟩
    refine .inr ⟨hk.trans hsource, ?_⟩
    rw [← htarget]
    exact hput.erase hne rfl
  · have hput : State.StakeHeld { s with stakesV2 := s.stakesV2.put { a with stake := z } } k x :=
      h.write ha
        (fun _ hheld => StakeV2.combine_contains hcombine (.inl hheld) hstarted) rfl
    exact .inl (hput.erase hk rfl)

theorem processStakeNft_held (h : s.StakeHeld k x) (id : ℕ) (signerInfo assetInfo collectionInfo
    stakeInfo treasuryInfo mplCoreInfo systemProgram : AccountInfo) :
    Ensures (processStakeNft id signerInfo assetInfo collectionInfo stakeInfo treasuryInfo
      mplCoreInfo systemProgram s) (·.StakeHeld k x) := by
  simp only [processStakeNft, transferAsset, ensures_bind, ensures_require, ensures_fromOption,
    ensures_pure]
  intro _ _ _ _ _ a ha _ _ _
  refine Ensures.mono (StakeV2.migrateWeight_contains _ _) fun r hmigrated => ?_
  refine Ensures.mono (StakeV2.stakeNft_contains _ _) fun r' hstaked _ => ?_
  exact h.write ha (fun _ hcontains => (hstaked.trans hmigrated).trans hcontains) rfl

theorem processUnstakeNft_held (h : s.StakeHeld k x) (id : ℕ) (signerInfo assetInfo collectionInfo
    stakeInfo treasuryInfo mplCoreInfo systemProgram : AccountInfo) :
    Ensures (processUnstakeNft id signerInfo assetInfo collectionInfo stakeInfo treasuryInfo
      mplCoreInfo systemProgram s) (·.StakeHeld k x) := by
  simp only [processUnstakeNft, transferAsset, ensures_bind, ensures_require, ensures_fromOption,
    ensures_pure]
  intro _ _ _ _ _ a ha _ _ _
  refine Ensures.mono (StakeV2.migrateWeight_contains _ _) fun r hmigrated => ?_
  refine Ensures.mono (StakeV2.unstakeNft_contains _ _) fun r' hunstaked _ => ?_
  exact h.write ha (fun _ hcontains => (hunstaked.trans hmigrated).trans hcontains) rfl

/-- The stake of a buyer is a new one. -/
theorem processExecuteOtcTrade_held (h : s.StakeHeld k x) (args : OtcTradeArgs)
    (a : OtcTradeAccounts) :
    Ensures (processExecuteOtcTrade clock args a s) (·.StakeHeld k x) := by
  simp only [processExecuteOtcTrade, ensures_bind, ensures_addU64, ensures_require,
    ensures_fromOption, ensures_pure]
  refine Ensures.mono (checkOtcTrade_spec clock args a s) ?_
  rintro n ⟨hminer, hotc, htokens, hstake⟩
  have hvault : ¬ IsVault a.otcTreasuryTokensInfo.key := by
    rw [hotc]
    exact tokens_not_isVault (by simp) (by simp)
  refine Ensures.mono (bookOtcTrade_quiet args a n s) fun s₁ hs₁ => ?_
  refine Ensures.mono (openMiner_inHand hminer) ?_
  rintro ⟨m, s₂⟩ ⟨hs₂, hauth, hm⟩
  refine Ensures.mono (openOtcUser_quiet a s₂) ?_
  rintro ⟨u, s₃⟩ hs₃
  refine Ensures.mono (openOtcStake_spec clock args a n s₃ hstake hvault) ?_
  rintro ⟨y, s₄⟩ ⟨hs₄, b, hget, hput, -⟩
  have hm₄ : InHand s₄ m := by
    refine hm.of_same ?_ ?_
    · exact hs₄.ledger.ledgers.trans hs₃.ledger.ledgers
    · exact hs₄.game.wagers.trans hs₃.game.wagers
  have hopened : s₃.StakeHeld k x :=
    h.of_stakes ((hs₁.trans hs₂).trans hs₃).stakes.stakesV2
  have hcreated : s₄.StakeHeld k x := hopened.create hget hput
  refine Ensures.mono (payOtcBonus_spec hm₄ hauth hvault htokens) ?_
  rintro ⟨m', s₅⟩ hpaid _ _ _ _ _ _ _
  obtain ⟨-, -, -, hstakes⟩ := hpaid _ rfl
  exact hcreated.of_stakes hstakes

end Handlers

/-! ## Runs -/

section Runs

variable {env : Env} {allowed : GodlInstruction → Prop} {s t : State} {l : Label} {h : History}
  {x : StakeV2}

/-- The stakes that a call merges: the target and the source. -/
def Label.Merges (target source : Pubkey) : Label → Prop
  | .call _ ix accounts _ => ix.Merges accounts target source
  | .world => False

/-- **No instruction takes anything out of a locked stake**: it stays where it is, or is merged
into another one of the same user. -/
theorem processInstruction_held {user : Pubkey} {id : ℕ} (hs : s.VaultsBacked)
    (hheld : s.StakeHeld (.stakeV2Pda user id) x) (env : Env) {clock : Clock}
    (hlocked : x.Locked clock.unixTimestamp) (ix : GodlInstruction) (accounts : List AccountInfo)
    (cpi : Cpi) :
    Ensures (processInstruction env clock ix accounts cpi s) fun s' =>
      ∃ id', s'.StakeHeld (.stakeV2Pda user id') x ∧
        (id' = id ∨ ix.Merges accounts (.stakeV2Pda user id') (.stakeV2Pda user id)) := by
  by_cases hfree : ¬ ix.May .stakes
  · refine Ensures.mono (processInstruction_acts env clock ix accounts cpi s) fun s' hacts => ?_
    have hsame := hacts.untouched fun _ => signers_isKeypair
    exact ⟨id, hheld.of_stakes (hsame.stakes hfree).2, .inl rfl⟩
  cases ix
  case mergeStakeV2 targetId sourceId =>
    simp only [processInstruction, wrongLength]
    split
    · refine Ensures.mono (processMergeStakeV2_held hheld hlocked.started _ _ _ _ _ _ _ _ _ _ _ _)
        ?_
      rintro s' (hstays | ⟨hsource, hmoved⟩)
      · exact ⟨id, hstays, .inl rfl⟩
      · obtain ⟨huser, -⟩ := Pubkey.stakeV2Pda.inj hsource
        rw [← huser] at hmoved hsource
        exact ⟨targetId, hmoved, .inr ⟨_, rfl, by rw [huser], by rw [hsource, huser]⟩⟩
    · exact ensures_error.2 True.intro
  all_goals simp only [GodlInstruction.May, not_true_eq_false, not_false_eq_true] at hfree
  all_goals
    refine Ensures.mono (P := (·.StakeHeld (.stakeV2Pda user id) x)) ?_ fun s' hstays =>
      ⟨id, hstays, .inl rfl⟩
    simp only [processInstruction, wrongLength]
    split
  all_goals with_reducible first
    | exact ensures_error.2 True.intro
    | apply processWithdraw_held hheld
    | apply processClaimYield_held hheld
    | apply processDepositV2_held hheld
    | apply processWithdrawV2_held hheld hlocked
    | apply processClaimYieldV2_held hheld
    | apply processCompoundYieldV2_held hheld
    | apply processSetStakeExecutorV2_held hheld
    | apply processReconcileStakeV2_held hheld hs rfl
    | apply processMigrateStakeWeight_held hheld
    | apply processCloseStakeV2_held hheld hlocked.filled
    | apply processClosePhantomStakeV2_held hheld hlocked.filled
    | apply processTopUpStakeV2_held hheld hlocked.started
    | apply processStakeNft_held hheld
    | apply processUnstakeNft_held hheld
    | apply processExecuteOtcTrade_held hheld

/-- **Nothing leaves a locked stake.**  While the times of the calls lie within its lock, what is
in a stake stays in a stake of the same user, whoever signs: its balance does not fall, its lock
ends no earlier, and its vault has the GODL.  It stays at its address unless it is merged. -/
theorem locked_of_run (hrun : Run (Step env allowed) s h t) (hs : s.VaultsBacked) {user : Pubkey}
    {id : ℕ} {a : StakeV2Account} (hget : s.stakesV2.get (.stakeV2Pda user id) = some a)
    (hfilled : 0 < a.stake.balance)
    (htimes : ∀ y ∈ h, ∀ time, y.label.time = some time →
      a.stake.createdAt ≤ time ∧ time < a.stake.lockEnd) :
    ∃ id' a', t.stakesV2.get (.stakeV2Pda user id') = some a' ∧
      a.stake.balance ≤ a'.stake.balance ∧ a.stake.lockEnd ≤ a'.stake.lockEnd ∧
      a'.stake.balance ≤ t.tokensOf mintAddress (.stakeV2Pda user id') ∧
      ((∀ y ∈ h, ∀ target, ¬ y.label.Merges target (.stakeV2Pda user id)) → id' = id) := by
  have hlast : t.VaultsBacked ∧ ∃ id', t.StakeHeld (.stakeV2Pda user id') a.stake ∧
      ((∀ y ∈ h, ∀ target, ¬ y.label.Merges target (.stakeV2Pda user id)) → id' = id) := by
    refine hrun.keeps (P := fun u => u.VaultsBacked ∧
      ∃ id', u.StakeHeld (.stakeV2Pda user id') a.stake ∧
        ((∀ y ∈ h, ∀ target, ¬ y.label.Merges target (.stakeV2Pda user id)) → id' = id))
      ⟨hs, id, ⟨a, hget, .refl _⟩, fun _ => rfl⟩ ?_
    rintro y hy hstep ⟨hbacked, id', hheld, hstays⟩
    refine ⟨hbacked.step hstep, ?_⟩
    have htime := htimes y hy
    generalize hl : y.label = l at hstep htime
    cases hstep with
    | call _ hok =>
      obtain ⟨hstarted, hruns⟩ := htime _ rfl
      obtain ⟨id'', hheld', hmoved⟩ := (processInstruction_held hbacked hheld env
        ⟨hfilled, hstarted, hruns⟩ _ _ _).elim hok
      refine ⟨id'', hheld', fun hno => ?_⟩
      obtain rfl := hstays hno
      refine hmoved.resolve_right fun hmerges => hno y hy (.stakeV2Pda user id'') ?_
      rw [hl]
      exact hmerges
    | world hworld =>
      refine ⟨id', hheld.of_stakes ?_, hstays⟩
      rw [hworld.accounts]
  obtain ⟨hbacked, id', ⟨a', ha', hcontains⟩, hstays⟩ := hlast
  have hvault := hbacked (.stakeV2Pda user id')
  rw [State.vaulted_of_stakesV2 ha'] at hvault
  exact ⟨id', a', ha', hcontains.balance, hcontains.lockEnd_le, hvault, hstays⟩

end Runs

/-- The owner merges the second stake into the first one. -/
def mergeSecond : Call :=
  .plain 1 5 (.mergeStakeV2 1 2) [.signer 7, .writable mintAddress,
    .writable (.stakeV2Pda (.key 7) 1),
    .writable (.associatedTokenAddress (.stakeV2Pda (.key 7) 1) mintAddress),
    .writable (.stakeV2Pda (.key 7) 2),
    .writable (.associatedTokenAddress (.stakeV2Pda (.key 7) 2) mintAddress),
    .writable .treasuryPda, .program systemProgramId, .program splTokenId,
    .program associatedTokenProgramId]

/-- A locked stake is merged into one whose lock is over, which is locked from then on. -/
theorem locked_of_run_merged : ∃ (t u : State) (h : History) (a a' : StakeV2Account) (id' : ℕ),
    Run (Step .plain anyInstruction) t h u ∧ h.length = 2 ∧
    t.stakesV2.get (.stakeV2Pda (.key 7) 2) = some a ∧ a.stake.balance = 400 ∧
    a.stake.lockEnd = 1 + maxLockDuration ∧
    u.stakesV2.get (.stakeV2Pda (.key 7) id') = some a' ∧ a.stake.balance ≤ a'.stake.balance ∧
    a.stake.lockEnd ≤ a'.stake.lockEnd ∧
    a'.stake.balance ≤ u.tokensOf mintAddress (.stakeV2Pda (.key 7) id') := by
  obtain ⟨h₁, s, t, h, u, hrun, hlabels, -, hlocked, -⟩ := exists_step_of_perform .plain
    anyInstruction unstakedState [] (.depositV2 2 400 maxLockDuration)
    [.depositV2 1 600 0, mergeSecond] (fun _ => true)
    (fun t => (t.stakesV2.get (.stakeV2Pda (.key 7) 2)).any fun a =>
      a.stake.balance = 400 ∧ a.stake.createdAt = 1 ∧ a.stake.lockEnd = 1 + maxLockDuration)
    (fun _ => true) (fun _ _ => trivial) (by decide +kernel) (by decide +kernel)
    (by decide +kernel)
  obtain ⟨hbefore, hdeposit, hafter⟩ := hrun.split
  obtain ⟨a, ha, hany⟩ := (Option.any_eq_true _ _).1 hlocked
  obtain ⟨hbalance, hcreated, hend⟩ := of_decide_eq_true hany
  have hbacked : t.VaultsBacked := (hbefore.step hdeposit).invariant (P := State.VaultsBacked)
    vaultsBacked_unstakedState fun _ _ _ hu hstep => hu.step hstep
  have hfilled : 0 < a.stake.balance := by
    rw [hbalance]
    decide
  have htimes : ∀ y ∈ h, ∀ time, y.label.time = some time →
      a.stake.createdAt ≤ time ∧ time < a.stake.lockEnd := by
    intro y hy time htime
    have hlong : 5 < 1 + maxLockDuration := by decide
    obtain ⟨c, hc, hlabel⟩ := exists_call_of_mem hlabels hy
    rw [← hlabel] at htime
    rw [hcreated, hend]
    simp only [List.mem_cons, List.not_mem_nil, or_false] at hc
    rcases hc with rfl | rfl
    · cases htime
      exact ⟨le_refl _, lt_trans (by decide) hlong⟩
    · cases htime
      exact ⟨by decide, hlong⟩
  have hlength : h.length = 2 := by simpa using congrArg List.length hlabels
  obtain ⟨id', a', ha', hle, hlock, hvault, -⟩ := locked_of_run hafter hbacked ha hfilled htimes
  exact ⟨t, u, h, a, a', id', hafter, hlength, ha, hbalance, hend, ha', hle, hlock, hvault⟩

end Godl
