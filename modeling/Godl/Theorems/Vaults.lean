import Godl.Proof.VaultChecks
import Godl.Theorems.Merge

/-!
# The vaults are backed

A stake's vault holds the balance of the stake, a referrer's vault its GODL, and the vault of
the OTC desk its stock, in every run.

## Main results

* `processInstruction_vaults` — every instruction keeps the vaults backed.
* `vaults_backed_of_run` — so does every run, and a reconciliation never lowers the balance of a
  stake at its own address.
* `vault_checks_of_run`, `token_ledgers_backed` — the checks of vaults pass along every run.
-/

namespace Godl

open Lib

variable {env : Env} {allowed : GodlInstruction → Prop} {s s' t : State} {l : Label} {h : History}

/-- **Every instruction keeps the vaults backed.**  Those without a right to write what is booked
for vaults may not spend what is in them either. -/
theorem processInstruction_vaults (hs : s.VaultsBacked) (env : Env) (clock : Clock)
    (ix : GodlInstruction) (accounts : List AccountInfo) (cpi : Cpi) :
    Ensures (processInstruction env clock ix accounts cpi s) State.VaultsBacked := by
  by_cases hfree : ¬ ix.May .stakes ∧ ¬ ix.May .vaults ∧ ¬ ix.May .referrals ∧ ¬ ix.May .otc
  · refine Ensures.mono (processInstruction_acts env clock ix accounts cpi s) fun s' hacts => ?_
    have hsame := hacts.untouched fun _ => signers_isKeypair
    obtain ⟨hstakes, hvaults, hreferrals, hotc⟩ := hfree
    exact (hs.covers.untouched hsame hstakes hvaults hreferrals hotc).backed fun _ _ => le_refl _
  cases ix
  all_goals simp only [GodlInstruction.May, not_true_eq_false, not_false_eq_true, and_self,
    and_true, and_false] at hfree
  all_goals
    simp only [processInstruction, wrongLength]
    split
  all_goals with_reducible first
    | exact ensures_error.2 True.intro
    | apply processClaimSol_vaults hs
    | apply processClaimSolAndFundAutomation_vaults hs
    | apply processClaimGodl_vaults hs
    | apply processInitializeReferrer_vaults hs
    | apply processSetReferrer_vaults hs
    | apply processClaimReferral_vaults hs
    | apply processWithdraw_vaults hs
    | apply processClaimYield_vaults hs
    | apply processDepositV2_vaults hs
    | apply processWithdrawV2_vaults hs
    | apply processClaimYieldV2_vaults hs
    | apply processCompoundYieldV2_vaults hs
    | apply processSetStakeExecutorV2_vaults hs
    | apply processReconcileStakeV2_vaults hs
    | apply processMigrateStakeWeight_vaults hs
    | apply processCloseStakeV2_vaults hs
    | apply processClosePhantomStakeV2_vaults hs
    | apply processTopUpStakeV2_vaults hs
    | apply processMergeStakeV2_vaults hs
    | apply processStakeNft_vaults hs
    | apply processUnstakeNft_vaults hs
    | apply processInitializeOtcTreasury_vaults hs
    | apply processFundGodlOtc_vaults hs
    | apply processExecuteOtcTrade_vaults hs
    | apply processWithdrawSolOtc_vaults hs

/-- A vault belongs to an address of the program. -/
theorem KeepsVault.isOwn {k : Pubkey} (hk : KeepsVault k) : k.isOwn = true := by
  cases k with
  | stakePda | stakeV2Pda | referrerPda | otcTreasuryPda => rfl
  | _ => exact hk.elim

theorem State.VaultsBacked.step (hs : s.VaultsBacked) (hstep : Step env allowed s l s') :
    s'.VaultsBacked := by
  cases hstep with
  | call _ hok => exact (processInstruction_vaults hs env _ _ _ _).elim hok
  | world hworld =>
    have hvaulted : s'.vaulted = s.vaulted := by
      rw [hworld.accounts]
      rfl
    intro k
    rw [hvaulted]
    by_cases hk : KeepsVault k
    · exact (hs k).trans (hworld.tokens k mintAddress hk.isOwn)
    · rw [State.vaulted_of_not_keepsVault hk]
      exact Nat.zero_le _

/-! ## What the checks of the handlers find -/

/-- The instructions that end with a check of a vault. -/
def GodlInstruction.ChecksVault : GodlInstruction → Prop
  | .withdraw _ | .depositV2 .. | .withdrawV2 .. | .executeOtcTrade _ => True
  | _ => False

/-- While the vaults are backed the closing checks never fail. -/
theorem processInstruction_noAssertion (hs : s.VaultsBacked) (env : Env) (clock : Clock)
    {ix : GodlInstruction} (hix : ix.ChecksVault) (accounts : List AccountInfo) (cpi : Cpi) :
    NoAssertion (processInstruction env clock ix accounts cpi s) := by
  have hlength : NoAssertion (wrongLength : Result State) := by
    simp [wrongLength, ProgramError.IsAssertion]
  cases ix
  all_goals try exact hix.elim
  all_goals
    simp only [processInstruction]
    split
  all_goals with_reducible first
    | exact hlength
    | apply processWithdraw_noAssertion hs
    | apply processDepositV2_noAssertion hs
    | apply processWithdrawV2_noAssertion hs
    | apply processExecuteOtcTrade_noAssertion hs

/-- A reconciliation finds nothing to correct in a stake at its own address. -/
theorem processReconcileStakeV2_idle (hs : s.VaultsBacked) (clock : Clock) {signerInfo configInfo
    stakeInfo stakeTokensInfo mintInfo treasuryInfo : AccountInfo} {user : Pubkey} {id : ℕ}
    (hkey : stakeInfo.key = .stakeV2Pda user id) :
    Ensures (processReconcileStakeV2 clock signerInfo configInfo stakeInfo stakeTokensInfo mintInfo
      treasuryInfo s) fun s' => s'.vaulted stakeInfo.key = s.vaulted stakeInfo.key := by
  have hlast : ∀ (a : StakeV2Account) (n : ℕ), s.stakesV2.get stakeInfo.key = some a →
      a.stake.balance ≤ n →
      Ensures (a.stake.withdraw (a.stake.balance - n) clock s.treasury) fun p =>
        State.vaulted { s.putStakeV2 a p.2.1 with treasury := p.2.2 } stakeInfo.key =
          s.vaulted stakeInfo.key := by
    intro a n ha hn
    rw [hkey] at ha ⊢
    refine Ensures.mono (StakeV2.withdraw_grown _ _ _ _) fun p hp => ?_
    obtain ⟨-, hbalance, hpaid⟩ := hp
    rw [State.vaulted_of_stakesV2 ha]
    refine (State.vaulted_of_stakesV2 (s.get_putStakeV2 ha p.2.1)).trans ?_
    show p.2.1.balance = a.stake.balance
    omega
  simp only [processReconcileStakeV2, ensures_bind, ensures_require, ensures_fromOption]
  intro _ _ _ hmint _ a ha _ _ htokens
  have hbacked : a.stake.balance ≤ s.tokensOf mintAddress stakeInfo.key := by
    have hvault := hs stakeInfo.key
    rw [hkey] at ha hvault ⊢
    rwa [State.vaulted_of_stakesV2 ha] at hvault
  rw [State.tokensOf, State.tokensAt, ← htokens] at hbacked
  split
  · rename_i hempty
    rw [(State.noData hempty).tokens] at hbacked
    simpa only [ensures_bind, ensures_pure] using hlast a 0 ha hbacked
  · simp only [ensures_bind, ensures_require, ensures_fromOption, ensures_pure]
    intro _ n hn
    rw [hn] at hbacked
    exact hlast a n ha hbacked

/-! ## Runs -/

/-- **The vaults are backed in every run**: each stake, referrer and the OTC desk has the GODL
that is booked for it in its vault, and a reconciliation never lowers the balance of a stake at
its own address. -/
theorem vaults_backed_of_run (hrun : Run (Step env allowed) s h t) (hs : s.VaultsBacked) :
    t.VaultsBacked ∧ ∀ clock signerInfo configInfo stakeInfo stakeTokensInfo mintInfo treasuryInfo
      user id, stakeInfo.key = .stakeV2Pda user id →
        Ensures (processReconcileStakeV2 clock signerInfo configInfo stakeInfo stakeTokensInfo
          mintInfo treasuryInfo t) fun t' =>
            t'.vaulted stakeInfo.key = t.vaulted stakeInfo.key := by
  have hbacked : t.VaultsBacked :=
    hrun.invariant (P := State.VaultsBacked) hs fun _ _ _ hu hstep => hu.step hstep
  refine ⟨hbacked, fun clock signerInfo configInfo stakeInfo stakeTokensInfo mintInfo treasuryInfo
    user id hkey => processReconcileStakeV2_idle hbacked clock hkey⟩

/-- Nothing is booked for vaults before there are stakes. -/
theorem vaultsBacked_unstakedState : unstakedState.VaultsBacked := by
  intro k
  cases k <;> exact Nat.zero_le _

/-- Two stakes are filled and one of them is emptied in part. -/
theorem vaults_backed_of_run_withdrawn : ∃ h t, Run (Step .plain anyInstruction) unstakedState h t ∧
    h.length = 3 ∧ t.vaulted (.stakeV2Pda (.key 7) 1) = 350 ∧
    t.vaulted (.stakeV2Pda (.key 7) 1) ≤ t.tokensOf mintAddress (.stakeV2Pda (.key 7) 1) := by
  obtain ⟨h, t, hrun, hlabels, hvaulted⟩ := exists_run_of_perform .plain anyInstruction
    unstakedState [.depositV2 1 600 0, .depositV2 2 400 100, .withdrawV2 1 1 250]
    (fun t => decide (t.vaulted (.stakeV2Pda (.key 7) 1) = 350)) (fun _ _ => trivial)
    (by decide +kernel)
  have hlength : h.length = 3 := by simpa using congrArg List.length hlabels
  have hbacked := (vaults_backed_of_run hrun vaultsBacked_unstakedState).1
  exact ⟨h, t, hrun, hlength, of_decide_eq_true hvaulted, hbacked _⟩

/-- **No closing check of a vault ever fails**: in every state of a run that starts with backed
vaults, the instructions that end with such a check do not run into it. -/
theorem vault_checks_of_run (hrun : Run (Step env allowed) s h t) (hs : s.VaultsBacked)
    (clock : Clock) {ix : GodlInstruction} (hix : ix.ChecksVault) (accounts : List AccountInfo)
    (cpi : Cpi) : processInstruction env clock ix accounts cpi t ≠ .error (.panic .assertion) := by
  have hbacked : t.VaultsBacked :=
    hrun.invariant (P := State.VaultsBacked) hs fun _ _ _ hu hstep => hu.step hstep
  exact (processInstruction_noAssertion hbacked env clock hix accounts cpi).ne rfl

/-- A withdrawal after two deposits. -/
theorem vault_checks_of_run_deposited : ∃ h t, Run (Step .plain anyInstruction) unstakedState h t ∧
    h.length = 2 ∧ t.vaulted (.stakeV2Pda (.key 7) 1) = 600 ∧
    processInstruction .plain (Call.withdrawV2 1 1 250).clock (.withdrawV2 1 250)
      (Call.withdrawV2 1 1 250).accounts ⟨none, none⟩ t ≠ .error (.panic .assertion) := by
  obtain ⟨h, t, hrun, hlabels, hvaulted⟩ := exists_run_of_perform .plain anyInstruction
    unstakedState [.depositV2 1 600 0, .depositV2 2 400 100]
    (fun t => decide (t.vaulted (.stakeV2Pda (.key 7) 1) = 600)) (fun _ _ => trivial)
    (by decide +kernel)
  have hlength : h.length = 2 := by simpa using congrArg List.length hlabels
  have hix : GodlInstruction.ChecksVault (.withdrawV2 1 250) := trivial
  exact ⟨h, t, hrun, hlength, of_decide_eq_true hvaulted,
    vault_checks_of_run hrun vaultsBacked_unstakedState _ hix _ _⟩

/-- The checks of vaults pass in a state, whoever calls with whatever accounts: those of the
instructions that assert, those of the instructions that report an error (which report an
assertion here, so that no other check has the same one), and the one that a reconciliation
makes of a stake at its own address. -/
structure State.VaultChecksPass (env : Env) (s : State) : Prop where
  asserted : ∀ (clock : Clock) (ix : GodlInstruction) (accounts : List AccountInfo) (cpi : Cpi),
    ix.ChecksVault → processInstruction env clock ix accounts cpi s ≠ .error (.panic .assertion)
  topUp : ∀ clock id amount signerInfo mintInfo senderInfo stakeInfo stakeTokensInfo treasuryInfo
    systemProgram tokenProgram associatedTokenProgram,
    topUpStakeV2 (.panic .assertion) clock id amount signerInfo mintInfo senderInfo stakeInfo
      stakeTokensInfo treasuryInfo systemProgram tokenProgram associatedTokenProgram s ≠
        .error (.panic .assertion)
  compound : ∀ clock id signerInfo mintInfo stakeInfo stakeTokensInfo treasuryInfo
    treasuryTokensInfo systemProgram tokenProgram associatedTokenProgram,
    compoundYieldV2 (.panic .assertion) clock id signerInfo mintInfo stakeInfo stakeTokensInfo
      treasuryInfo treasuryTokensInfo systemProgram tokenProgram associatedTokenProgram s ≠
        .error (.panic .assertion)
  merge : ∀ clock targetId sourceId signerInfo mintInfo targetStakeInfo targetTokensInfo
    sourceStakeInfo sourceTokensInfo treasuryInfo systemProgram tokenProgram
    associatedTokenProgram,
    mergeStakeV2 (.panic .assertion) clock targetId sourceId signerInfo mintInfo targetStakeInfo
      targetTokensInfo sourceStakeInfo sourceTokensInfo treasuryInfo systemProgram tokenProgram
      associatedTokenProgram s ≠ .error (.panic .assertion)
  reconcile : ∀ clock signerInfo configInfo stakeInfo stakeTokensInfo mintInfo treasuryInfo user id,
    stakeInfo.key = .stakeV2Pda user id → Ensures (processReconcileStakeV2 clock signerInfo
      configInfo stakeInfo stakeTokensInfo mintInfo treasuryInfo s) fun s' =>
        s'.vaulted stakeInfo.key = s.vaulted stakeInfo.key

/-- Backed vaults pass every check. -/
theorem State.VaultsBacked.checks (hs : s.VaultsBacked) (env : Env) : s.VaultChecksPass env where
  asserted clock _ accounts cpi hix :=
    (processInstruction_noAssertion hs env clock hix accounts cpi).ne rfl
  topUp clock id amount signerInfo mintInfo senderInfo stakeInfo stakeTokensInfo treasuryInfo
      systemProgram tokenProgram associatedTokenProgram :=
    (topUpStakeV2_noAssertion hs clock id amount signerInfo mintInfo senderInfo stakeInfo
      stakeTokensInfo treasuryInfo systemProgram tokenProgram associatedTokenProgram).ne rfl
  compound clock id signerInfo mintInfo stakeInfo stakeTokensInfo treasuryInfo treasuryTokensInfo
      systemProgram tokenProgram associatedTokenProgram :=
    (compoundYieldV2_noAssertion hs clock id signerInfo mintInfo stakeInfo stakeTokensInfo
      treasuryInfo treasuryTokensInfo systemProgram tokenProgram associatedTokenProgram).ne rfl
  merge clock targetId sourceId signerInfo mintInfo targetStakeInfo targetTokensInfo
      sourceStakeInfo sourceTokensInfo treasuryInfo systemProgram tokenProgram
      associatedTokenProgram :=
    (mergeStakeV2_noAssertion hs clock targetId sourceId signerInfo mintInfo targetStakeInfo
      targetTokensInfo sourceStakeInfo sourceTokensInfo treasuryInfo systemProgram tokenProgram
      associatedTokenProgram).ne rfl
  reconcile clock _ _ _ _ _ _ _ _ hkey := processReconcileStakeV2_idle hs clock hkey

/-- **The token ledgers are backed.**  In every state of a run that starts with backed vaults,
each v1 stake, each v2 stake at its own address, each referrer and the OTC desk has at least the
GODL in its token account that is booked for it, and every check of this passes. -/
theorem token_ledgers_backed (hrun : Run (Step env allowed) s h t) (hs : s.VaultsBacked) :
    t.VaultsBacked ∧ t.VaultChecksPass env := by
  have hbacked : t.VaultsBacked :=
    hrun.invariant (P := State.VaultsBacked) hs fun _ _ _ hu hstep => hu.step hstep
  exact ⟨hbacked, hbacked.checks env⟩

/-- Two stakes are filled, and their vaults pass the checks of a merge. -/
theorem token_ledgers_backed_filled : ∃ h t, Run (Step .plain anyInstruction) unstakedState h t ∧
    h.length = 2 ∧ t.vaulted (.stakeV2Pda (.key 7) 1) = 600 ∧
    t.vaulted (.stakeV2Pda (.key 7) 1) ≤ t.tokensOf mintAddress (.stakeV2Pda (.key 7) 1) ∧
    mergeStakeV2 (.panic .assertion) ⟨1, 5⟩ 1 2 (.signer 7) (.writable mintAddress)
      (.writable (.stakeV2Pda (.key 7) 1))
      (.writable (.associatedTokenAddress (.stakeV2Pda (.key 7) 1) mintAddress))
      (.writable (.stakeV2Pda (.key 7) 2))
      (.writable (.associatedTokenAddress (.stakeV2Pda (.key 7) 2) mintAddress))
      (.writable .treasuryPda) (.program systemProgramId) (.program splTokenId)
      (.program associatedTokenProgramId) t ≠ .error (.panic .assertion) := by
  obtain ⟨h, t, hrun, hlabels, hvaulted⟩ := exists_run_of_perform .plain anyInstruction
    unstakedState [.depositV2 1 600 0, .depositV2 2 400 100]
    (fun t => decide (t.vaulted (.stakeV2Pda (.key 7) 1) = 600)) (fun _ _ => trivial)
    (by decide +kernel)
  have hlength : h.length = 2 := by simpa using congrArg List.length hlabels
  obtain ⟨hbacked, hpass⟩ := token_ledgers_backed hrun vaultsBacked_unstakedState
  exact ⟨h, t, hrun, hlength, of_decide_eq_true hvaulted, hbacked _,
    hpass.merge _ _ _ _ _ _ _ _ _ _ _ _ _⟩

end Godl
