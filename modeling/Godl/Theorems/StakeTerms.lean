import Godl.Proof.StakeSteps
import Godl.Theorems.Yield

/-!
# The terms of new capital

What is added to a stake is locked like a new deposit, except what is compounded: a
compounded stake keeps its old lock.

## Main definitions

* `processWithdrawV2_unlocked` — a withdrawal waits for the end of the lock.
* `grown_terms_iff` — whether a stake that grew is on the terms of a new deposit.
-/

namespace Godl

open Lib

section Terms

variable {env : Env} {clock : Clock} {ix : GodlInstruction} {accounts : List AccountInfo}
  {cpi : Cpi} {s t u : State} {h : History} {k : Pubkey} {a' : StakeV2Account}

/-- Multipliers follow the locks along every run. -/
theorem priced_of_run (hsetup : s.opened .treasury = true) (hpriced : s.StakesPriced)
    (hrun : Run (Step env fun _ => True) s h t) :
    t.opened .treasury = true ∧ t.StakesPriced := by
  refine hrun.invariant (P := fun t => t.opened .treasury = true ∧ t.StakesPriced)
    ⟨hsetup, hpriced⟩ ?_
  rintro t l u ⟨hopened, ht⟩ hstep
  refine ⟨hstep.effect.opened hopened hopened, ?_⟩
  cases hstep with
  | call _ hok => exact (processInstruction_stakesV2 hopened hok).priced ht
  | world hworld =>
    rw [hworld.accounts]
    exact ht

/-- An instruction that merges does not compound. -/
theorem GodlInstruction.Compounds.not_merges (hcompounds : ix.Compounds) (j j' : Pubkey) :
    ¬ ix.Merges accounts j j' := by
  cases ix <;> first
    | exact hcompounds.elim
    | exact id

/-- When the lock of a stake is over. -/
def StakeV2.lockEnd (x : StakeV2) : ℤ := min (x.createdAt + max x.lockDuration 0) (2 ^ 63 - 1)

/-- **A withdrawal waits for the end of the lock.** -/
theorem processWithdrawV2_unlocked (clock : Clock) (id amount : ℕ) (signerInfo mintInfo
    recipientInfo stakeInfo stakeTokensInfo treasuryInfo systemProgram tokenProgram
    associatedTokenProgram : AccountInfo) (s : State) :
    Ensures (processWithdrawV2 clock id amount signerInfo mintInfo recipientInfo stakeInfo
      stakeTokensInfo treasuryInfo systemProgram tokenProgram associatedTokenProgram s) fun _ =>
        ∃ a, s.stakesV2.get (.stakeV2Pda signerInfo.key id) = some a ∧
          a.stake.lockEnd ≤ clock.unixTimestamp := by
  simp only [processWithdrawV2, ensures_bind, ensures_require, ensures_fromOption, ensures_pure]
  intro _ _ _ hkey a ha _ _ _ _ _ _ _ _ _
  refine Ensures.mono (StakeV2.migrateWeight_kept _ _) ?_
  rintro ⟨y, t⟩ ⟨hkept, -⟩ hend _
  rw [hkept.createdAt, hkept.lockDuration] at hend
  rw [hkey] at ha
  exact ensures_of_forall fun _ => ensures_of_forall fun _ => ensures_of_forall fun _ =>
    fun _ _ _ _ => ⟨a, ha, hend⟩

/-- **A stake that grew is on the terms of a deposit made now, unless it was compounded and
its lock had not just started**: its lock starts now and its multiplier is what the lock is
worth.  And a withdrawal waits for the end of the lock. -/
theorem grown_terms_iff (hsetup : s.opened .treasury = true) (hpriced : s.StakesPriced)
    (hrun : Run (Step env fun _ => True) s h t)
    (hok : processInstruction env clock ix accounts cpi t = .ok u) :
    (∀ k a', u.stakesV2.get k = some a' → t.stakeBalance k < a'.stake.balance →
      ((a'.stake.createdAt = clock.unixTimestamp ∧
          a'.stake.multiplier = stakeMultiplier a'.stake.lockDuration) ↔
        (ix.Compounds → ∀ a, t.stakesV2.get k = some a →
          a.stake.createdAt = clock.unixTimestamp))) ∧
    (∀ id amount, ix = .withdrawV2 id amount → ∃ signerInfo ∈ accounts.head?, ∃ a,
      t.stakesV2.get (.stakeV2Pda signerInfo.key id) = some a ∧
        a.stake.lockEnd ≤ clock.unixTimestamp) := by
  obtain ⟨hopened, ht⟩ := priced_of_run hsetup hpriced hrun
  refine ⟨fun k a' hget hgrew => ?_, ?_⟩
  · have hstep := processInstruction_stakesV2 hopened hok
    rw [← hstep.grown ht (fun hcompounds => hcompounds.not_merges) hget hgrew]
    exact ⟨fun h => ⟨h.1, h.2⟩, fun h => ⟨h.createdAt, h.multiplier⟩⟩
  · rintro id amount rfl
    simp only [processInstruction] at hok
    split at hok
    · obtain ⟨a, ha, hend⟩ := processWithdrawV2_unlocked _ _ _ _ _ _ _ _ _ _ _ _ t u hok
      exact ⟨_, rfl, a, ha, hend⟩
    · cases hok

end Terms

/-- The owner deposits 1000 GODL with the longest lock. -/
def depositV2Call : Call := .depositV2 1 1000 maxLockDuration

/-- The owner compounds what the stake earned. -/
def compoundV2Call (time : ℤ) : Call := .plain 1 time (.compoundYieldV2 1) [.signer 7,
  .writable mintAddress, .writable (.stakeV2Pda (.key 7) 1),
  .writable (.associatedTokenAddress (.stakeV2Pda (.key 7) 1) mintAddress),
  .writable .treasuryPda, .writable treasuryTokensAddress, .program systemProgramId,
  .program splTokenId, .program associatedTokenProgramId]

/-- A set-up program without stakes, and what an owner has. -/
def unstakedState : State := { stakedState with
  treasury := State.genesis.treasury
  stakes := Store.empty
  lamports := fun k => if k = .key 7 then 1000000000 else 0
  tokens := fun k =>
    if k = .associatedTokenAddress (.key 7) mintAddress then some 1000
    else stakedState.tokens k }

/-- A new deposit is on the terms of its lock. -/
theorem grown_terms_iff_deposit : ∃ (u : State) (a' : StakeV2Account),
    u.stakesV2.get (.stakeV2Pda (.key 7) 1) = some a' ∧ a'.stake.balance = 1000 ∧
      a'.stake.createdAt = 1 ∧ a'.stake.multiplier = stakeMultiplier a'.stake.lockDuration := by
  obtain ⟨u, hu, hbalance⟩ := exists_of_returns
    (x := processInstruction .plain depositV2Call.clock depositV2Call.ix depositV2Call.accounts
      depositV2Call.cpi unstakedState)
    (P := fun u => (u.stakesV2.get (.stakeV2Pda (.key 7) 1)).any fun a => a.stake.balance = 1000)
    (by decide +kernel)
  obtain ⟨a', ha', hbalance⟩ := (Option.any_eq_true _ _).1 hbalance
  have hbalance := of_decide_eq_true hbalance
  have hpriced : unstakedState.StakesPriced := Store.all_empty _
  have hrun : Run (Step .plain fun _ => True) unstakedState [] unstakedState := .start
  have hterms := (grown_terms_iff (by decide +kernel) hpriced hrun hu).1 _ a' ha'
    (by rw [hbalance]; decide +kernel)
  obtain ⟨hcreated, hmultiplier⟩ := hterms.2 fun hcompounds => hcompounds.elim
  exact ⟨u, a', ha', hbalance, hcreated, hmultiplier⟩

/-- The lock of a stake is long over when it is compounded: it grows all the same, and may be
withdrawn at once. -/
theorem compounded_without_lock : ∃ (h : History) (t u : State) (a' : StakeV2Account),
    Run (Step .plain fun _ => True) unstakedState h t ∧
    processInstruction .plain (compoundV2Call 1000000000).clock (.compoundYieldV2 1)
      (compoundV2Call 1000000000).accounts ⟨none, none⟩ t = .ok u ∧
    u.stakesV2.get (.stakeV2Pda (.key 7) 1) = some a' ∧
    t.stakeBalance (.stakeV2Pda (.key 7) 1) < a'.stake.balance ∧
    a'.stake.lockEnd < (compoundV2Call 1000000000).clock.unixTimestamp ∧
    a'.stake.createdAt ≠ (compoundV2Call 1000000000).clock.unixTimestamp := by
  obtain ⟨h, t, hrun, -, hok⟩ := exists_run_of_perform .plain (fun _ => True) unstakedState
    [depositV2Call, buryCall]
    (fun t => t.stakeBalance (.stakeV2Pda (.key 7) 1) = 1000 &&
      returns (processInstruction .plain (compoundV2Call 1000000000).clock (.compoundYieldV2 1)
        (compoundV2Call 1000000000).accounts ⟨none, none⟩ t) fun u =>
          (u.stakesV2.get (.stakeV2Pda (.key 7) 1)).any fun a => 1000 < a.stake.balance ∧
            a.stake.lockEnd < 1000000000 ∧ a.stake.createdAt ≠ 1000000000)
    (fun _ _ => trivial) (by decide +kernel)
  obtain ⟨hbefore, hok⟩ := Bool.and_eq_true_iff.1 hok
  obtain ⟨u, hu, hany⟩ := exists_of_returns hok
  obtain ⟨a', ha', hafter⟩ := (Option.any_eq_true _ _).1 hany
  obtain ⟨hgrew, hend, hcreated⟩ := of_decide_eq_true hafter
  refine ⟨h, t, u, a', hrun, hu, ha', ?_, hend, hcreated⟩
  rw [of_decide_eq_true hbefore]
  exact hgrew

end Godl
