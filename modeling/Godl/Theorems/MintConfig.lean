import Godl.Proof.Registry
import Godl.Theorems.ResetCallers

/-!
# The config and the mint

How much a round mints is computed from the config, which divides by the denominator of the
motherlode.  The setup writes five there, and nothing keeps the admin from writing zero: the
other setters check their values, this one does not.

## Main definitions

* `mintAmounts_iff` — when the computation goes through.
* `mint_computed` — it does so in every run in which the admin never writes zero.
* `mint_halted` — zero halts every round that has a winner.
-/

namespace Godl

open Lib

section Config

variable {env : Env} {clock : Clock} {ix : GodlInstruction} {accounts : List AccountInfo}
  {cpi : Cpi} {s t u : State} {h : History} {allowed : GodlInstruction → Prop} {l : Label}

/-- **The amounts are computed exactly when the denominator is not zero**, whatever the supply. -/
theorem mintAmounts_iff (hsupply : u.mintSupply < u64Bound) :
    (∃ p, mintAmounts u = .ok p) ↔ u.config.motherlodeDenominator ≠ 0 := by
  have hblock : u.mintSupply + min (maxSupply - u.mintSupply) u.config.godlPerRound <
      u64Bound := by
    have hmax : maxSupply < u64Bound := by decide
    omega
  simp only [mintAmounts, addU64, if_pos hblock, ok_bind]
  by_cases hzero : u.config.motherlodeDenominator = 0
  · simp only [hzero]
    constructor
    · rintro ⟨p, hp⟩
      cases hp
    · exact fun h => absurd rfl h
  · have hboth : min (maxSupply - u.mintSupply) u.config.godlPerRound +
        min (maxSupply - (u.mintSupply + min (maxSupply - u.mintSupply) u.config.godlPerRound))
          (u.config.godlPerRound / u.config.motherlodeDenominator) < u64Bound := by
      have hmax : maxSupply < u64Bound := by decide
      omega
    simp only [require, if_pos hzero, ok_bind, if_pos hboth]
    exact ⟨fun _ => hzero, fun _ => ⟨_, rfl⟩⟩

theorem mintAmounts_zero (hzero : u.config.motherlodeDenominator = 0) (p : ℕ × ℕ) :
    mintAmounts u ≠ .ok p := by
  have hmints : Ensures (mintAmounts u) fun _ => False := by
    simp only [mintAmounts, ensures_bind, ensures_addU64, ensures_require, hzero]
    exact fun _ h => absurd rfl h
  exact fun hok => hmints.elim hok

/-- Zero below the motherlode halts every round with winners, in both variants of the reset. -/
theorem resetWinners_zero (hzero : u.config.motherlodeDenominator = 0) (variant : ResetVariant)
    (a : ResetAccounts) (round : Round) (r : BitVec 64) (ws : Square) (m n : ℕ) (v : State) :
    resetWinners clock env variant a round r ws m n u ≠ .ok v := by
  have hreset : Ensures (resetWinners clock env variant a round r ws m n u) fun _ => False := by
    simp only [resetWinners, ensures_bind]
    refine ensures_of_forall fun _ => ensures_of_forall fun _ => ensures_of_forall fun _ => ?_
    exact fun p hp => absurd hp (mintAmounts_zero hzero p)
  exact fun hok => hreset.elim hok

/-- **An instruction writes zero below the motherlode only if it is told to.** -/
theorem processInstruction_denominator (hix : ix ≠ .setMotherlodeDenominator 0)
    (hs : s.config.motherlodeDenominator ≠ 0)
    (hok : processInstruction env clock ix accounts cpi s = .ok t) :
    t.config.motherlodeDenominator ≠ 0 := by
  have hstep := (processInstruction_registry env clock ix accounts cpi s).elim hok
  show t.registry.config.motherlodeDenominator ≠ 0
  generalize t.registry = r at hstep
  cases hstep with
  | kept => exact hs
  | config c hwrites =>
    show c.motherlodeDenominator ≠ 0
    intro hzero
    have hdenominator := hwrites.denominator
    rw [hzero] at hdenominator
    rcases hdenominator with hwrites | hwrites | hwrites
    · exact hix hwrites
    · exact hs hwrites.symm
    · cases hwrites
  | locked => exact hs
  | named => exact hs

/-- A run in which the admin never writes zero keeps zero out. -/
theorem denominator_of_run (hs : s.config.motherlodeDenominator ≠ 0)
    (hrun : Run (Step env (· ≠ .setMotherlodeDenominator 0)) s h t) :
    t.config.motherlodeDenominator ≠ 0 := by
  refine hrun.invariant (P := fun t => t.config.motherlodeDenominator ≠ 0) hs ?_
  intro t l u ht hstep
  cases hstep with
  | call hix hok => exact processInstruction_denominator hix ht hok
  | world hworld =>
    rw [hworld.accounts]
    exact ht

/-- The setup writes five. -/
theorem initialize_denominator {admin buryAuthority feeCollector : Pubkey} {godlPerRound : ℕ}
    (hok : processInstruction env clock
      (.initializeProgram admin buryAuthority feeCollector godlPerRound) accounts cpi s = .ok t) :
    t.config.motherlodeDenominator = 5 := by
  have hfive : Ensures (processInstruction env clock
      (.initializeProgram admin buryAuthority feeCollector godlPerRound) accounts cpi s) fun t =>
        t.config.motherlodeDenominator = 5 := by
    simp only [processInstruction]
    split
    · simp only [processInitialize, ensures_bind, ensures_require, ensures_pure]
      intro _ _ _ _ _ _ _ _ _ _ _ _ _ _ _ _
      refine ensures_of_forall fun _ => ensures_of_forall fun _ => ?_
      exact ensures_of_forall fun _ => ensures_of_forall fun _ => trivial
    · exact ensures_error.2 trivial
  exact hfive.elim hok

/-- **The mint is computed in every run after the setup in which the admin never writes zero
below the motherlode**, for every round and every supply.  Zero halts every round that has a
winner, whichever reset is called. -/
theorem mint_computed {s₀ : State} {admin buryAuthority feeCollector : Pubkey} {godlPerRound : ℕ}
    (hsetup : processInstruction env clock
      (.initializeProgram admin buryAuthority feeCollector godlPerRound) accounts cpi s₀ = .ok s)
    (hrun : Run (Step env (· ≠ .setMotherlodeDenominator 0)) s h t) :
    (∀ u : State, u.config = t.config → u.mintSupply < u64Bound → ∃ p, mintAmounts u = .ok p) ∧
    ∀ u : State, u.config.motherlodeDenominator = 0 → (∀ p, mintAmounts u ≠ .ok p) ∧
      ∀ (clock : Clock) (variant : ResetVariant) (a : ResetAccounts) (round : Round)
        (r : BitVec 64) (ws : Square) (m n : ℕ) (v : State),
        resetWinners clock env variant a round r ws m n u ≠ .ok v := by
  have ht : t.config.motherlodeDenominator ≠ 0 := by
    refine denominator_of_run ?_ hrun
    rw [initialize_denominator hsetup]
    decide
  refine ⟨fun u hconfig hsupply => ?_, fun u hzero => ⟨mintAmounts_zero hzero, ?_⟩⟩
  · rw [← hconfig] at ht
    exact (mintAmounts_iff hsupply).2 ht
  · exact fun _ _ _ _ _ _ _ _ v => resetWinners_zero hzero _ _ _ _ _ _ _ v

end Config

/-- The deployer before the setup. -/
def unsetState : State := { State.genesis with
  lamports := fun k => if k = deployerAddress then 10 ^ 12 else 0 }

/-- The deployer sets the program up; its admin is the key pair 3. -/
def firstCall : Call := .plain 1 1
  (.initializeProgram (.key 3) (.key 5) (.key 4) oneGodl)
  [deployerInfo, .writable .configPda,
    .writable .treasuryPda, .writable .boardPda, .writable (.roundPda 0),
    .program systemProgramId]

/-- The admin writes below the motherlode. -/
def denominatorCall (n : ℕ) : Call := .plain 2 2 (.setMotherlodeDenominator n)
  [.signer 3, .writable .configPda, .program systemProgramId]

/-- A script after the setup. -/
theorem exists_run_of_setup (allowed : GodlInstruction → Prop) (calls : List Call)
    (P : State → Bool) (hallowed : ∀ c ∈ calls, allowed c.ix)
    (hok : returns (perform .plain (firstCall :: calls) unsetState) P = true) :
    ∃ h s t, processInstruction .plain firstCall.clock firstCall.ix firstCall.accounts
        firstCall.cpi unsetState = .ok s ∧ Run (Step .plain allowed) s h t ∧ P t = true := by
  obtain ⟨t, ht, hP⟩ := exists_of_returns hok
  simp only [perform] at ht
  split at ht
  · next s hs =>
    obtain ⟨h, hrun, -⟩ := run_of_perform .start hallowed ht
    exact ⟨_, s, t, hs, hrun, hP⟩
  · cases ht

/-- **The admin halts the mint**: zero is accepted below the motherlode. -/
theorem mint_halted : ¬ ∀ (env : Env) (clock : Clock) (accounts : List AccountInfo) (cpi : Cpi)
    (admin buryAuthority feeCollector : Pubkey) (godlPerRound : ℕ) (s₀ s t : State) (h : History),
    processInstruction env clock
      (.initializeProgram admin buryAuthority feeCollector godlPerRound) accounts cpi s₀ = .ok s →
    Run (Step env anyInstruction) s h t →
    ∀ u : State, u.config = t.config → u.mintSupply < u64Bound → ∃ p, mintAmounts u = .ok p := by
  intro hclaim
  obtain ⟨h, s, t, hsetup, hrun, ht⟩ := exists_run_of_setup anyInstruction [denominatorCall 0]
    (fun t => t.config.motherlodeDenominator = 0 && t.mintSupply = 0) (fun _ _ => trivial)
    (by decide +kernel)
  rw [Bool.and_eq_true] at ht
  have hsupply : t.mintSupply = 0 := of_decide_eq_true ht.2
  obtain ⟨p, hp⟩ := hclaim _ _ _ _ _ _ _ _ _ _ _ _ hsetup hrun t rfl (by
    rw [hsupply]
    decide)
  exact mintAmounts_zero (of_decide_eq_true ht.1) p hp

/-- A run in which the admin writes ten. -/
theorem mint_computed_ten : ∃ (s t : State) (h : History),
    Run (Step .plain (· ≠ .setMotherlodeDenominator 0)) s h t ∧
      t.config.motherlodeDenominator = 10 ∧ t.mintSupply = 0 ∧ ∃ p, mintAmounts t = .ok p := by
  obtain ⟨h, s, t, hsetup, hrun, ht⟩ := exists_run_of_setup (· ≠ .setMotherlodeDenominator 0)
    [denominatorCall 10] (fun t => t.config.motherlodeDenominator = 10 && t.mintSupply = 0)
    (by simp [denominatorCall, Call.plain]) (by decide +kernel)
  rw [Bool.and_eq_true] at ht
  have hsupply : t.mintSupply = 0 := of_decide_eq_true ht.2
  have hcomputed := (mint_computed hsetup hrun).1 t rfl (by
    rw [hsupply]
    decide)
  exact ⟨s, t, h, hrun, of_decide_eq_true ht.1, hsupply, hcomputed⟩

end Godl
