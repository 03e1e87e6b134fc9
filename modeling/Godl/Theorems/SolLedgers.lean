import Godl.Proof.BackedGame
import Godl.Proof.RoundFunds
import Godl.Script

/-!
# The SOL ledgers are backed

Six kinds of accounts keep a ledger of lamports, and the current round records what was
deployed in it.  Each holds its rent and its ledger, before and after every instruction,
so that the final assertion of a checkpoint never fails.

## Main definitions

* `State.SolBacked` — every ledger is backed.
* `sol_ledgers_backed` — it stays so.
-/

namespace Godl

open Lib

/-- Every account with a ledger of lamports holds its rent and what the ledger records. -/
structure State.SolBacked (s : State) : Prop where
  treasury : s.opened .treasury = true →
    minimumBalance treasurySize + s.treasury.balance ≤ s.lamports .treasuryPda
  solMotherlode : s.opened .solMotherlode = true →
    minimumBalance solMotherlodeSize + s.solMotherlode.amount ≤ s.lamports .solMotherlodePda
  miners : ∀ k m, s.miners.get k = some m →
    minimumBalance minerSize + (m.checkpointFee + m.rewardsSol) ≤ s.lamports k
  referrers : ∀ k r, s.referrers.get k = some r →
    minimumBalance referrerSize + r.rewardsSol ≤ s.lamports k
  automations : ∀ k a, s.automations.get k = some a →
    minimumBalance automationV2Size + a.balance ≤ s.lamports k
  otcTreasury : s.opened .otcTreasury = true →
    minimumBalance otcTreasurySize + s.otcTreasury.solBalance ≤ s.lamports .otcTreasuryPda
  round : ∀ round, s.rounds.get (.roundPda s.board.roundId) = some round →
    minimumBalance roundSize + round.totalDeployed ≤ s.lamports (.roundPda s.board.roundId)

section Backed

variable {s : State}

/-- The accounts one by one, and all of them by what they are due. -/
theorem solBacked_iff : s.SolBacked ↔ s.Backed ∧ s.RoundFunded := by
  constructor
  · intro h
    refine ⟨fun k => ?_, h.round⟩
    cases k with
    | treasuryPda =>
      rw [State.due]
      split
      · next hopen => exact h.treasury hopen
      · exact Nat.zero_le _
    | solMotherlodePda =>
      rw [State.due]
      split
      · next hopen => exact h.solMotherlode hopen
      · exact Nat.zero_le _
    | otcTreasuryPda =>
      rw [State.due]
      split
      · next hopen => exact h.otcTreasury hopen
      · exact Nat.zero_le _
    | minerPda authority =>
      rw [State.due]
      cases hget : s.miners.get (.minerPda authority) with
      | none => simp [Store.view, hget]
      | some m =>
        rw [Store.view_of_get hget, Miner.due]
        have hm := h.miners _ m hget
        omega
    | referrerPda authority =>
      rw [State.due]
      cases hget : s.referrers.get (.referrerPda authority) with
      | none => simp [Store.view, hget]
      | some r =>
        rw [Store.view_of_get hget]
        exact h.referrers _ r hget
    | automationV2Pda authority =>
      rw [State.due]
      cases hget : s.automations.get (.automationV2Pda authority) with
      | none => simp [Store.view, hget]
      | some a =>
        rw [Store.view_of_get hget]
        exact h.automations _ a hget
    | _ => exact Nat.zero_le _
  · rintro ⟨h, hround⟩
    refine ⟨fun hopen => ?_, fun hopen => ?_, fun k m hm => ?_, fun k r hr => ?_, fun k a ha => ?_,
      fun hopen => ?_, hround⟩
    · simpa [State.due, hopen] using h .treasuryPda
    · simpa [State.due, hopen] using h .solMotherlodePda
    · have hdue := h k
      rw [due_miner hm, Miner.due] at hdue
      omega
    · have hdue := h k
      rwa [due_referrer hr] at hdue
    · have hdue := h k
      rwa [due_automation ha] at hdue
    · simpa [State.due, hopen] using h .otcTreasuryPda

/-- The rest of the chain takes nothing from an account of the program. -/
theorem WorldStep.backed {s' : State} (h : WorldStep s s') (hs : s.Backed) : s'.Backed := by
  have hl := h.lamports
  have hown : ∀ k, KeepsLedger k → k.isOwn = true := by
    intro k hk
    cases k <;> first | rfl | cases hk
  intro k
  by_cases hk : KeepsLedger k
  · have hdue : s'.due k = s.due k := by
      rw [h.accounts]
      rfl
    rw [hdue]
    exact (hs k).trans (hl k (hown k hk))
  · rw [State.due_of_not_keepsLedger hk]
    exact Nat.zero_le _

variable {env : Env} {allowed : GodlInstruction → Prop} {s' t : State} {l : Label} {h : History}

/-- **A step keeps every ledger backed.** -/
theorem State.SolBacked.step (hs : s.SolBacked) (hstep : Step env allowed s l s') :
    s'.SolBacked := by
  obtain ⟨hbacked, hfunded⟩ := solBacked_iff.1 hs
  refine solBacked_iff.2 ⟨?_, hfunded.step (fun i hix hkind => ?_) hstep.effect⟩
  · cases hstep with
    | call _ hok => exact (processInstruction_backed hbacked env _ _ _ _).elim hok
    | world hworld => exact hworld.backed hbacked
  · -- The setup funds the first round.
    cases hstep with
    | world => cases hix
    | @call _ ix _ _ _ _ hok =>
      obtain rfl := Option.some.inj hix
      cases ix <;> simp only [GodlInstruction.kind, reduceCtorEq] at hkind
      simp only [processInstruction] at hok
      split at hok
      · exact (processInitialize_funded _ _ _ _ _ _ _ _ _ _ s).elim hok
      · cases hok

end Backed

/-- **The SOL ledgers are backed**, after every instruction and in every run, and the final
assertion of a checkpoint never fails. -/
theorem sol_ledgers_backed (env : Env) {s : State} (hs : s.SolBacked) :
    (∀ clock ix accounts cpi s', processInstruction env clock ix accounts cpi s = .ok s' →
      s'.SolBacked) ∧
    (∀ (allowed : GodlInstruction → Prop) h t, Run (Step env allowed) s h t → t.SolBacked) ∧
    (∀ clock ix accounts cpi, ix = .checkpoint ∨ ix = .checkpointWithMinerExtended →
      processInstruction env clock ix accounts cpi s ≠
        .error (.panic .minerInsufficientFunds)) := by
  refine ⟨fun clock ix accounts cpi s' hok => ?_, fun allowed h t hrun => ?_,
    fun clock ix accounts cpi hix => ?_⟩
  · have hstep : Step env (fun _ => True) s _ s' := .call trivial hok
    exact hs.step hstep
  · exact hrun.invariant (P := State.SolBacked) hs fun _ _ _ hu hstep => hu.step hstep
  · have hbacked := (solBacked_iff.1 hs).1
    have havoids : Avoids ProgramError.IsFundsPanic
        (processInstruction env clock ix accounts cpi s) := by
      rcases hix with rfl | rfl
      all_goals simp only [processInstruction]
      all_goals split
      · simp only [processCheckpoint, avoids_bind, avoids_require]
        exact ⟨fun _ => by simp [ProgramError.IsFundsPanic], ensures_of_forall fun _ =>
          checkpointBody_avoidsFunds hbacked _ _ _⟩
      · simp [wrongLength, ProgramError.IsFundsPanic]
      · exact checkpointBody_avoidsFunds hbacked _ _ _
      · simp [wrongLength, ProgramError.IsFundsPanic]
    exact havoids.ne rfl

/-- A program that is set up, among rich accounts. -/
def State.richTable (value : Hash) : State :=
  { State.waiting 1 (fun _ => 10 ^ 12)
      (fun k => if k = treasuryTokensAddress then some 0 else none) with
    vars := fun k => if k = .key 6 then some (Var.drawn value) else none }

theorem solBacked_richTable (value : Hash) : (State.richTable value).SolBacked := by
  refine ⟨fun _ => ?_, fun _ => ?_, fun k m hm => ?_, fun k r hr => ?_, fun k a ha => ?_,
    fun _ => ?_, fun round hround => ?_⟩
  · show minimumBalance treasurySize + 0 ≤ 10 ^ 12
    decide
  · show minimumBalance solMotherlodeSize + 0 ≤ 10 ^ 12
    decide
  · exact absurd hm (by simp [State.richTable, State.waiting, State.genesis])
  · exact absurd hr (by simp [State.richTable, State.waiting, State.genesis])
  · exact absurd ha (by simp [State.richTable, State.waiting, State.genesis])
  · show minimumBalance otcTreasurySize + 0 ≤ 10 ^ 12
    decide
  · obtain rfl : Round.fresh 1 (.key 3) = round := by
      have hput : (State.richTable value).rounds.get (.roundPda 1) =
          some (Round.fresh 1 (.key 3)) := Store.get_put_self ..
      exact Option.some.inj (hput.symm.trans hround)
    show minimumBalance roundSize + 0 ≤ 10 ^ 12
    decide

/-- Two players play a round, which is reset, paid out and closed: the winner's account
holds what it is due. -/
theorem sol_ledgers_backed_round : ∃ (h : History) (t : State),
    Run (Step .plain anyInstruction) (State.richTable 25#256) h t ∧ t.SolBacked ∧
      ∃ m, t.miners.get (.minerPda (.key 7)) = some m ∧ 0 < m.rewardsSol ∧
        minimumBalance minerSize + (m.checkpointFee + m.rewardsSol) ≤
          t.lamports (.minerPda (.key 7)) := by
  obtain ⟨h, t, hrun, -, hP⟩ := exists_run_of_perform .plain anyInstruction
    (State.richTable 25#256) (openingBet :: roundScript)
    (fun t => (t.miners.get (.minerPda (.key 7))).any fun m : Miner => decide (0 < m.rewardsSol))
    (fun _ _ => trivial) (by decide +kernel)
  obtain ⟨m, hm, hpos⟩ := (Option.any_eq_true _ _).1 hP
  have hbacked := (sol_ledgers_backed .plain (solBacked_richTable 25#256)).2.1 _ h t hrun
  exact ⟨h, t, hrun, hbacked, m, hm, of_decide_eq_true hpos, hbacked.miners _ m hm⟩

end Godl
