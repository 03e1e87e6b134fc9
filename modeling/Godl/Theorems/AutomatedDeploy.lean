import Godl.Proof.AutomatedDeploy
import Godl.Script

/-!
# Automated deployments are all or nothing

A deployment that executes an automation puts its amount on every square that its strategy
selects and takes exactly that and the fee out of its balance, or it bets nothing and closes
the automation.

## Main definitions

* `automated_deploy` — one of the two happens, for both instructions.
-/

namespace Godl

open Lib

/-- **An automated deployment is all or nothing.** -/
theorem automated_deploy {env : Env} {clock : Clock} {ix : GodlInstruction} {args : DeployArgs}
    {accounts : List AccountInfo} {cpi : Cpi} {a : DeployAccounts} {x : AutomationV2}
    {s s' : State} (hargs : ix.deployArgs = some args)
    (haccounts : deployAccounts accounts = some a) (hautomation : s.automationOf a = some x)
    (hok : processInstruction env clock ix accounts cpi s = .ok s') :
    ∃ squares round, deploySquares env args round (some x) = .ok squares ∧
      s.rounds.get (.roundPda s.board.roundId) = some round ∧
      AutomatedDeploy a x squares round s s' := by
  exact ((deployCall_automated hargs haccounts hautomation).elim hok).2

/-- Player 7 has the key pair 8 bet 1000 lamports on the squares 0 and 3, for a fee of 5. -/
def automateCall (deposit : ℕ) : Call :=
  .plain 1 1 (.automate ⟨1000, deposit, 5, 9, 1, false, true⟩) [.signer 7,
    .writable (.automationV2Pda (.key 7)), .writable (.key 8), .writable (.minerPda (.key 7)),
    .writable (.poolMemberPda (.key 7)), .program systemProgramId]

/-- The accounts of a deployment that the key pair 8 executes for player 7. -/
def executedAccounts : DeployAccounts where
  signerInfo := .signer 8
  authorityInfo := .writable (.key 7)
  automationV2Info := .writable (.automationV2Pda (.key 7))
  boardInfo := .writable .boardPda
  minerInfo := .writable (.minerPda (.key 7))
  roundInfo := .writable (.roundPda 1)
  poolRoundInfo := .writable (.poolRoundPda 1)
  poolMemberInfo := .writable (.poolMemberPda (.key 7))
  configInfo := .writable .configPda
  systemProgram := .program systemProgramId

/-- It executes the automation. -/
def executeCall : Call where
  clock := ⟨10, 0⟩
  ix := .deploy ⟨0, 0, false⟩
  accounts := [.signer 8, .writable (.key 7), .writable (.automationV2Pda (.key 7)),
    .writable .boardPda, .writable (.minerPda (.key 7)), .writable (.roundPda 1),
    .writable (.poolRoundPda 1), .writable (.poolMemberPda (.key 7)),
    .writable .configPda, .program systemProgramId, .writable (.key 6), .program (.key 901)]
  cpi := ⟨some (Var.drawn 25#256), none⟩

/-- The automation is set up with a deposit and executed. -/
def executedBet (deposit : ℕ) : Bool :=
  returns (perform .plain [automateCall deposit] (State.table 1 25#256)) fun s =>
    ((s.automationOf executedAccounts).elim false fun x => x.balance = deposit) &&
      returns (processInstruction .plain executeCall.clock executeCall.ix executeCall.accounts
        executeCall.cpi s) fun s' =>
          (s'.wagers (.minerPda (.key 7))).deployed 3 = if deposit = 5000 then 1000 else 0

/-- An automation with 5000 lamports bets on both squares, one with 2000 on none. -/
theorem automated_deploy_pair :
    (∃ x squares round s s', x.balance = 5000 ∧
      AutomatedDeploy executedAccounts x squares round s s' ∧
      (s'.wagers (.minerPda (.key 7))).deployed 3 = 1000) ∧
    ∃ x squares round s s', x.balance = 2000 ∧
      AutomatedDeploy executedAccounts x squares round s s' ∧
      (s'.wagers (.minerPda (.key 7))).deployed 3 = 0 := by
  have hbets : ∀ deposit, executedBet deposit = true → ∃ x squares round s s',
      x.balance = deposit ∧ AutomatedDeploy executedAccounts x squares round s s' ∧
      (s'.wagers (.minerPda (.key 7))).deployed 3 = if deposit = 5000 then 1000 else 0 := by
    intro deposit hrun
    obtain ⟨s, -, hs⟩ := exists_of_returns hrun
    rw [Bool.and_eq_true] at hs
    obtain ⟨hbalance, hs⟩ := hs
    obtain ⟨s', hok, hbet⟩ := exists_of_returns hs
    cases hx : s.automationOf executedAccounts with
    | none =>
      rw [hx] at hbalance
      cases hbalance
    | some x =>
      rw [hx] at hbalance
      have hargs : executeCall.ix.deployArgs = some ⟨0, 0, false⟩ := rfl
      have haccounts : deployAccounts executeCall.accounts = some executedAccounts := rfl
      obtain ⟨squares, round, -, -, hdeployed⟩ := automated_deploy hargs haccounts hx hok
      exact ⟨x, squares, round, s, s', of_decide_eq_true hbalance, hdeployed,
        of_decide_eq_true hbet⟩
  exact ⟨hbets 5000 (by decide +kernel), hbets 2000 (by decide +kernel)⟩

end Godl
