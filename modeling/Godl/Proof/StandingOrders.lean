import Godl.Proof.Policy
import Godl.Proof.Ops

/-!
# Standing orders

The terms of an automation are set by its user with `Automate`.  Everything else, the calls of
its executor included, changes its balance or closes it.

## Main definitions

* `SameTerms` — an automation that is still there has the same terms.

## Main results

* `Acts.sameTerms` — acts keep the terms, unless the user gives an order.
* `processInstruction_sameTerms` — so does every call but an `Automate` of the user.
-/

namespace Godl

open Lib

/-- The automation of a user keeps its terms as long as it is there, and none is opened. -/
def SameTerms (user : Pubkey) (s s' : State) : Prop :=
  ∀ x', s'.automations.get (.automationV2Pda user) = some x' →
    ∃ x, s.automations.get (.automationV2Pda user) = some x ∧
      x' = { x with balance := x'.balance }

/-- A call in which a user sets up, changes or closes its automation. -/
def GodlInstruction.Orders (ix : GodlInstruction) (accounts : List AccountInfo)
    (user : Pubkey) : Prop :=
  match ix with
  | .automate _ => ∃ info, accounts.head? = some info ∧ info.key = user
  | _ => False

section Terms

variable {user : Pubkey} {s s' s'' : State}

theorem SameTerms.of_eq (h : s'.automations = s.automations) : SameTerms user s s' := by
  intro x' hx'
  rw [h] at hx'
  exact ⟨x', hx', rfl⟩

theorem SameTerms.trans (h : SameTerms user s s') (h' : SameTerms user s' s'') :
    SameTerms user s s'' := by
  intro x'' hx''
  obtain ⟨x', hx', heq'⟩ := h' x'' hx''
  obtain ⟨x, hx, heq⟩ := h x' hx'
  refine ⟨x, hx, ?_⟩
  rw [heq', heq]

variable {signs : Pubkey → Prop} {R : Right → Prop}

/-- **An act keeps the terms**, unless the user gives an order. -/
theorem Act.sameTerms (h : Act signs R s s') (hno : ¬ (R .orders ∧ signs user)) :
    SameTerms user s s' := by
  cases h with
  | transfer _ hok =>
    obtain ⟨tok, rfl, -⟩ := (s.transferTokens_spec _ _ _).elim hok
    exact .of_eq rfl
  | burn _ hok =>
    obtain ⟨tok, rfl, -⟩ := (s.burnTokens_spec _ _).elim hok
    exact .of_eq rfl
  | mint _ hok =>
    obtain ⟨tok, rfl, -⟩ := (s.mintGodl_spec _ _).elim hok
    exact .of_eq rfl
  | automation _ a ha =>
    intro x' hx'
    rw [Store.get_put] at hx'
    split at hx'
    case isFalse => exact ⟨x', hx', rfl⟩
    case isTrue hk =>
      cases hx'
      cases hk
      rcases ha with ha | ⟨old, balance, hold, -, rfl⟩
      · exact absurd ha hno
      · exact ⟨old, hold, rfl⟩
  | closeAutomation =>
    intro x' hx'
    rw [Store.get_erase] at hx'
    split at hx'
    case isTrue => cases hx'
    case isFalse => exact ⟨x', hx', rfl⟩
  | move | openTokens | closeTokens | swap | game | log | books | otcBooks | openSingleton
  | config | miner | minerExtended | poolMember | referrer | stake | stakeV2 | closeStakeV2
  | otcUser | asset | mintAuthority => exact .of_eq rfl

theorem Acts.sameTerms (h : Acts signs R s s') (hno : ¬ (R .orders ∧ signs user)) :
    SameTerms user s s' := by
  induction h with
  | refl => exact .of_eq rfl
  | tail _ hact ih => exact ih.trans (hact.sameTerms hno)

/-- **Only its user changes the terms of an automation.** -/
theorem processInstruction_sameTerms (env : Env) (clock : Clock) {ix : GodlInstruction}
    {accounts : List AccountInfo} (cpi : Cpi) (s : State) (hno : ¬ ix.Orders accounts user) :
    Ensures (processInstruction env clock ix accounts cpi s) (SameTerms user s) := by
  by_cases hmay : ix.May .orders
  · cases ix
    case automate args =>
      simp only [processInstruction, wrongLength]
      split
      · rename_i signerInfo automationV2Info executorInfo minerInfo poolMemberInfo systemProgram
        have hother : user ≠ signerInfo.key := fun h => hno ⟨signerInfo, rfl, h.symm⟩
        -- Whoever else signs, the first account gives the order.
        have hcall : Holds (Acts (· = signerInfo.key) (fun _ => True) s) (processAutomate args
            signerInfo automationV2Info executorInfo minerInfo poolMemberInfo systemProgram s) :=
          processAutomate_acts trivial trivial trivial args _ _ _ _ _ _ s fun _ => rfl
        exact Ensures.mono hcall fun s' hacts => hacts.sameTerms fun h => hother h.2
      · exact ensures_error.2 True.intro
    all_goals exact hmay.elim
  · refine Ensures.mono (processInstruction_acts env clock ix accounts cpi s) fun s' hacts => ?_
    exact hacts.sameTerms fun h => hmay h.1

end Terms

end Godl
