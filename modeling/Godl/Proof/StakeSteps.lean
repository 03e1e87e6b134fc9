import Godl.Proof.Steps

/-!
# Steps on the v2 stakes

A call changes the v2 stakes in one of a few ways: those of the instructions on stakes, and
an OTC trade, which opens one.

## Main results

* `Effect.stakesV2` — most kinds of calls leave the v2 stakes alone.
* `processInstruction_stakesV2` — what a call does to the v2 stakes.
-/

namespace Godl

open Lib

section Calls

variable {clock : Clock} {s s' : State}

/-- Most kinds leave the v2 stakes alone. -/
theorem Effect.stakesV2 {kind : Kind} (h : Effect clock s s' kind)
    (hsetup : s.opened .treasury = true) (hstakes : kind ≠ .stakes)
    (hunrefined : kind ≠ .unrefined) : s'.stakesV2 = s.stakesV2 := by
  cases kind
  case quiet => exact h.stakes.stakesV2
  case initializeProgram =>
    have hclosed : s.opened .treasury = false := h
    rw [hsetup] at hclosed
    cases hclosed
  case checkpoint legacy =>
    obtain ⟨-, a, ⟨rfl⟩ | ⟨_, -, -, -, rfl⟩ | ⟨_, _, _, _, _, _, hcredited⟩⟩ := h
    · rfl
    · rfl
    · exact hcredited.stakes.stakesV2
  case deploy =>
    obtain ⟨_, _, _, _, _, _, _, _, hwagered, -⟩ := h
    exact hwagered.stakes.stakesV2
  case reset =>
    obtain ⟨_, _, _, _, _, hreset⟩ := h
    exact hreset.stakesV2
  case close =>
    obtain ⟨_, hclosed⟩ := h
    exact hclosed.stakes.stakesV2
  case unrefined => exact absurd rfl hunrefined
  case stakes => exact absurd rfl hstakes
  case bury =>
    obtain ⟨_, hburied, -⟩ := h
    exact hburied.stakesV2
  case buryTokens =>
    obtain ⟨_, hburied⟩ := h
    exact hburied.stakesV2
  case motherlode =>
    obtain ⟨_, hinjected⟩ := h
    exact hinjected.stakes.stakesV2
  case rebaseTotalStaked =>
    obtain ⟨_, rfl⟩ := h
    rfl
  case rebaseTotalUnclaimed =>
    obtain ⟨_, rfl⟩ := h
    rfl
  case initializeGoldVault => exact h.stakes.stakesV2
  case distributeGold =>
    obtain ⟨-, _, hdistributed⟩ := h
    exact hdistributed.stakes.stakesV2
  case claimGold =>
    obtain ⟨_, hclaimed⟩ := h
    exact hclaimed.stakes.stakesV2

/-- What a call on unrefined GODL does to the v2 stakes: a trade opens one. -/
theorem processInstruction_unrefined {ix : GodlInstruction} (hunrefined : ix.kind = .unrefined)
    (env : Env) (clock : Clock) (accounts : List AccountInfo) (cpi : Cpi) (s : State) :
    Ensures (processInstruction env clock ix accounts cpi s) fun s' =>
      StakesV2Step clock ix.Compounds (ix.Merges accounts) s s' := by
  cases ix
  all_goals first
    | (cases hunrefined; done)
    | simp only [processInstruction]
  case claimGodl =>
    split
    · apply Ensures.mono
      · apply processClaimGodl_spec
      · rintro s' ⟨_, -, -, hsame⟩
        exact .same hsame
    · exact ensures_error.2 trivial
  case injectUnrefinedRewards =>
    split
    · apply Ensures.mono
      · apply processInjectUnrefinedRewards_spec
      · rintro s' ⟨-, -, -, hsame⟩
        exact .same hsame
    · exact ensures_error.2 trivial
  case createMinerExtended =>
    split
    · apply Ensures.mono
      · apply processCreateMinerExtended_spec
      · rintro s' ⟨-, -, hsame⟩
        exact .same hsame
    · exact ensures_error.2 trivial
  case executeOtcTrade =>
    split
    · apply Ensures.mono
      · apply processExecuteOtcTrade_spec
      · rintro s' ⟨-, -, -, hstep⟩
        exact hstep _ _
    · exact ensures_error.2 trivial

/-- **What a call does to the v2 stakes.** -/
theorem processInstruction_stakesV2 {env : Env} {ix : GodlInstruction}
    {accounts : List AccountInfo} {cpi : Cpi} (hsetup : s.opened .treasury = true)
    (hok : processInstruction env clock ix accounts cpi s = .ok s') :
    StakesV2Step clock ix.Compounds (ix.Merges accounts) s s' := by
  by_cases hstakes : ix.kind = .stakes
  · exact (processInstruction_stakes hstakes env clock accounts cpi s s' hok).2
  by_cases hunrefined : ix.kind = .unrefined
  · exact processInstruction_unrefined hunrefined env clock accounts cpi s s' hok
  have heffect := processInstruction_effect env clock ix accounts cpi s s' hok
  exact .same (heffect.stakesV2 hsetup hstakes hunrefined)

end Calls

end Godl
