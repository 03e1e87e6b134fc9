import Godl.Proof.Effect

/-!
# What a step can do

A step of a run is a call with the effect of its kind, or a step of the rest of the
chain, which is idle.

## Main definitions

* `Idle` — the books and their funds are left alone, but for the supply of GODL.
* `worldStep_idle` — the rest of the chain leaves the books and their funds alone.
* `Step.effect` — what a step does.
-/

namespace Godl

open Lib

variable {env : Env} {allowed : GodlInstruction → Prop} {s s' : State} {l : Label}

/-- The rest of the chain takes nothing from a token account of the program. -/
theorem WorldStep.vaults (h : WorldStep s s') :
    Grew IsVault (balances s.tokens) (balances s'.tokens) := by
  rintro k (rfl | rfl)
  · exact h.tokens .treasuryPda mintAddress rfl
  · exact h.tokens .goldVaultPda xautMint rfl

/-- The rest of the chain takes nothing from a round. -/
theorem WorldStep.rounds (h : WorldStep s s') : Grew IsRound s.lamports s'.lamports := by
  rintro k ⟨id, rfl⟩
  exact h.lamports _ rfl

/-- Nothing that the books or their funds are about happened, but the supply of GODL may have
changed. -/
structure Idle (s s' : State) : Prop where
  stakes : SameStakes s s'
  ledger : SameLedger s s'
  gold : SameGold s s'
  game : SameGame s s'
  motherlode : s'.treasury.motherlode = s.treasury.motherlode
  funds : KeepsFunds { s with mintSupply := s'.mintSupply } s' 0

/-- **The rest of the chain is idle.** -/
theorem worldStep_idle (h : WorldStep s s') : Idle s s' := by
  have hvaults := h.vaults
  have hrounds := h.rounds
  rw [h.accounts]
  exact ⟨⟨rfl, rfl, rfl, rfl⟩, ⟨rfl, rfl, rfl, rfl⟩, ⟨rfl, rfl⟩, ⟨rfl, rfl, rfl, rfl, rfl⟩, rfl,
    ⟨fun _ hw => hw, hrounds, hvaults _ (.inl rfl), hvaults _ (.inr rfl), le_refl _⟩⟩

/-- A step is a step of the rest of the chain, which is idle, or a call of an allowed
instruction, with the effect of its kind. -/
inductive StepEffect (allowed : GodlInstruction → Prop) (s s' : State) : Label → Prop
  | world (hidle : Idle s s') : StepEffect allowed s s' .world
  | call {clock : Clock} {ix : GodlInstruction} {accounts : List AccountInfo} {cpi : Cpi}
      (hallowed : allowed ix) (heffect : Effect clock s s' ix.kind) :
      StepEffect allowed s s' (.call clock ix accounts cpi)

theorem Step.effect (h : Step env allowed s l s') : StepEffect allowed s s' l := by
  cases h with
  | call hallowed hok => exact .call hallowed (processInstruction_effect env _ _ _ _ s s' hok)
  | world hworld => exact .world (worldStep_idle hworld)

/-- The instruction of a call may be known to be of a narrower sort. -/
theorem StepEffect.imp {allowed' : GodlInstruction → Prop} (h : StepEffect allowed s s' l)
    (h' : ∀ ix, l.instruction = some ix → allowed ix → allowed' ix) :
    StepEffect allowed' s s' l := by
  cases h with
  | world hidle => exact .world hidle
  | call hallowed heffect => exact .call (h' _ rfl hallowed) heffect

/-- **Singletons stay**, once the program is set up. -/
theorem StepEffect.opened (h : StepEffect allowed s s' l) (hsetup : s.opened .treasury = true)
    {w : Singleton} (hw : s.opened w = true) : s'.opened w = true := by
  cases h with
  | world hidle => exact hidle.funds.opened w hw
  | @call clock ix accounts cpi hallowed heffect =>
    cases hix : ix.kind
    all_goals rw [hix] at heffect
    case quiet => exact heffect.funds.opened w hw
    case initializeProgram =>
      have hclosed : s.opened .treasury = false := heffect
      rw [hsetup] at hclosed
      cases hclosed
    case checkpoint legacy =>
      obtain ⟨-, a, ⟨rfl⟩ | ⟨_, -, -, -, rfl⟩ | ⟨_, _, _, _, _, _, hcredited⟩⟩ := heffect
      · exact hw
      · exact hw
      · rw [hcredited.opened, hw]
    case deploy =>
      obtain ⟨_, _, _, _, _, _, _, _, hwagered, -⟩ := heffect
      exact hwagered.opened w hw
    case reset =>
      obtain ⟨_, _, _, _, _, hreset⟩ := heffect
      rw [hreset.opened, hw]
    case close =>
      obtain ⟨_, hclosed⟩ := heffect
      rw [hclosed.opened, hw]
    case unrefined =>
      obtain ⟨_, _, -, hfunds, -⟩ := heffect
      exact hfunds.opened w hw
    case stakes =>
      obtain ⟨_, hstep⟩ := heffect
      exact hstep.funds.opened w hw
    case bury =>
      obtain ⟨_, hburied, -⟩ := heffect
      exact hburied.opened w hw
    case buryTokens =>
      obtain ⟨_, hburied⟩ := heffect
      exact hburied.opened w hw
    case motherlode =>
      obtain ⟨_, hinjected⟩ := heffect
      exact hinjected.funds.opened w hw
    case rebaseTotalStaked =>
      obtain ⟨_, rfl⟩ := heffect
      exact hw
    case rebaseTotalUnclaimed =>
      obtain ⟨_, rfl⟩ := heffect
      exact hw
    case initializeGoldVault => exact heffect.funds.opened w hw
    case distributeGold =>
      obtain ⟨-, _, hdistributed⟩ := heffect
      exact hdistributed.opened w hw
    case claimGold =>
      obtain ⟨_, hclaimed⟩ := heffect
      exact hclaimed.opened w hw

end Godl
