import Godl.Program.Processor
import Godl.Lib.Run

/-!
# The program among the others

A run interleaves calls of this program, with any instruction, accounts and time, and
steps of the rest of the chain.  Only calls that succeed show: a failed one leaves
nothing behind.

The rest of the chain cannot write to accounts of this program and cannot take lamports
or tokens from an address that the program derived, since only the program signs for
those.  Everything else it may do.

## Main definitions

* `Label` — what a step of a run is.
* `WorldStep` — a step of the rest of the chain.
* `Step env allowed` — one step, by instructions that are allowed.
* `State.genesis` — the state without accounts of the program.
-/

namespace Godl

open Lib

/-- Whether this program alone signs for an address, and alone keeps data there. -/
def Pubkey.isOwn : Pubkey → Bool
  | .key _ => false
  | .associatedTokenAddress _ _ => false
  | _ => true

/-- The rest of the chain takes a step. -/
structure WorldStep (s s' : State) : Prop where
  accounts : s' = { s with
    lamports := s'.lamports
    tokens := s'.tokens
    mintSupply := s'.mintSupply
    mintAuthority := s'.mintAuthority
    assets := s'.assets
    vars := s'.vars
    foreign := s'.foreign }
  lamports : ∀ k, k.isOwn = true → s.lamports k ≤ s'.lamports k
  tokens : ∀ owner mint, owner.isOwn = true →
    s.tokensAt (.associatedTokenAddress owner mint) ≤
      s'.tokensAt (.associatedTokenAddress owner mint)
  data : ∀ k, k.isOwn = true →
    s'.tokens k = s.tokens k ∧ s'.vars k = s.vars k ∧ s'.foreign k = s.foreign k

/-- What a step of a run is: a call of the program, or a step of the rest of the chain. -/
inductive Label
  | call (clock : Clock) (ix : GodlInstruction) (accounts : List AccountInfo) (cpi : Cpi)
  | world

/-- The instruction of a call. -/
def Label.instruction : Label → Option GodlInstruction
  | .call _ ix _ _ => some ix
  | .world => none

/-- The time of a call. -/
def Label.time : Label → Option ℤ
  | .call clock _ _ _ => some clock.unixTimestamp
  | .world => none

/-- One step of a run whose instructions are allowed. -/
inductive Step (env : Env) (allowed : GodlInstruction → Prop) (s : State) :
    Label → State → Prop
  | call {clock : Clock} {ix : GodlInstruction} {accounts : List AccountInfo} {cpi : Cpi}
      {s' : State} (hallowed : allowed ix)
      (hok : processInstruction env clock ix accounts cpi s = .ok s') :
      Step env allowed s (.call clock ix accounts cpi) s'
  | world {s' : State} (hworld : WorldStep s s') : Step env allowed s .world s'

/-- What is on the chain before the program is: other programs, a sysvar and mints. -/
def runtimeAccounts : List Pubkey :=
  [systemProgramId, splTokenId, associatedTokenProgramId, mplCoreProgram, godlApiId, slotHashesId,
    nftBoostCollection, mintAddress, solMint, xautMint]

/-- The state before the program is set up: it has no accounts of its own. -/
def State.genesis : State where
  opened _ := false
  configResized := false
  config := default
  treasury := ⟨0, 0, Fixed.zero, Fixed.zero, 0, 0, 0⟩
  board := default
  solMotherlode := ⟨0⟩
  otcTreasury := ⟨0, 0⟩
  goldVault := ⟨Fixed.zero, 0, 0, 0, 0⟩
  rounds := .empty
  poolRounds := .empty
  miners := .empty
  poolMembers := .empty
  minersExtended := .empty
  automations := .empty
  referrers := .empty
  stakes := .empty
  stakesV2 := .empty
  otcUsers := .empty
  lamports _ := 0
  tokens _ := none
  mintSupply := 0
  mintAuthority := Pubkey.default
  assets _ := none
  vars _ := none
  foreign k := runtimeAccounts.contains k
  events := []

/-- Any instruction is allowed. -/
abbrev anyInstruction : GodlInstruction → Prop := fun _ => True

/-- The history of a run. -/
abbrev History := List (Transition State Label)

end Godl
