import Godl.Theorems.ResetCallers

/-!
# The supply of GODL

Only resets mint.  What a reset mints is capped twice by what is left below the maximum
supply, first for the reward of the winners and then for the motherlode, and both parts are
booked as they are minted.  A hit of the motherlode moves what was there before to the
round; the new part stays in the treasury.

## Main definitions

* `State.Unpaid` — the current round was not paid anything yet.
* `rewardBooked`, `motherlodeBooked`, `minted` — what a reset books, and what it mints.
* `mint_capped` — the supply stays below the maximum, and what is minted is booked.
-/

namespace Godl

open Lib

/-- The current round, if there is one, has neither a reward nor a motherlode yet. -/
def State.Unpaid (s : State) : Prop :=
  ∀ round, s.rounds.get (.roundPda s.board.roundId) = some round →
    round.topMinerReward = 0 ∧ round.motherlode = 0

/-! ## What a reset mints -/

namespace State

variable {s : State} {round : Round}

/-- The two parts of what is minted fit below the maximum supply. -/
theorem mints_le (hcap : s.mintSupply ≤ maxSupply) :
    s.mintSupply + (s.blockMint + s.motherlodeMint) ≤ maxSupply := by
  rw [motherlodeMint, blockMint]
  omega

/-- **A reset never mints past the maximum supply.** -/
theorem verdict_capped (round : Round) (topMiner : Pubkey) (hcap : s.mintSupply ≤ maxSupply) :
    s.mintSupply + (s.verdict round topMiner).minted ≤ maxSupply := by
  rw [verdict]
  split
  · exact hcap
  · split
    · exact hcap
    · exact mints_le hcap

/-- What a reset mints does not depend on the top miner. -/
theorem verdict_minted (round : Round) (topMiner topMiner' : Pubkey) :
    (s.verdict round topMiner).minted = (s.verdict round topMiner').minted := by
  rw [verdict, verdict]
  split
  · rfl
  · split
    · rfl
    · rfl

/-- **A reset books what it mints**: as the reward of the round, or in the motherlode, of
which a hit moves all but a tenth of what was there before to the round. -/
theorem verdict_booked (round : Round) (topMiner : Pubkey) (hreward : round.topMinerReward = 0)
    (hmotherlode : round.motherlode = 0) :
    s.treasury.motherlode + (s.verdict round topMiner).minted =
        (s.verdict round topMiner).treasury.motherlode +
          (s.verdict round topMiner).round.motherlode +
          (s.verdict round topMiner).round.topMinerReward ∧
      (s.verdict round topMiner).round.topMinerReward ≤ (s.verdict round topMiner).minted ∧
      ((s.verdict round topMiner).round.motherlode = 0 ∨
        (s.verdict round topMiner).round.motherlode =
          s.treasury.motherlode - s.treasury.motherlode / 10) := by
  rw [verdict]
  split
  · simp [refundVerdict, hreward, hmotherlode]
  · split
    · simp [vaultVerdict, hreward, hmotherlode]
    · next r hrng hpos =>
      -- The motherlode is paid out before the new part is added.
      by_cases hhit : Round.didHitMotherlode r = true
      · simp only [winnersVerdict, payMotherlode, if_pos hhit]
        refine ⟨?_, ?_, .inr trivial⟩
        · omega
        · omega
      · simp only [winnersVerdict, payMotherlode, if_neg hhit, hmotherlode]
        refine ⟨?_, ?_, .inl trivial⟩
        · omega
        · omega

end State

/-! ## What a step mints -/

/-- What a reset books as the reward of the round. -/
def rewardBooked (x : Transition State Label) : ℕ :=
  if x.label.kind = some .reset then
    (x.after.rounds.get (.roundPda x.before.board.roundId)).elim 0 (·.topMinerReward)
  else 0

/-- What a reset adds to the motherlode, out of which it may pay the round. -/
def motherlodeBooked (x : Transition State Label) : ℕ :=
  if x.label.kind = some .reset then
    x.after.treasury.motherlode +
      (x.after.rounds.get (.roundPda x.before.board.roundId)).elim 0 (·.motherlode) -
      x.before.treasury.motherlode
  else 0

/-- What a reset mints. -/
def minted (x : Transition State Label) : ℕ :=
  if x.label.kind = some .reset then x.after.mintSupply - x.before.mintSupply else 0

/-- What a reset mints is booked. -/
structure MintBooked (x : Transition State Label) : Prop where
  supply : x.after.mintSupply = x.before.mintSupply + (rewardBooked x + motherlodeBooked x)
  tokens : balances x.after.tokens treasuryTokensAddress =
    balances x.before.tokens treasuryTokensAddress + (rewardBooked x + motherlodeBooked x)
  round : ∃ round, x.after.rounds.get (.roundPda x.before.board.roundId) = some round ∧
    rewardBooked x = round.topMinerReward ∧
    x.before.treasury.motherlode + motherlodeBooked x =
      x.after.treasury.motherlode + round.motherlode ∧
    (round.motherlode = 0 ∨ round.motherlode =
      x.before.treasury.motherlode - x.before.treasury.motherlode / 10)

section Steps

variable {env : Env} {allowed : GodlInstruction → Prop} {s s' t : State} {l : Label} {h : History}

/-- Setting the program up mints nothing and opens a fresh round. -/
theorem initializeCall_spec {ix : GodlInstruction} (hkind : ix.kind = .initializeProgram)
    (env : Env) (clock : Clock) (accounts : List AccountInfo) (cpi : Cpi) (s : State) :
    Ensures (processInstruction env clock ix accounts cpi s) fun s' =>
      s'.mintSupply = s.mintSupply ∧ ∃ rentPayer,
        s'.rounds.get (.roundPda s'.board.roundId) = some (Round.fresh 0 rentPayer) := by
  cases ix <;> simp only [GodlInstruction.kind, reduceCtorEq] at hkind
  simp only [processInstruction]
  split
  · simp only [processInitialize, ensures_bind, ensures_require, ensures_pure]
    intro _ _ _ _ _ _ _ _ _ _ _ _ _ _ _ _
    refine Ensures.mono (State.createAccount_spec _ _ _ _) ?_
    rintro _ ⟨-, l₁, rfl, -⟩
    refine Ensures.mono (State.createAccount_spec _ _ _ _) ?_
    rintro _ ⟨-, l₂, rfl, -⟩
    refine Ensures.mono (State.createAccount_spec _ _ _ _) ?_
    rintro _ ⟨-, l₃, rfl, -⟩
    refine Ensures.mono (State.createAccount_spec _ _ _ _) ?_
    rintro _ ⟨-, l₄, rfl, -⟩
    exact ⟨rfl, _, Store.get_put_self ..⟩
  · exact ensures_error.2 trivial

/-- **Only a reset mints.** -/
theorem StepEffect.supply_le (h : StepEffect allowed s s' l)
    (hinit : l.kind ≠ some .initializeProgram) (hkind : l.kind ≠ some .reset)
    (hworld : l = .world → s'.mintSupply ≤ s.mintSupply) : s'.mintSupply ≤ s.mintSupply := by
  cases h with
  | world _ => exact hworld rfl
  | @call clock ix accounts cpi hallowed heffect =>
    rw [Label.kind_call] at hkind hinit
    cases hix : ix.kind
    all_goals rw [hix] at heffect hkind hinit
    case quiet => exact heffect.funds.supply
    case initializeProgram => exact absurd rfl hinit
    case checkpoint legacy =>
      obtain ⟨-, a, ⟨rfl⟩ | ⟨_, -, -, -, rfl⟩ | ⟨_, _, _, _, _, _, hcredited⟩⟩ := heffect
      · exact le_refl _
      · exact le_refl _
      · exact hcredited.supply.le
    case deploy =>
      obtain ⟨_, _, _, _, _, _, _, _, hwagered, -⟩ := heffect
      exact hwagered.supply
    case reset => exact absurd rfl hkind
    case close =>
      obtain ⟨_, hclosed⟩ := heffect
      exact hclosed.supply.le
    case unrefined =>
      obtain ⟨_, _, -, hfunds, -⟩ := heffect
      exact hfunds.supply
    case stakes =>
      obtain ⟨_, hstep⟩ := heffect
      exact hstep.funds.supply
    case bury =>
      obtain ⟨_, hburied, -⟩ := heffect
      exact hburied.supply
    case buryTokens =>
      obtain ⟨_, hburied⟩ := heffect
      exact hburied.supply
    case motherlode =>
      obtain ⟨_, hinjected⟩ := heffect
      exact hinjected.funds.supply
    case rebaseTotalStaked =>
      obtain ⟨_, rfl⟩ := heffect
      exact le_refl _
    case rebaseTotalUnclaimed =>
      obtain ⟨_, rfl⟩ := heffect
      exact le_refl _
    case initializeGoldVault => exact heffect.funds.supply
    case distributeGold =>
      obtain ⟨-, _, hdistributed⟩ := heffect
      exact hdistributed.supply
    case claimGold =>
      obtain ⟨_, hclaimed⟩ := heffect
      exact hclaimed.supply

/-- The supply after a reset. -/
theorem Reset.supply {clock : Clock} {variant : ResetVariant} {a : ResetAccounts} {round : Round}
    {value : Hash} {topMiner : Pubkey} (h : Reset clock variant a s s' round value topMiner) :
    s'.mintSupply =
      s.mintSupply + (s.verdict { round with slotHash := value } topMiner).minted := by
  obtain ⟨l, hafter⟩ := h.after
  rw [hafter]

/-- A reset of an unpaid round mints what it books. -/
theorem State.Unpaid.booked (h : s.Unpaid) (hstep : StepEffect allowed s s' l)
    (hkind : l.kind = some .reset) : MintBooked ⟨s, l, s'⟩ := by
  obtain ⟨clock, variant, a, round, value, topMiner, hreset⟩ :=
    (hstep.game_of_kind (by simp [hkind])).exists_reset hkind
  obtain ⟨hreward, hmotherlode⟩ := h round hreset.getRound
  have hbooked := s.verdict_booked { round with slotHash := value } topMiner hreward hmotherlode
  have hsupply := hreset.supply
  have htokens := hreset.tokens treasuryTokensAddress
  have htreasury := hreset.treasury
  have hround := hreset.roundsAfter s.board.roundId
  rw [if_pos rfl] at hround htokens
  set v := s.verdict { round with slotHash := value } topMiner
  have hreward' : rewardBooked ⟨s, l, s'⟩ = v.round.topMinerReward := by
    simp only [rewardBooked, if_pos hkind, hround, Option.elim_some]
  have hmotherlode' : motherlodeBooked ⟨s, l, s'⟩ =
      v.treasury.motherlode + v.round.motherlode - s.treasury.motherlode := by
    simp only [motherlodeBooked, if_pos hkind, hround, htreasury, Option.elim_some]
  obtain ⟨hsum, hle, hpaid⟩ := hbooked
  refine ⟨?_, ?_, v.round, hround, hreward', ?_, hpaid⟩
  · dsimp only
    omega
  · dsimp only
    omega
  · dsimp only
    rw [htreasury]
    omega

/-- A step of the game keeps the current round unpaid. -/
theorem State.Unpaid.game (h : s.Unpaid) (hstep : GameStep s s' l) : s'.Unpaid := by
  unfold State.Unpaid at h ⊢
  cases hstep with
  | still _ hsame =>
    rw [hsame.board, hsame.rounds]
    exact h
  | checkpoint _ hcheckpointed =>
    obtain ⟨hboard, hrounds⟩ := hcheckpointed.current
    rw [hboard, hrounds]
    exact h
  | deploy _ hdeployed =>
    obtain ⟨_, round, round', _, _, _, _, _, hwagered, -⟩ := hdeployed
    rw [hwagered.roundId, hwagered.getRound_after]
    rintro _ ⟨⟩
    rw [hwagered.frame]
    exact h round hwagered.getRound
  | reset _ hreset =>
    rw [hreset.board, hreset.roundsAfter, if_neg (by simp), if_pos rfl]
    rintro _ ⟨⟩
    exact ⟨rfl, rfl⟩
  | close _ hclosed =>
    have hpast := hclosed.past
    rw [hclosed.board, hclosed.rounds, Store.get_erase, if_neg]
    · exact h
    · simp only [Pubkey.roundPda.injEq]
      omega

/-- A step keeps the current round unpaid. -/
theorem State.Unpaid.step (h : s.Unpaid) (hstep : Step env allowed s l s') : s'.Unpaid := by
  by_cases hinit : l.kind = some .initializeProgram
  · cases hstep with
    | world _ => cases hinit
    | call _ hok =>
      obtain ⟨-, _, hfresh⟩ :=
        (initializeCall_spec (Option.some.inj hinit) env _ _ _ s).elim hok
      intro round hround
      rw [hfresh] at hround
      cases hround
      exact ⟨rfl, rfl⟩
  · exact h.game (hstep.effect.game_of_kind hinit)

/-- Every state of a run is unpaid. -/
theorem State.Unpaid.run (hunpaid : s.Unpaid) (hrun : Run (Step env allowed) s h t) : t.Unpaid :=
  hrun.invariant hunpaid fun _ _ _ ih hstep => ih.step hstep

/-- **A step keeps the supply within the maximum**: a reset mints no further, and nothing else
mints. -/
theorem Step.supply_le_max (hstep : Step env allowed s l s') (hcap : s.mintSupply ≤ maxSupply)
    (hworld : l = .world → s'.mintSupply ≤ s.mintSupply) :
    s'.mintSupply ≤ maxSupply := by
  by_cases hreset : l.kind = some .reset
  · obtain ⟨_, _, _, _, _, _, hreset⟩ :=
      (hstep.effect.game_of_kind (by simp [hreset])).exists_reset hreset
    rw [hreset.supply]
    exact State.verdict_capped _ _ hcap
  · refine le_trans ?_ hcap
    by_cases hinit : l.kind = some .initializeProgram
    · cases hstep with
      | world _ => exact hworld rfl
      | call _ hok =>
        exact ((initializeCall_spec (Option.some.inj hinit) env _ _ _ s).elim hok).1.le
    · exact hstep.effect.supply_le hinit hreset hworld

/-- A reset that books what it mints mints what it books. -/
theorem MintBooked.minted_eq {x : Transition State Label} (h : MintBooked x)
    (hkind : x.label.kind = some .reset) : minted x = rewardBooked x + motherlodeBooked x := by
  have hsupply := h.supply
  rw [minted, if_pos hkind]
  omega

end Steps

/-- Two resets of a state mint the same, whichever their variants. -/
theorem resets_mint_same {env : Env} {clock₁ clock₂ : Clock} (variant₁ variant₂ : ResetVariant)
    {accounts₁ accounts₂ : List AccountInfo} {cpi₁ cpi₂ : Cpi} {s t₁ t₂ : State}
    (h₁ : processInstruction env clock₁ variant₁.instruction accounts₁ cpi₁ s = .ok t₁)
    (h₂ : processInstruction env clock₂ variant₂.instruction accounts₂ cpi₂ s = .ok t₂) :
    t₁.mintSupply = t₂.mintSupply := by
  obtain ⟨_, round₁, value₁, top₁, -, hreset₁⟩ :=
    (resetCall_spec env clock₁ variant₁ accounts₁ cpi₁ s).elim h₁
  obtain ⟨_, round₂, value₂, top₂, -, hreset₂⟩ :=
    (resetCall_spec env clock₂ variant₂ accounts₂ cpi₂ s).elim h₂
  obtain ⟨rfl, rfl⟩ := hreset₁.same_input hreset₂
  rw [hreset₁.supply, hreset₂.supply, State.verdict_minted _ top₁ top₂]

/-- **The supply stays within the maximum, and what is minted is booked.**  In every run from
a state whose current round is not paid yet, and in which the rest of the chain mints
nothing: if the supply was within the maximum, it stays so; every reset mints what it books
as the reward of its round and in the motherlode; so all that was booked is all that was
minted; and both resets mint the same from the same state. -/
theorem mint_capped {env : Env} {allowed : GodlInstruction → Prop} {s t : State} {h : History}
    (hunpaid : s.Unpaid) (hcap : s.mintSupply ≤ maxSupply) (hrun : Run (Step env allowed) s h t)
    (hworld : ∀ x ∈ h, x.label = .world → x.after.mintSupply ≤ x.before.mintSupply) :
    t.mintSupply ≤ maxSupply ∧
    (∀ x ∈ h, x.label.kind = some .reset → MintBooked x) ∧
    total minted h = total rewardBooked h + total motherlodeBooked h ∧
    ∀ (clock₁ clock₂ : Clock) (accounts₁ accounts₂ : List AccountInfo) (cpi₁ cpi₂ : Cpi)
      (t₁ t₂ : State),
      processInstruction env clock₁ .reset accounts₁ cpi₁ t = .ok t₁ →
      processInstruction env clock₂ .resetPermissionless accounts₂ cpi₂ t = .ok t₂ →
      t₁.mintSupply = t₂.mintSupply := by
  have hbooked : ∀ x ∈ h, x.label.kind = some .reset → MintBooked x := by
    intro x hx hkind
    obtain ⟨_, hbefore, hstep⟩ := hrun.of_mem hx
    exact (hunpaid.run hbefore).booked hstep.effect hkind
  refine ⟨?_, hbooked, ?_,
    fun _ _ _ _ _ _ _ _ h₁ h₂ => resets_mint_same .lenient .permissionless h₁ h₂⟩
  · refine hrun.keeps (P := (·.mintSupply ≤ maxSupply)) hcap fun x hx hstep hbefore => ?_
    exact hstep.supply_le_max hbefore (hworld x hx)
  · refine total_eq_add fun x hx => ?_
    by_cases hkind : x.label.kind = some .reset
    · exact (hbooked x hx hkind).minted_eq hkind
    · simp only [minted, rewardBooked, motherlodeBooked, if_neg hkind]

/-- The last five units of GODL go to the winner of a round. -/
theorem mint_capped_last : ∃ (h : History) (t : State),
    Run (Step .plain anyInstruction)
      { State.table 1 32775#256 with mintSupply := maxSupply - 5 } h t ∧
    t.mintSupply = maxSupply ∧ t.mintSupply ≤ maxSupply ∧
    (∀ x ∈ h, x.label.kind = some .reset → MintBooked x) ∧
    total minted h = total rewardBooked h + total motherlodeBooked h := by
  obtain ⟨h, t, hrun, hlabels, hsupply⟩ := exists_run_of_perform .plain anyInstruction
    { State.table 1 32775#256 with mintSupply := maxSupply - 5 } [pooledBet, namedReset 9]
    (fun t => t.mintSupply = maxSupply) (fun _ _ => trivial) (by decide +kernel)
  have hunpaid : State.Unpaid { State.table 1 32775#256 with mintSupply := maxSupply - 5 } := by
    intro round hround
    have htable : (State.table 1 32775#256).rounds.get (.roundPda 1) = some round := hround
    rw [State.table_round, Option.some.injEq] at htable
    rw [← htable]
    exact ⟨rfl, rfl⟩
  obtain ⟨hcap, hbooked, htotal, -⟩ := mint_capped hunpaid (Nat.sub_le _ _) hrun
    fun x hx hworld => absurd hworld (label_ne_world hlabels x hx)
  exact ⟨h, t, hrun, of_decide_eq_true hsupply, hcap, hbooked, htotal⟩

end Godl
