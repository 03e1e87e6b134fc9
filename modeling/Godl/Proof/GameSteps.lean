import Godl.Proof.Steps

/-!
# Steps of the game

The game is the board, the rounds with their pools, and what miners and pool members
deployed.  Four kinds of instructions play it: deploys, checkpoints, resets and closed
rounds.  Everything else leaves it alone.

## Main definitions

* `GameStep` — what a step does to the game.
* `StepEffect.game` — every step is one of these.
* `WagerStep` — what a step does to the wager of one miner.
* `RoundStep` — what a step does to a round that is over.
-/

namespace Godl

open Lib

/-- The kind of a call. -/
def Label.kind (l : Label) : Option Kind := l.instruction.map GodlInstruction.kind

@[simp] theorem Label.kind_call (clock : Clock) (ix : GodlInstruction)
    (accounts : List AccountInfo) (cpi : Cpi) :
    (Label.call clock ix accounts cpi).kind = some ix.kind := rfl

/-- The slot of a call. -/
def Label.slot : Label → Option ℕ
  | .call clock _ _ _ => some clock.slot
  | .world => none

/-- The kinds that play the game. -/
def Kind.Plays : Kind → Prop
  | .checkpoint _ | .deploy | .reset | .close => True
  | _ => False

/-- What a step does to the game. -/
inductive GameStep (s s' : State) : Label → Prop
  | still {l : Label} (hkind : ∀ kind, l.kind = some kind → ¬ kind.Plays) (same : SameGame s s') :
      GameStep s s' l
  | checkpoint {clock : Clock} {ix : GodlInstruction} {accounts : List AccountInfo} {cpi : Cpi}
      {legacy : Bool} {a : CheckpointAccounts} (hkind : ix.kind = .checkpoint legacy)
      (checkpointed : Checkpointed clock a (legacy = true) s s') :
      GameStep s s' (.call clock ix accounts cpi)
  | deploy {clock : Clock} {ix : GodlInstruction} {accounts : List AccountInfo} {cpi : Cpi}
      (hkind : ix.kind = .deploy) (deployed : Deployed clock s s') :
      GameStep s s' (.call clock ix accounts cpi)
  | reset {clock : Clock} {ix : GodlInstruction} {accounts : List AccountInfo} {cpi : Cpi}
      {variant : ResetVariant} {a : ResetAccounts} {round : Round} {value : Hash}
      {topMiner : Pubkey} (hkind : ix.kind = .reset)
      (reset : Reset clock variant a s s' round value topMiner) :
      GameStep s s' (.call clock ix accounts cpi)
  | close {clock : Clock} {ix : GodlInstruction} {accounts : List AccountInfo} {cpi : Cpi}
      {round : Round} (hkind : ix.kind = .close) (closed : RoundClosed clock s s' round) :
      GameStep s s' (.call clock ix accounts cpi)

section Game

variable {allowed : GodlInstruction → Prop} {s s' : State} {l : Label}

/-- **Every step plays the game or leaves it alone**, but for the one that sets it up. -/
theorem StepEffect.game_of_kind (h : StepEffect allowed s s' l)
    (hkind : l.kind ≠ some .initializeProgram) : GameStep s s' l := by
  cases h with
  | world hidle => exact .still (fun _ hkind => by cases hkind) hidle.game
  | @call clock ix accounts cpi hallowed heffect =>
    -- An instruction of a kind that does not play.
    have hstill : ¬ ix.kind.Plays → SameGame s s' →
        GameStep s s' (.call clock ix accounts cpi) := by
      intro hkind hsame
      refine .still (fun kind hlabel => ?_) hsame
      cases hlabel
      exact hkind
    cases hix : ix.kind
    all_goals rw [hix] at heffect hstill
    case quiet => exact hstill id heffect.game
    case initializeProgram => exact absurd (congrArg some hix) hkind
    case checkpoint legacy =>
      obtain ⟨-, a, hcheckpointed⟩ := heffect
      exact .checkpoint hix hcheckpointed
    case deploy => exact .deploy hix heffect
    case reset =>
      obtain ⟨variant, a, round, value, topMiner, hreset⟩ := heffect
      exact .reset hix hreset
    case close =>
      obtain ⟨round, hclosed⟩ := heffect
      exact .close hix hclosed
    case unrefined =>
      obtain ⟨_, _, htraded, -⟩ := heffect
      exact hstill id htraded.game
    case stakes =>
      obtain ⟨_, hstep⟩ := heffect
      exact hstill id hstep.game
    case bury =>
      obtain ⟨_, hburied, -⟩ := heffect
      exact hstill id hburied.game
    case buryTokens =>
      obtain ⟨_, hburied⟩ := heffect
      exact hstill id hburied.game
    case motherlode =>
      obtain ⟨_, hinjected⟩ := heffect
      exact hstill id hinjected.game
    case rebaseTotalStaked =>
      obtain ⟨_, rfl⟩ := heffect
      exact hstill id ⟨rfl, rfl, rfl, rfl, rfl⟩
    case rebaseTotalUnclaimed =>
      obtain ⟨_, rfl⟩ := heffect
      exact hstill id ⟨rfl, rfl, rfl, rfl, rfl⟩
    case initializeGoldVault => exact hstill id heffect.game
    case distributeGold =>
      obtain ⟨-, _, hdistributed⟩ := heffect
      exact hstill id hdistributed.game
    case claimGold =>
      obtain ⟨_, hclaimed⟩ := heffect
      exact hstill id hclaimed.game

/-- The program is set up once. -/
theorem StepEffect.kind_ne (h : StepEffect allowed s s' l) (hsetup : s.opened .treasury = true) :
    l.kind ≠ some .initializeProgram := by
  cases h with
  | world _ => exact fun hkind => by cases hkind
  | @call clock ix accounts cpi hallowed heffect =>
    intro hkind
    rw [Label.kind_call, Option.some.injEq] at hkind
    rw [hkind] at heffect
    have hclosed : s.opened .treasury = false := heffect
    rw [hsetup] at hclosed
    cases hclosed

/-- **Every step plays the game or leaves it alone**, once the program is set up. -/
theorem StepEffect.game (h : StepEffect allowed s s' l) (hsetup : s.opened .treasury = true) :
    GameStep s s' l := h.game_of_kind (h.kind_ne hsetup)

/-- **The board moves to the next round in a reset, and only then.** -/
theorem GameStep.roundId (h : GameStep s s' l) :
    s'.board.roundId = s.board.roundId + if l.kind = some .reset then 1 else 0 := by
  cases h with
  | still hkind hsame =>
    rw [hsame.board, if_neg fun h => hkind .reset h trivial, Nat.add_zero]
  | checkpoint hkind hcheckpointed =>
    rw [if_neg (by simp [hkind]), Nat.add_zero]
    rcases hcheckpointed with ⟨rfl⟩ | ⟨_, -, -, -, rfl⟩ | ⟨_, _, _, _, _, _, hcredited⟩
    · rfl
    · rfl
    · rw [hcredited.board]
  | deploy hkind hdeployed =>
    obtain ⟨_, _, _, _, _, _, _, _, hwagered, -⟩ := hdeployed
    rw [hwagered.roundId, if_neg (by simp [hkind]), Nat.add_zero]
  | reset hkind hreset =>
    rw [hreset.board, if_pos (by simp [hkind])]
  | close hkind hclosed =>
    rw [hclosed.board, if_neg (by simp [hkind]), Nat.add_zero]

theorem GameStep.roundId_le (h : GameStep s s' l) : s.board.roundId ≤ s'.board.roundId := by
  rw [h.roundId]
  exact Nat.le_add_right _ _

/-! ## Deploy calls -/

/-- The arguments of a deploy. -/
def GodlInstruction.deployArgs : GodlInstruction → Option DeployArgs
  | .deploy args | .deployWithMinerExtended args => some args
  | _ => none

/-- The accounts of a deploy that both layouts share. -/
def deployAccounts : List AccountInfo → Option DeployAccounts
  | a :: b :: c :: d :: e :: f :: g :: h :: i :: j :: _ => some ⟨a, b, c, d, e, f, g, h, i, j⟩
  | _ => none

theorem GodlInstruction.exists_deployArgs {ix : GodlInstruction} (h : ix.kind = .deploy) :
    ∃ args, ix.deployArgs = some args := by
  cases ix <;> first
    | exact ⟨_, rfl⟩
    | cases h

/-- The automation that a deployment would execute. -/
def State.automationOf (s : State) (a : DeployAccounts) : Option AutomationV2 :=
  s.automations.get (.automationV2Pda a.authorityInfo.key)

/-- **A deploy runs the common body**, on the accounts that both layouts share. -/
theorem deployCall_body (env : Env) (clock : Clock) {ix : GodlInstruction} {args : DeployArgs}
    (hargs : ix.deployArgs = some args) (accounts : List AccountInfo) (cpi : Cpi) (s : State)
    {Q : DeployAccounts → State → Prop}
    (hbody : ∀ a gold entropyAccounts, deployAccounts accounts = some a →
      Ensures (deployBody clock env args a gold entropyAccounts cpi s) (Q a)) :
    Ensures (processInstruction env clock ix accounts cpi s) fun s' =>
      ∃ a, deployAccounts accounts = some a ∧ Q a s' := by
  cases ix <;> simp only [GodlInstruction.deployArgs, reduceCtorEq, Option.some.injEq] at hargs
  case deploy =>
    subst hargs
    simp only [processInstruction]
    split
    · simp only [processDeploy, ensures_bind, ensures_require]
      exact fun _ => Ensures.mono (hbody _ _ _ rfl) fun _ hQ => ⟨_, rfl, hQ⟩
    · exact ensures_error.2 trivial
  case deployWithMinerExtended =>
    subst hargs
    simp only [processInstruction]
    split
    · exact Ensures.mono (hbody _ _ _ rfl) fun _ hQ => ⟨_, rfl, hQ⟩
    · exact ensures_error.2 trivial

/-- **What a deploy does, by its arguments and accounts.** -/
theorem deployCall_spec (env : Env) (clock : Clock) {ix : GodlInstruction} {args : DeployArgs}
    (hargs : ix.deployArgs = some args) (accounts : List AccountInfo) (cpi : Cpi) (s : State) :
    Ensures (processInstruction env clock ix accounts cpi s) fun s' =>
      ∃ a round, deployAccounts accounts = some a ∧
        s.rounds.get (.roundPda s.board.roundId) = some round ∧
        DeployedBy clock a.authorityInfo.key (args.betPooled (s.automationOf a))
          (PlacesBet env args round (s.automationOf a)) s s' := by
  refine Ensures.mono (deployCall_body env clock hargs accounts cpi s fun a gold entropy _ =>
    deployBody_spec clock env args a gold entropy cpi s) ?_
  rintro s' ⟨a, haccounts, round, hround, hdeployed⟩
  exact ⟨a, round, haccounts, hround, hdeployed⟩

/-- A step that is a reset. -/
theorem GameStep.exists_reset (h : GameStep s s' l) (hkind : l.kind = some .reset) :
    ∃ clock variant a round value topMiner, Reset clock variant a s s' round value topMiner := by
  cases h with
  | still hstill _ => exact absurd trivial (hstill _ hkind)
  | checkpoint hix _ => simp [hix] at hkind
  | deploy hix _ => simp [hix] at hkind
  | reset _ hreset => exact ⟨_, _, _, _, _, _, hreset⟩
  | close hix _ => simp [hix] at hkind

/-- A step that is a checkpoint. -/
theorem GameStep.exists_checkpointed (h : GameStep s s' l) {legacy : Bool}
    (hkind : l.kind = some (.checkpoint legacy)) :
    ∃ clock a, Checkpointed clock a (legacy = true) s s' := by
  cases h with
  | still hstill _ => exact absurd trivial (hstill _ hkind)
  | checkpoint hix hcheckpointed =>
    cases hix.symm.trans (Option.some.inj hkind)
    exact ⟨_, _, hcheckpointed⟩
  | deploy hix _ => simp [hix] at hkind
  | reset hix _ => simp [hix] at hkind
  | close hix _ => simp [hix] at hkind

/-! ## One wager -/

/-- What a step does to the wager of one miner. -/
inductive WagerStep (s s' : State) (l : Label) (k : Pubkey) : Prop
  | kept (same : s'.wagers k = s.wagers k)
  | settled {legacy : Bool} (hkind : l.kind = some (.checkpoint legacy))
      (pending : (s.wagers k).checkpointId ≠ (s.wagers k).roundId)
      (ended : (s.wagers k).roundId ≠ s.board.roundId ∨
        s.rounds.get (.roundPda s.board.roundId) = none)
      (settled : s'.wagers k = { s.wagers k with checkpointId := (s.wagers k).roundId })
  | bet (hkind : l.kind = some .deploy) (ready : (s.wagers k).Ready s.board.roundId)
      (roundId : (s'.wagers k).roundId = s.board.roundId)
      (checkpointId : (s'.wagers k).checkpointId = (s.wagers k).checkpointId)

/-- A lost round is over, unless the current round has no account. -/
theorem Lost.ended {clock : Clock} {roundId : ℕ} (h : Lost clock s roundId) :
    roundId ≠ s.board.roundId ∨ s.rounds.get (.roundPda s.board.roundId) = none := by
  cases h with
  | closed hnone =>
    by_cases heq : roundId = s.board.roundId
    · rw [heq] at hnone
      exact .inr hnone
    · exact .inl heq
  | expired _ _ hpast => exact .inl hpast

/-- **A wager changes by a checkpoint that settles it, or by a deployment.** -/
theorem GameStep.wager (h : GameStep s s' l) (k : Pubkey) : WagerStep s s' l k := by
  cases h with
  | still _ hsame => exact .kept (congrFun hsame.wagers k)
  | checkpoint hkind hcheckpointed =>
    rcases hcheckpointed with ⟨rfl⟩ | ⟨miner, hget, hpending, hlost, rfl⟩ |
      ⟨miner, round, _, _, _, _, hcredited⟩
    · exact .kept rfl
    · by_cases hk : k = .minerPda miner.authority
      · subst hk
        have hwager := wagers_of_get hget
        refine .settled (congrArg some hkind) ?_ ?_ ?_
        · rw [hwager]
          exact hpending
        · rw [hwager]
          exact hlost.ended
        · rw [forfeit_wagers, Function.update_self, hwager]
          rfl
      · exact .kept (by rw [forfeit_wagers, Function.update_of_ne hk])
    · by_cases hk : k = .minerPda miner.authority
      · subst hk
        have hwager := wagers_of_get hcredited.getMiner
        refine .settled (congrArg some hkind) ?_ (.inl ?_) ?_
        · rw [hwager]
          exact hcredited.pending
        · rw [hwager]
          show miner.roundId ≠ _
          rw [← hcredited.played]
          exact hcredited.past
        · rw [hcredited.wagers, Function.update_self, hwager]
          rfl
      · exact .kept (by rw [hcredited.wagers, Function.update_of_ne hk])
  | deploy hkind hdeployed =>
    obtain ⟨authority, _, _, _, _, wager, _, _, hwagered, -⟩ := hdeployed
    by_cases hk : k = .minerPda authority
    · subst hk
      refine .bet (congrArg some hkind) hwagered.ready ?_ ?_
      · rw [hwagered.wagers, Function.update_self]
        exact hwagered.wagerId
      · rw [hwagered.wagers, Function.update_self]
        exact hwagered.checkpointId
    · exact .kept (by rw [hwagered.wagers, Function.update_of_ne hk])
  | reset _ hreset => exact .kept (by rw [State.wagers, State.wagers, hreset.miners])
  | close _ hclosed => exact .kept (by rw [State.wagers, State.wagers, hclosed.miners])

/-- **A checkpoint leaves a miner alone whose round is settled.** -/
theorem GameStep.settledMiner (h : GameStep s s' l) {legacy : Bool} {k : Pubkey}
    (hlabel : l.kind = some (.checkpoint legacy))
    (hdone : (s.wagers k).checkpointId = (s.wagers k).roundId) :
    s'.miners.get k = s.miners.get k := by
  -- The miner that a checkpoint writes to has something to settle.
  have hother : ∀ miner : Miner, s.miners.get (.minerPda miner.authority) = some miner →
      miner.checkpointId ≠ miner.roundId → k ≠ .minerPda miner.authority := by
    rintro miner hget hpending rfl
    rw [wagers_of_get hget] at hdone
    exact hpending hdone
  cases h with
  | still hkind _ => exact absurd trivial (hkind _ hlabel)
  | checkpoint _ hcheckpointed =>
    rcases hcheckpointed with ⟨rfl⟩ | ⟨miner, hget, hpending, -, rfl⟩ |
      ⟨miner, _, _, _, _, _, hcredited⟩
    · rfl
    · exact Store.get_put_of_ne _ (hother miner hget hpending)
    · obtain ⟨m, hminers, hauth, -⟩ := hcredited.credited
      have hne := hother miner hcredited.getMiner hcredited.pending
      rw [← hauth] at hne
      rw [hminers]
      exact Store.get_put_of_ne _ hne
  | deploy hkind _ => simp [hkind] at hlabel
  | reset hkind _ => simp [hkind] at hlabel
  | close hkind _ => simp [hkind] at hlabel

/-! ## Rounds -/

/-- A round whose outcome is fixed: only its top miner may still be recorded. -/
def Round.Frozen (round round' : Round) : Prop :=
  round' = { round with topMiner := round'.topMiner }

theorem Round.Frozen.refl (round : Round) : round.Frozen round := rfl

theorem Round.Frozen.trans {r r' r'' : Round} (h : r.Frozen r') (h' : r'.Frozen r'') :
    r.Frozen r'' := by
  rw [Round.Frozen] at h h' ⊢
  rw [h', h]

/-- What a step does to a round that is over: it stays, frozen, or is closed. -/
inductive RoundStep (s s' : State) (l : Label) (id : ℕ) : Prop
  | absent (before : s.rounds.get (.roundPda id) = none)
      (after : s'.rounds.get (.roundPda id) = none)
  | kept {round round' : Round} (before : s.rounds.get (.roundPda id) = some round)
      (after : s'.rounds.get (.roundPda id) = some round') (frozen : round.Frozen round')
  | closed {round : Round} (hkind : l.kind = some .close)
      (before : s.rounds.get (.roundPda id) = some round)
      (after : s'.rounds.get (.roundPda id) = none)
      (expired : ∀ slot, l.slot = some slot → round.expiresAt < slot)

theorem RoundStep.of_eq {id : ℕ}
    (h : s'.rounds.get (.roundPda id) = s.rounds.get (.roundPda id)) : RoundStep s s' l id := by
  cases hget : s.rounds.get (.roundPda id) with
  | none => exact .absent hget (h.trans hget)
  | some round => exact .kept hget (h.trans hget) (.refl round)

/-- The round a checkpoint credits from only records its top miner. -/
theorem Credited.frozen {clock : Clock} {a : CheckpointAccounts} {legacy : Prop} {miner : Miner}
    {round round' : Round} {poolMember : Option PoolMember} {sol godl : ℕ}
    (h : Credited clock a legacy s s' miner round round' poolMember sol godl) :
    round.Frozen round' := by
  obtain ⟨top, hround'⟩ := (checkpointRewards_id a round miner poolMember s).elim h.rewards
  dsimp only at hround'
  rw [Round.Frozen, hround']

/-- A checkpoint leaves the current round alone. -/
theorem Checkpointed.current {clock : Clock} {a : CheckpointAccounts} {legacy : Prop}
    (h : Checkpointed clock a legacy s s') : s'.board = s.board ∧
      s'.rounds.get (.roundPda s.board.roundId) = s.rounds.get (.roundPda s.board.roundId) := by
  rcases h with ⟨rfl⟩ | ⟨_, -, -, -, rfl⟩ | ⟨_, round, _, _, _, _, hcredited⟩
  · exact ⟨rfl, rfl⟩
  · exact ⟨rfl, rfl⟩
  · refine ⟨hcredited.board, ?_⟩
    have hpast := hcredited.past
    rw [hcredited.rounds]
    refine Store.get_put_of_ne _ ?_
    rw [hcredited.frozen]
    simpa [Round.pda] using hpast.symm

/-- A checkpoint does not change what anyone deployed, or where. -/
theorem Checkpointed.bets {clock : Clock} {a : CheckpointAccounts} {legacy : Prop}
    (h : Checkpointed clock a legacy s s') (k : Pubkey) :
    (s'.wagers k).roundId = (s.wagers k).roundId ∧
      (s'.wagers k).deployed = (s.wagers k).deployed ∧
      (s'.wagers k).cumulative = (s.wagers k).cumulative := by
  -- Only the checkpoint id of one wager is written.
  have hupdate : ∀ (miner : Miner), s.miners.get (.minerPda miner.authority) = some miner →
      s'.wagers = Function.update s.wagers (.minerPda miner.authority)
        { miner.wager with checkpointId := miner.roundId } →
      (s'.wagers k).roundId = (s.wagers k).roundId ∧
        (s'.wagers k).deployed = (s.wagers k).deployed ∧
        (s'.wagers k).cumulative = (s.wagers k).cumulative := by
    intro miner hget hwagers
    rw [hwagers]
    by_cases hk : k = .minerPda miner.authority
    · subst hk
      rw [Function.update_self, wagers_of_get hget]
      exact ⟨rfl, rfl, rfl⟩
    · rw [Function.update_of_ne hk]
      exact ⟨rfl, rfl, rfl⟩
  rcases h with ⟨rfl⟩ | ⟨miner, hget, -, -, rfl⟩ | ⟨miner, _, _, _, _, _, hcredited⟩
  · exact ⟨rfl, rfl, rfl⟩
  · exact hupdate miner hget (forfeit_wagers miner s)
  · exact hupdate miner hcredited.getMiner hcredited.wagers

/-- Nor what the pool holds. -/
theorem Checkpointed.pool {clock : Clock} {a : CheckpointAccounts} {legacy : Prop}
    (h : Checkpointed clock a legacy s s') :
    s'.poolRounds = s.poolRounds ∧ s'.memberships = s.memberships := by
  rcases h with ⟨rfl⟩ | ⟨miner, hget, -, -, rfl⟩ | ⟨miner, _, _, _, _, _, hcredited⟩
  · exact ⟨rfl, rfl⟩
  · exact ⟨rfl, rfl⟩
  · exact ⟨hcredited.poolRounds, by rw [State.memberships, State.memberships,
      hcredited.poolMembers]⟩

/-- **A round that is over is frozen** until it is closed, and then gone. -/
theorem GameStep.pastRound (h : GameStep s s' l) {id : ℕ} (hid : id < s.board.roundId) :
    RoundStep s s' l id := by
  cases h with
  | still _ hsame => exact .of_eq (by rw [hsame.rounds])
  | checkpoint _ hcheckpointed =>
    rcases hcheckpointed with ⟨rfl⟩ | ⟨_, -, -, -, rfl⟩ | ⟨_, round, round', _, _, _, hcredited⟩
    · exact .of_eq rfl
    · exact .of_eq rfl
    · by_cases heq : id = round.id
      · subst heq
        have hpda : round'.pda = .roundPda round.id := by
          rw [hcredited.frozen]
          rfl
        refine .kept hcredited.getRound ?_ hcredited.frozen
        rw [hcredited.rounds, ← hpda, Store.get_put_self]
      · refine .of_eq ?_
        rw [hcredited.rounds, Store.get_put_of_ne]
        rw [hcredited.frozen]
        simpa [Round.pda] using heq
  | deploy _ hdeployed =>
    obtain ⟨_, round, round', _, _, _, _, _, hwagered, -⟩ := hdeployed
    exact .of_eq (hwagered.getRound_of_ne (ne_of_lt hid))
  | reset _ hreset =>
    refine .of_eq ?_
    rw [hreset.roundsAfter, if_neg (by omega), if_neg (by omega)]
  | @close _ _ _ _ round hkind hclosed =>
    by_cases heq : id = round.id
    · subst heq
      refine .closed (congrArg some hkind) hclosed.getRound ?_ ?_
      · rw [hclosed.rounds, Store.get_erase_self]
      · rintro slot ⟨⟩
        exact hclosed.expired
    · refine .of_eq ?_
      rw [hclosed.rounds, Store.get_erase, if_neg]
      simpa using heq

end Game

end Godl
