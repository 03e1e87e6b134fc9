import Godl.Proof.GameSteps
import Godl.Script

/-!
# The accounts of the current round

A deployment needs the round account and the pool round account of the current round, and
a reset needs those of the next round to be absent.  A reset opens both accounts of the
round that it starts; the instruction that sets the program up opens the round account of
round 0 and leaves its pool round account out.

## Main definitions

* `State.RoundReady` — the accounts of the current round exist, those of the next do not.
* `State.RoundsOpened` — what is opened, from the setup on.
* `roundReady_iff` — a state is ready exactly when it is past round 0.
-/

namespace Godl

open Lib

/-- Both accounts of the current round exist, and neither of the next one. -/
structure State.RoundReady (s : State) : Prop where
  round : (s.rounds.get (.roundPda s.board.roundId)).isSome
  poolRound : (s.poolRounds.get (.poolRoundPda s.board.roundId)).isSome
  nextRound : s.rounds.get (.roundPda (s.board.roundId + 1)) = none
  nextPoolRound : s.poolRounds.get (.poolRoundPda (s.board.roundId + 1)) = none

/-- There is no round and no pool round. -/
structure State.NoRounds (s : State) : Prop where
  rounds : ∀ k, s.rounds.get k = none
  poolRounds : ∀ k, s.poolRounds.get k = none

/-- What is opened from the setup on: the current round has its account, and its pool round
account too, but for round 0, whose clock stands still. -/
structure State.RoundsOpened (s : State) : Prop where
  setup : s.opened .treasury = true
  round : (s.rounds.get (.roundPda s.board.roundId)).isSome
  poolRound : 0 < s.board.roundId → (s.poolRounds.get (.poolRoundPda s.board.roundId)).isSome
  firstPool : s.poolRounds.get (.poolRoundPda 0) = none
  ahead : ∀ id, s.board.roundId < id →
    s.rounds.get (.roundPda id) = none ∧ s.poolRounds.get (.poolRoundPda id) = none
  stopped : s.board.roundId = 0 → s.board.endSlot = u64Max

section Steps

variable {env : Env} {allowed : GodlInstruction → Prop} {s s' t : State} {l : Label} {h : History}

/-- Setting up opens the first round, but no pool round. -/
theorem processInitialize_opened (admin buryAuthority feeCollector : Pubkey) (godlPerRound : ℕ)
    (signerInfo configInfo treasuryInfo boardInfo roundInfo systemProgram : AccountInfo)
    (s : State) (hblank : s.NoRounds) :
    Ensures (processInitialize admin buryAuthority feeCollector godlPerRound signerInfo configInfo
      treasuryInfo boardInfo roundInfo systemProgram s) fun s' =>
        s'.RoundsOpened ∧ s'.board.roundId = 0 := by
  simp only [processInitialize, checkFresh, ensures_bind, ensures_require, ensures_pure]
  intro _ _ _ _ _ _ _ _ _ _ _ _ _ _ _ _
  refine Ensures.mono (State.createAccount_spec s _ _ _) ?_
  rintro _ ⟨-, l₁, rfl, -, -⟩
  refine Ensures.mono (State.createAccount_spec _ _ _ _) ?_
  rintro _ ⟨-, l₂, rfl, -, -⟩
  refine Ensures.mono (State.createAccount_spec _ _ _ _) ?_
  rintro _ ⟨-, l₃, rfl, -, -⟩
  refine Ensures.mono (State.createAccount_spec _ _ _ _) ?_
  rintro _ ⟨-, l₄, rfl, -, -⟩
  have hpda : (Round.fresh 0 signerInfo.key).pda = .roundPda 0 := rfl
  refine ⟨⟨?_, ?_, fun hpos => absurd hpos (lt_irrefl 0), hblank.poolRounds _, fun id hid => ?_,
    fun _ => rfl⟩, trivial⟩
  · simp
  · dsimp only
    rw [← hpda, Store.get_put_self]
    rfl
  · refine ⟨?_, hblank.poolRounds _⟩
    dsimp only at hid ⊢
    rw [Store.get_put_of_ne, hblank.rounds]
    rw [hpda]
    simp only [ne_eq, Pubkey.roundPda.injEq]
    omega

/-- Before the setup no round comes into being. -/
theorem State.NoRounds.step (hblank : s.NoRounds) (h : GameStep s s' l) : s'.NoRounds := by
  cases h with
  | still _ hsame => exact ⟨by rw [hsame.rounds]; exact hblank.rounds, by
      rw [hsame.poolRounds]; exact hblank.poolRounds⟩
  | checkpoint _ hcheckpointed =>
    rcases hcheckpointed with ⟨rfl⟩ | ⟨_, -, -, -, rfl⟩ | ⟨_, _, _, _, _, _, hcredited⟩
    · exact hblank
    · exact ⟨hblank.rounds, hblank.poolRounds⟩
    · have hround := hcredited.getRound
      rw [hblank.rounds] at hround
      cases hround
  | deploy _ hdeployed =>
    obtain ⟨_, _, _, _, _, _, _, _, hwagered, -⟩ := hdeployed
    have hround := hwagered.getRound
    rw [hblank.rounds] at hround
    cases hround
  | reset _ hreset =>
    have hround := hreset.getRound
    rw [hblank.rounds] at hround
    cases hround
  | close _ hclosed =>
    have hround := hclosed.getRound
    rw [hblank.rounds] at hround
    cases hround

/-- **What is opened stays so**: a reset opens both accounts of the next round, and only
rounds that are over are closed. -/
theorem State.RoundsOpened.step (hopened : s.RoundsOpened) (h : GameStep s s' l)
    (hsetup : s'.opened .treasury = true) : s'.RoundsOpened := by
  cases h with
  | still _ hsame =>
    obtain ⟨-, hround, hpool, hfirst, hahead, hstopped⟩ := hopened
    exact ⟨hsetup, by rwa [hsame.board, hsame.rounds], by rwa [hsame.board, hsame.poolRounds],
      by rwa [hsame.poolRounds], by rwa [hsame.board, hsame.rounds, hsame.poolRounds],
      by rwa [hsame.board]⟩
  | checkpoint _ hcheckpointed =>
    obtain ⟨hboard, hcurrent⟩ := hcheckpointed.current
    obtain ⟨hpools, -⟩ := hcheckpointed.pool
    obtain ⟨-, hround, hpool, hfirst, hahead, hstopped⟩ := hopened
    refine ⟨hsetup, by rwa [hboard, hcurrent], by rwa [hboard, hpools], by rwa [hpools], ?_,
      by rwa [hboard]⟩
    rw [hboard, hpools]
    intro id hid
    refine ⟨?_, (hahead id hid).2⟩
    rcases hcheckpointed with ⟨rfl⟩ | ⟨_, -, -, -, rfl⟩ | ⟨_, round, round', _, _, _, hcredited⟩
    · exact (hahead id hid).1
    · exact (hahead id hid).1
    · -- The round that is paid out of exists.
      have hne : Pubkey.roundPda id ≠ round'.pda := by
        intro heq
        have hget := hcredited.getRound
        rw [hcredited.frozen] at heq
        rw [← show Pubkey.roundPda id = .roundPda round.id from heq, (hahead id hid).1] at hget
        cases hget
      rw [hcredited.rounds, Store.get_put_of_ne _ hne]
      exact (hahead id hid).1
  | deploy _ hdeployed =>
    obtain ⟨_, round, round', pool, pool', _, _, _, hwagered, -⟩ := hdeployed
    have hid := hwagered.roundId
    refine ⟨hsetup, ?_, fun _ => ?_, ?_, fun id hlt => ?_, fun hzero => ?_⟩
    · rw [hid, hwagered.getRound_after]
      rfl
    · rw [hid, hwagered.getPool_after, if_pos rfl]
      rfl
    · rw [hwagered.getPool_after, hopened.firstPool]
      refine if_neg fun hzero => ?_
      have hpool := hwagered.getPool
      rw [← hzero, hopened.firstPool] at hpool
      cases hpool
    · rw [hid] at hlt
      rw [hwagered.getRound_of_ne (by omega), hwagered.getPool_after, if_neg (by omega)]
      exact hopened.ahead id hlt
    · -- Round 0 has no pool round to deploy into.
      have hpool := hwagered.getPool
      rw [hid] at hzero
      rw [hzero, hopened.firstPool] at hpool
      cases hpool
  | reset _ hreset =>
    have hboard := hreset.board
    refine ⟨hsetup, ?_, fun _ => ?_, ?_, fun id hlt => ?_, fun hzero => ?_⟩
    · rw [hboard, hreset.roundsAfter, if_neg (by simp), if_pos rfl]
      rfl
    · rw [hboard, hreset.poolsAfter, if_pos rfl]
      rfl
    · rw [hreset.poolsAfter, if_neg (by omega)]
      exact hopened.firstPool
    · rw [hboard] at hlt
      dsimp only at hlt
      rw [hreset.roundsAfter, if_neg (by omega), if_neg (by omega), hreset.poolsAfter,
        if_neg (by omega)]
      exact hopened.ahead id (by omega)
    · rw [hboard] at hzero
      exact absurd hzero (Nat.succ_ne_zero _)
  | @close clock _ _ _ round _ hclosed =>
    have hboard := hclosed.board
    have hpast := hclosed.past
    have hround : ∀ id, id ≠ round.id →
        s'.rounds.get (.roundPda id) = s.rounds.get (.roundPda id) := by
      intro id hid
      rw [hclosed.rounds, Store.get_erase, if_neg (by simpa using hid)]
    have hpool : ∀ id, s'.poolRounds.get (.poolRoundPda id) = s.poolRounds.get (.poolRoundPda id) ∨
        (id = round.id ∧ s'.poolRounds.get (.poolRoundPda id) = none) := by
      intro id
      rcases hclosed.poolRounds with heq | heq
      · exact .inl (by rw [heq])
      · rw [heq, Store.get_erase]
        by_cases hid : id = round.id
        · exact .inr ⟨hid, if_pos (by rw [hid])⟩
        · exact .inl (if_neg (by simpa using hid))
    refine ⟨hsetup, ?_, fun hpos => ?_, ?_, fun id hlt => ?_, ?_⟩
    · rw [hboard, hround _ (by omega)]
      exact hopened.round
    · rw [hboard] at hpos ⊢
      rcases hpool s.board.roundId with heq | ⟨heq, -⟩
      · rw [heq]
        exact hopened.poolRound hpos
      · omega
    · rcases hpool 0 with heq | ⟨-, heq⟩
      · rw [heq, hopened.firstPool]
      · exact heq
    · rw [hboard] at hlt
      obtain ⟨hnone, hnone'⟩ := hopened.ahead id hlt
      rw [hround id (by omega), hnone]
      refine ⟨rfl, ?_⟩
      rcases hpool id with heq | ⟨-, heq⟩
      · rw [heq, hnone']
      · exact heq
    · rw [hboard]
      exact hopened.stopped

/-- A state is ready exactly when it is past round 0. -/
theorem State.RoundsOpened.ready_iff (hopened : s.RoundsOpened) :
    s.RoundReady ↔ 0 < s.board.roundId := by
  constructor
  · intro hready
    refine Nat.pos_of_ne_zero fun hzero => ?_
    have hpool := hready.poolRound
    rw [hzero, hopened.firstPool] at hpool
    cases hpool
  · intro hpos
    obtain ⟨hnext, hnext'⟩ := hopened.ahead _ (Nat.lt_succ_self _)
    exact ⟨hopened.round, hopened.poolRound hpos, hnext, hnext'⟩

/-- The first round can only be reset in the last slot. -/
theorem State.RoundsOpened.stuck (hopened : s.RoundsOpened) (h : GameStep s s' l)
    (hslot : ∀ slot, l.slot = some slot → slot < u64Max) (hzero : s.board.roundId = 0) :
    s'.board.roundId = 0 := by
  rw [h.roundId, hzero, Nat.zero_add]
  refine if_neg fun hkind => ?_
  cases h with
  | still hplays _ => exact hplays _ hkind trivial
  | checkpoint hix _ => simp [hix] at hkind
  | deploy hix _ => simp [hix] at hkind
  | @reset clock _ _ _ _ _ _ _ _ _ hreset =>
    have hlate := hreset.late
    have hlt := hslot clock.slot rfl
    rw [hopened.stopped hzero, saturatingAddU64] at hlate
    omega
  | close hix _ => simp [hix] at hkind

/-- The step that sets the program up. -/
theorem Step.setsUp (h : Step env allowed s l s') (hblank : s.NoRounds)
    (hkind : l.kind = some .initializeProgram) : s'.RoundsOpened ∧ s'.board.roundId = 0 := by
  cases h with
  | world _ => cases hkind
  | @call clock ix accounts cpi _ _ hok =>
    rw [Label.kind_call, Option.some.injEq] at hkind
    cases ix <;> simp only [GodlInstruction.kind, reduceCtorEq] at hkind
    simp only [processInstruction] at hok
    split at hok
    · exact (processInitialize_opened _ _ _ _ _ _ _ _ _ _ s hblank).elim hok
    · cases hok

/-- What a run establishes: nothing before the setup, and the accounts from then on. -/
def RoundsTracked (h : History) (t : State) : Prop :=
  (t.NoRounds ∧ ∀ x ∈ h, x.label.kind ≠ some .initializeProgram) ∨
    (t.RoundsOpened ∧
      ((∀ x ∈ h, ∀ slot, x.label.slot = some slot → slot < u64Max) → t.board.roundId = 0))

theorem roundsTracked_of_run (hblank : s.NoRounds) (hrun : Run (Step env allowed) s h t) :
    RoundsTracked h t := by
  refine hrun.induct (.inl ⟨hblank, by simp⟩) fun h t l u htracked hstep => ?_
  have heffect := hstep.effect
  rcases htracked with ⟨hblank, hnone⟩ | ⟨hopened, hstuck⟩
  · by_cases hkind : l.kind = some .initializeProgram
    · obtain ⟨hopened, hzero⟩ := hstep.setsUp hblank hkind
      exact .inr ⟨hopened, fun _ => hzero⟩
    · exact .inl ⟨hblank.step (heffect.game_of_kind hkind), List.forall_mem_cons.2 ⟨hkind, hnone⟩⟩
  · have hgame := heffect.game hopened.setup
    refine .inr ⟨hopened.step hgame (heffect.opened hopened.setup hopened.setup), fun hslots => ?_⟩
    obtain ⟨hslot, hslots⟩ := List.forall_mem_cons.1 hslots
    exact hopened.stuck hgame hslot (hstuck hslots)

end Steps

/-- **The accounts of the current round exist exactly after round 0.**  In every state that
a run from a chain without rounds reaches after the setup, both accounts of the current
round exist and none of the next round does exactly when the board is past round 0; and it
is not, as long as no call is made in the very last slot. -/
theorem roundReady_iff {env : Env} {allowed : GodlInstruction → Prop} {s t : State} {h : History}
    (hblank : s.NoRounds) (hrun : Run (Step env allowed) s h t)
    (hsetup : ∃ x ∈ h, x.label.kind = some .initializeProgram) :
    (t.RoundReady ↔ 0 < t.board.roundId) ∧
      ((∀ x ∈ h, ∀ slot, x.label.slot = some slot → slot < u64Max) → ¬ t.RoundReady) := by
  rcases roundsTracked_of_run hblank hrun with ⟨-, hnone⟩ | ⟨hopened, hstuck⟩
  · obtain ⟨x, hx, hkind⟩ := hsetup
    exact absurd hkind (hnone x hx)
  · refine ⟨hopened.ready_iff, fun hslots hready => ?_⟩
    have hpos := hopened.ready_iff.1 hready
    rw [hstuck hslots] at hpos
    exact absurd hpos (lt_irrefl 0)

/-- Nothing is set up yet, but key pairs have lamports. -/
def State.blank : State :=
  { State.genesis with
    lamports := fun
      | .key _ => 10 ^ 12
      | _ => 0 }

theorem noRounds_blank : State.blank.NoRounds := ⟨fun _ => rfl, fun _ => rfl⟩

/-- The deployer sets the program up. -/
def setupCall : Call :=
  .plain 1 0 (.initializeProgram (.key 3) (.key 5) (.key 4) oneGodl)
    [deployerInfo, .writable .configPda,
      .writable .treasuryPda, .writable .boardPda, .writable (.roundPda 0),
      .program systemProgramId]

/-- After the setup the board shows round 0, whose accounts are not all there. -/
theorem roundReady_iff_setup : ∃ (h : History) (t : State),
    Run (Step .plain anyInstruction) State.blank h t ∧ t.board.roundId = 0 ∧
      (t.RoundReady ↔ 0 < t.board.roundId) ∧ ¬ t.RoundReady := by
  obtain ⟨h, t, hrun, hlabels, hzero⟩ := exists_run_of_perform .plain anyInstruction State.blank
    [setupCall] (fun t => t.board.roundId = 0) (fun _ _ => trivial) (by decide +kernel)
  cases h with
  | nil => cases hlabels
  | cons x h =>
    have hlabel : x.label = setupCall.label := (List.cons.inj hlabels).1
    obtain ⟨hiff, -⟩ := roundReady_iff noRounds_blank hrun
      ⟨x, List.mem_cons_self .., by rw [hlabel]; rfl⟩
    rw [decide_eq_true_eq] at hzero
    refine ⟨_, t, hrun, hzero, hiff, fun hready => ?_⟩
    have hpos := hiff.1 hready
    rw [hzero] at hpos
    exact absurd hpos (lt_irrefl 0)

/-- **The setup forgets the pool round**: right after it, the account is missing. -/
theorem not_roundReady_setup : ¬ ∀ (env : Env) (s t : State) (h : History), s.NoRounds →
    Run (Step env anyInstruction) s h t →
    (∃ x ∈ h, x.label.kind = some .initializeProgram) → t.RoundReady := by
  intro hall
  obtain ⟨h, t, hrun, hlabels, hpool⟩ := exists_run_of_perform .plain anyInstruction State.blank
    [setupCall] (fun t => (t.poolRounds.get (.poolRoundPda t.board.roundId)).isNone)
    (fun _ _ => trivial) (by decide +kernel)
  cases h with
  | nil => cases hlabels
  | cons x h =>
    have hlabel : x.label = setupCall.label := (List.cons.inj hlabels).1
    have hready := hall _ _ _ _ noRounds_blank hrun
      ⟨x, List.mem_cons_self .., by rw [hlabel]; rfl⟩
    have hsome := hready.poolRound
    rw [Option.isNone_iff_eq_none] at hpool
    rw [hpool] at hsome
    cases hsome

end Godl
