import Godl.Theorems.Rounds

/-!
# The clock of a round

The first deployment of a round starts its clock, before the handler knows whether the
deployment places anything.  When it does not, the clock runs in a round without bets.

## Main definitions

* `State.ClockRunsWithBet` — the clock runs only in a round with a bet.
* `OpensWithBet` — a call that finds the clock stopped would place a bet.
* `clock_runs_with_bet` — then the clock runs only in rounds with bets.
-/

namespace Godl

open Lib

/-- The clock runs only in a round with a bet. -/
structure State.ClockRunsWithBet (s : State) : Prop where
  setup : s.opened .treasury = true
  bet : s.board.endSlot ≠ u64Max → ∃ round,
    s.rounds.get (.roundPda s.board.roundId) = some round ∧ 0 < round.totalDeployed

/-- A deploy call that finds the clock stopped places a bet, judged by its arguments, its
accounts and the state it is made in. -/
def OpensWithBet (env : Env) (x : Transition State Label) : Prop :=
  ∀ clock ix accounts cpi args a round, x.label = .call clock ix accounts cpi →
    ix.deployArgs = some args → deployAccounts accounts = some a →
    x.before.rounds.get (.roundPda x.before.board.roundId) = some round →
    x.before.board.endSlot = u64Max → PlacesBet env args round (x.before.automationOf a)

section Clock

variable {env : Env} {allowed : GodlInstruction → Prop} {s s' t : State} {l : Label} {h : History}

/-- What a deployment adds to the current round. -/
theorem DeployedBy.total {clock : Clock} {authority : Pubkey} {isPooled : Bool} {places : Prop}
    (h : DeployedBy clock authority isPooled places s s') {round : Round}
    (hround : s.rounds.get (.roundPda s.board.roundId) = some round) :
    ∃ round', s'.rounds.get (.roundPda s'.board.roundId) = some round' ∧
      round.totalDeployed ≤ round'.totalDeployed ∧
      (round.totalDeployed < round'.totalDeployed ↔ places) := by
  obtain ⟨round₁, round', _, _, wager, _, hwagered, -, hplaces⟩ := h
  have hget := hwagered.getRound
  rw [hround] at hget
  cases hget
  have htotal := hwagered.total
  refine ⟨round', ?_, by omega, ?_⟩
  · rw [hwagered.roundId, hwagered.getRound_after]
  · rw [← hplaces]
    omega

/-- A step keeps the clock from running without a bet, unless it is a deployment that starts
it without placing one. -/
theorem State.ClockRunsWithBet.step (h : s.ClockRunsWithBet) (hstep : Step env allowed s l s')
    (hopens : OpensWithBet env ⟨s, l, s'⟩) : s'.ClockRunsWithBet := by
  have hgame := hstep.effect.game h.setup
  refine ⟨hstep.effect.opened h.setup h.setup, ?_⟩
  cases hgame with
  | still _ hsame =>
    rw [hsame.board, hsame.rounds]
    exact h.bet
  | checkpoint _ hcheckpointed =>
    obtain ⟨hboard, hrounds⟩ := hcheckpointed.current
    rw [hboard, hrounds]
    exact h.bet
  | @deploy clock ix accounts cpi hkind _ =>
    intro _
    obtain ⟨args, hargs⟩ := GodlInstruction.exists_deployArgs hkind
    cases hstep with
    | call _ hok =>
    obtain ⟨a, round, ha, hround, hdeployed⟩ :=
      (deployCall_spec env clock hargs accounts cpi s).elim hok
    obtain ⟨round', hround', hle, hiff⟩ := hdeployed.total hround
    refine ⟨round', hround', ?_⟩
    by_cases hstopped : s.board.endSlot = u64Max
    · have hplaces := hopens clock ix accounts cpi args a round rfl hargs ha hround hstopped
      have := hiff.2 hplaces
      omega
    · obtain ⟨round₁, hround₁, hpos⟩ := h.bet hstopped
      rw [hround] at hround₁
      cases hround₁
      omega
  | reset _ hreset =>
    rw [hreset.board]
    exact fun hruns => absurd rfl hruns
  | close _ hclosed =>
    have hpast := hclosed.past
    rw [hclosed.board, hclosed.rounds, Store.get_erase, if_neg]
    · exact h.bet
    · simp only [Pubkey.roundPda.injEq]
      omega

/-- **The clock runs only in rounds with a bet**, in every state that a run from a fresh
round reaches, as long as every deployment that finds the clock stopped places a bet. -/
theorem clock_runs_with_bet (hsetup : s.opened .treasury = true)
    (hfresh : s.board.endSlot = u64Max) (hrun : Run (Step env allowed) s h t)
    (hopens : ∀ x ∈ h, OpensWithBet env x) (hruns : t.board.endSlot ≠ u64Max) :
    ∃ round, t.rounds.get (.roundPda t.board.roundId) = some round ∧
      0 < round.totalDeployed := by
  have hinv := hrun.induct
    (P := fun h t => (∀ x ∈ h, OpensWithBet env x) → t.ClockRunsWithBet)
    (fun _ => ⟨hsetup, fun hruns => absurd hfresh hruns⟩) fun h t l u ih hstep hall =>
      (ih fun x hx => hall x (List.mem_cons_of_mem _ hx)).step hstep
        (hall _ (List.mem_cons_self ..))
  exact (hinv hopens).bet hruns

end Clock

/-- The bet of player 7 starts the clock. -/
theorem clock_runs_with_bet_opening : ∃ (h : History) (s : State),
    Run (Step .plain anyInstruction) (State.table 1 25#256) h s ∧ s.board.endSlot ≠ u64Max ∧
    ∃ round, s.rounds.get (.roundPda s.board.roundId) = some round ∧
      0 < round.totalDeployed := by
  obtain ⟨s, hs, hruns⟩ := exists_of_returns
    (x := perform .plain [openingBet] (State.table 1 25#256))
    (P := fun s => s.board.endSlot ≠ u64Max) (by decide +kernel)
  simp only [decide_eq_true_eq] at hruns
  have hcall : processInstruction .plain openingBet.clock openingBet.ix openingBet.accounts
      openingBet.cpi (State.table 1 25#256) = .ok s := by
    simp only [perform] at hs
    split at hs
    · next s' hs' => rw [hs', hs]
    · cases hs
  have hrun : Run (Step .plain anyInstruction) (State.table 1 25#256)
      [⟨State.table 1 25#256, openingBet.label, s⟩] s := .step .start (.call trivial hcall)
  refine ⟨_, s, hrun, hruns, clock_runs_with_bet rfl rfl hrun (fun x hx => ?_) hruns⟩
  rw [List.mem_singleton] at hx
  subst hx
  intro clock ix accounts cpi args a round hlabel hargs ha _ _
  cases hlabel
  cases hargs
  cases ha
  exact ⟨_, rfl, ⟨0, by decide⟩, show 0 < 1000 by decide, fun _ h => by cases h⟩

/-- A deployment of nothing starts the clock of an empty round. -/
theorem clock_runs_without_bet : ¬ ∀ (h : History) (t : State),
    Run (Step .plain anyInstruction) (State.table 1 25#256) h t → t.board.endSlot ≠ u64Max →
    ∃ round, t.rounds.get (.roundPda t.board.roundId) = some round ∧
      0 < round.totalDeployed := by
  intro hall
  obtain ⟨h, t, hrun, -, ht⟩ := exists_run_of_perform .plain anyInstruction
    (State.table 1 25#256) [.deploy 10 7 1 0 1 false 25#256] (fun s => s.board.endSlot ≠ u64Max ∧
      (s.rounds.get (.roundPda s.board.roundId)).all fun round => round.totalDeployed = 0)
    (fun _ _ => trivial) (by decide +kernel)
  simp only [decide_eq_true_eq] at ht
  obtain ⟨round, hround, hpos⟩ := hall h t hrun ht.1
  have hzero := ht.2
  rw [hround] at hzero
  simp at hzero
  omega

end Godl
