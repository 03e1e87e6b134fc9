import Godl.Proof.StandingOrders
import Godl.Theorems.AutomatedDeploy

/-!
# The executor's fee

An executor deploys for a user and takes the fee of the automation.  A miner that deployed in a
round is refused there, so a fee that is paid with a bet is paid once.  An automation whose
amount is zero, or which selects no square, pays as well: its miner has deployed nothing, and
the executor may call again.

## Main definitions

* `executorFee` — the fee that a call takes out of an automation.
* `SendsFee` — how the lamports move then.
* `FeeForNothing` — a call that takes the fee and bets nothing.

## Main results

* `executor_fee_once_iff` — without such calls the fee is paid once a round, and with a bet.
-/

namespace Godl

open Lib

/-- The accounts of a call that deploys for a user. -/
def Label.deployment (l : Label) (user : Pubkey) : Option DeployAccounts :=
  match l with
  | .call _ ix accounts _ =>
      if ix.deployArgs.isSome then
        (deployAccounts accounts).filter fun a => a.authorityInfo.key = user
      else none
  | .world => none

/-- The call is an `Automate` of a user. -/
def Label.Orders (l : Label) (user : Pubkey) : Prop :=
  match l with
  | .call _ ix accounts _ => ix.Orders accounts user
  | .world => False

/-- What an automation bets in the current round, on all the squares that it selects. -/
def State.automatedBet (env : Env) (s : State) (x : AutomationV2) : ℕ :=
  match s.rounds.get (.roundPda s.board.roundId) with
  | some round => match deploySquares env ⟨0, 0, false⟩ round (some x) with
    | .ok squares => x.amount * squareList.countP squares
    | .error _ => 0
  | none => 0

/-- The fee that a call takes out of the automation of a user: one that can pay for its bet pays
for it, and the fee. -/
def executorFee (env : Env) (user : Pubkey) (y : Transition State Label) : ℕ :=
  match y.label.deployment user, y.before.automations.get (.automationV2Pda user) with
  | some _, some x => if y.before.automatedBet env x + x.fee ≤ x.balance then x.fee else 0
  | _, _ => 0

/-- A deployment sends the executor its fee.  The accounts of the player are opened; then the
automation pays a bet into the round and the fee to the executor, who signs, and what else it
holds goes back to its user if it is closed. -/
structure SendsFee (a : DeployAccounts) (x : AutomationV2) (fee : ℕ)
    (y : Transition State Label) : Prop where
  signer : a.signerInfo.key = x.executor
  lamports : ∃ l bet rest, OpenedFor x.executor a.authorityInfo.key y.before.lamports l ∧
    ∀ k, y.after.lamports k +
        (if k = .automationV2Pda a.authorityInfo.key then bet + fee + rest else 0) =
      l k + (if k = a.roundInfo.key then bet else 0) + (if k = x.executor then fee else 0) +
        if k = a.authorityInfo.key then rest else 0

/-- A call bets something on a square of the current round, for a user. -/
def BetsOn (user : Pubkey) (y : Transition State Label) : Prop :=
  ∃ round round' sq, y.before.rounds.get (.roundPda y.before.board.roundId) = some round ∧
    y.after.rounds.get (.roundPda y.before.board.roundId) = some round' ∧
    0 < (y.after.wagers (.minerPda user)).deployed sq ∧
    round'.deployed sq = round.deployed sq + (y.after.wagers (.minerPda user)).deployed sq

/-- A deployment of an automation that can pay the fee, and bets nothing: its amount is zero, or
it selects no square. -/
def FeeForNothing (env : Env) (user : Pubkey) (y : Transition State Label) : Prop :=
  ∃ x, y.label.deployment user ≠ none ∧
    y.before.automations.get (.automationV2Pda user) = some x ∧
    y.before.automatedBet env x = 0 ∧ 0 < x.fee ∧ x.fee ≤ x.balance

/-- The fee is paid once at most, and only with a bet. -/
structure FeeOnce (env : Env) (user : Pubkey) (fee : ℕ) (h : History) : Prop where
  once : total (executorFee env user) h ≤ fee
  bets : ∀ y ∈ h, 0 < executorFee env user y → BetsOn user y

section Call

variable {env : Env} {allowed : GodlInstruction → Prop} {user : Pubkey} {s s' : State}
  {l : Label} {a : DeployAccounts} {x : AutomationV2}

theorem State.automatedBet_eq {args : DeployArgs} {round : Round} {squares : Square → Bool}
    (hround : s.rounds.get (.roundPda s.board.roundId) = some round)
    (hsquares : deploySquares env args round (some x) = .ok squares) :
    s.automatedBet env x = x.amount * squareList.countP squares := by
  have hsquares' : deploySquares env ⟨0, 0, false⟩ round (some x) = .ok squares := hsquares
  simp only [State.automatedBet, hround, hsquares']

theorem executorFee_eq (hdeployment : l.deployment user = some a)
    (hx : s.automations.get (.automationV2Pda user) = some x) :
    executorFee env user ⟨s, l, s'⟩ =
      if s.automatedBet env x + x.fee ≤ x.balance then x.fee else 0 := by
  simp only [executorFee, hdeployment, hx]

/-- Only a deployment for the user takes a fee. -/
theorem exists_of_executorFee (hfee : 0 < executorFee env user ⟨s, l, s'⟩) :
    ∃ a x, l.deployment user = some a ∧
      s.automations.get (.automationV2Pda user) = some x ∧
      s.automatedBet env x + x.fee ≤ x.balance ∧ executorFee env user ⟨s, l, s'⟩ = x.fee := by
  cases ha : l.deployment user with
  | none => simp [executorFee, ha] at hfee
  | some a =>
    cases hx : s.automations.get (.automationV2Pda user) with
    | none => simp [executorFee, ha, hx] at hfee
    | some x =>
      rw [executorFee_eq ha hx] at hfee ⊢
      split at hfee
      case isTrue hpays => exact ⟨a, x, rfl, rfl, hpays, if_pos hpays⟩
      case isFalse => exact absurd hfee (lt_irrefl 0)

/-- A deployment for a user is a call that the deployed code runs. -/
theorem Step.deployment (hstep : Step env allowed s l s')
    (hdeployment : l.deployment user = some a) :
    ∃ clock ix accounts cpi args, l = .call clock ix accounts cpi ∧
      ix.deployArgs = some args ∧ deployAccounts accounts = some a ∧
      a.authorityInfo.key = user ∧
      processInstruction env clock ix accounts cpi s = .ok s' := by
  cases hstep with
  | world => cases hdeployment
  | @call clock ix accounts cpi _ _ hok =>
    simp only [Label.deployment] at hdeployment
    split at hdeployment
    · next hargs =>
      obtain ⟨args, hargs⟩ := Option.isSome_iff_exists.1 hargs
      obtain ⟨haccounts, huser⟩ := Option.filter_eq_some_iff.1 hdeployment
      exact ⟨clock, ix, accounts, cpi, args, rfl, hargs, haccounts, of_decide_eq_true huser, hok⟩
    · cases hdeployment

/-- **What a deployment of an automation does to the fee**: it is sent to the executor, and it
comes with a bet if the automation has one to make. -/
theorem Step.automated (hstep : Step env allowed s l s')
    (hdeployment : l.deployment user = some a)
    (hx : s.automations.get (.automationV2Pda user) = some x) :
    SendsFee a x (executorFee env user ⟨s, l, s'⟩) ⟨s, l, s'⟩ ∧
      (0 < executorFee env user ⟨s, l, s'⟩ →
        (0 < s.automatedBet env x ↔ BetsOn user ⟨s, l, s'⟩)) := by
  rw [executorFee_eq hdeployment hx]
  obtain ⟨clock, ix, accounts, cpi, args, rfl, hargs, haccounts, rfl, hok⟩ :=
    hstep.deployment hdeployment
  obtain ⟨hsigner, squares, round, hsquares, hround, hdeployed⟩ :=
    (deployCall_automated hargs haccounts hx).elim hok
  rw [State.automatedBet_eq hround hsquares]
  rcases hdeployed with ⟨hpays, hbets, hopened, hsent⟩ | ⟨hshort, hbets, hopened, -, hback, -⟩
  · rw [if_pos hpays]
    refine ⟨⟨hsigner, _, _, _, hsigner ▸ hopened, hsigner ▸ hsent.lamports⟩, fun _ => ?_⟩
    obtain ⟨round', hround', hdeployed, -⟩ := hbets.round
    have hwager := congrFun hbets.miner
    refine ⟨fun hbet => ?_, ?_⟩
    · obtain ⟨sq, -, hsq⟩ := List.countP_pos_iff.1 (Nat.pos_of_mul_pos_left hbet)
      refine ⟨round, round', sq, hround, hround', ?_, ?_⟩
      · rw [hwager, if_pos hsq]
        exact Nat.pos_of_mul_pos_right hbet
      · rw [hwager]
        exact hdeployed sq
    · rintro ⟨_, _, sq, -, -, hpos, -⟩
      rw [hwager] at hpos
      split at hpos
      case isTrue hsq =>
        exact Nat.mul_pos hpos (List.countP_pos_iff.2 ⟨sq, List.mem_finRange sq, hsq⟩)
      case isFalse => exact absurd hpos (lt_irrefl 0)
  · rw [if_neg (not_le.2 hshort)]
    refine ⟨⟨hsigner, _, 0, s.lamports (.automationV2Pda a.authorityInfo.key),
      hsigner ▸ hopened, fun k => ?_⟩, fun h => absurd h (lt_irrefl 0)⟩
    have hmoved := hback.balance k
    simp only [ite_self, Nat.add_zero, Nat.zero_add]
    exact hmoved

/-- The miner has bet in a round. -/
def Miner.Wager.BetIn (w : Miner.Wager) (roundId : ℕ) : Prop :=
  w.roundId = roundId ∧ ∃ sq, 0 < w.deployed sq

/-- A miner that has bet in a round is not ready for it. -/
theorem Miner.Wager.BetIn.not_ready {w : Miner.Wager} {roundId : ℕ} (h : w.BetIn roundId) :
    ¬ w.Ready roundId := by
  obtain ⟨hid, sq, hsq⟩ := h
  rintro (⟨hne, -⟩ | ⟨-, hzero⟩)
  · exact hne hid
  · rw [hzero] at hsq
    exact absurd hsq (lt_irrefl 0)

/-- Only a miner that has not bet in the round takes part in a deployment. -/
theorem Step.ready (hstep : Step env allowed s l s') (hdeployment : l.deployment user = some a) :
    (s.wagers (.minerPda user)).Ready s.board.roundId ∧
      (s'.wagers (.minerPda user)).roundId = s.board.roundId := by
  obtain ⟨clock, ix, accounts, cpi, args, rfl, hargs, haccounts, rfl, hok⟩ :=
    hstep.deployment hdeployment
  obtain ⟨b, _, hb, -, _, _, _, _, wager, _, hwagered, -⟩ :=
    (deployCall_spec env clock hargs accounts cpi s).elim hok
  rw [haccounts, Option.some.injEq] at hb
  subst hb
  refine ⟨hwagered.ready, ?_⟩
  rw [hwagered.wagers, Function.update_self]
  exact hwagered.wagerId

/-- A bet stays where it is while the round is played. -/
theorem GameStep.betIn {k : Pubkey} (hgame : GameStep s s' l)
    (hbet : (s.wagers k).BetIn s.board.roundId) : (s'.wagers k).BetIn s.board.roundId := by
  rcases hgame.wager k with ⟨hkept⟩ | ⟨-, -, -, hsettled⟩ | ⟨-, hready, -⟩
  · rwa [hkept]
  · rw [hsettled]
    exact hbet
  · exact absurd hready hbet.not_ready

/-- Only its user changes the terms of an automation. -/
theorem Step.sameTerms (hstep : Step env allowed s l s') (hno : ¬ l.Orders user) :
    SameTerms user s s' := by
  cases hstep with
  | call _ hok => exact (processInstruction_sameTerms env _ _ s hno).elim hok
  | world hworld => exact .of_eq (by rw [hworld.accounts])

end Call

/-! ## Runs -/

section Runs

variable {env : Env} {allowed : GodlInstruction → Prop} {user : Pubkey} {s t : State}
  {h : History} {x : AutomationV2}

/-- A state that is reached within a round, without an order of the user: the automation has its
terms, if it is still there. -/
structure WithinRound (user : Pubkey) (s t : State) : Prop where
  setup : t.opened .treasury = true
  round : t.board.roundId = s.board.roundId
  terms : SameTerms user s t

theorem withinRound_of_run (hrun : Run (Step env allowed) s h t)
    (hsetup : s.opened .treasury = true)
    (hround : ∀ y ∈ h, y.after.board.roundId = s.board.roundId)
    (horders : ∀ y ∈ h, ¬ y.label.Orders user) :
    (∀ y ∈ h, WithinRound user s y.before) ∧ WithinRound user s t := by
  refine hrun.chain ⟨hsetup, rfl, .of_eq rfl⟩ fun y hy hbefore => ?_
  obtain ⟨_, -, hstep⟩ := hrun.of_mem hy
  exact ⟨hstep.effect.opened hbefore.setup hbefore.setup, hround y hy,
    hbefore.terms.trans (hstep.sameTerms (horders y hy))⟩

/-- The fee is paid with a bet in the current round, or not yet. -/
theorem paid_of_run (hrun : Run (Step env allowed) s h t)
    (hwithin : ∀ y ∈ h, WithinRound user s y.before)
    (hx : s.automations.get (.automationV2Pda user) = some x)
    (hbets : ∀ y ∈ h, 0 < executorFee env user y → BetsOn user y) :
    total (executorFee env user) h = 0 ∨ total (executorFee env user) h = x.fee ∧
      (t.wagers (.minerPda user)).BetIn s.board.roundId := by
  induction hrun with
  | start => exact .inl rfl
  | @step h₁ t l u hrun hstep ih =>
    obtain ⟨hsetup, hround, hterms⟩ := hwithin _ List.mem_cons_self
    dsimp only at hsetup hround hterms
    rw [total_cons]
    rcases Nat.eq_zero_or_pos (executorFee env user ⟨t, l, u⟩) with hfree | hfee
    · rw [hfree, Nat.zero_add]
      refine (ih (fun y hy => hwithin y (List.mem_cons_of_mem _ hy))
        fun y hy => hbets y (List.mem_cons_of_mem _ hy)).imp_right (And.imp_right fun hbet => ?_)
      rw [← hround] at hbet ⊢
      exact (hstep.effect.game hsetup).betIn hbet
    · obtain ⟨a, x', hdeployment, hx', -, hpaid⟩ := exists_of_executorFee hfee
      obtain ⟨hready, hid⟩ := hstep.ready hdeployment
      obtain ⟨_, _, sq, -, -, hsq, -⟩ := hbets _ List.mem_cons_self hfee
      obtain ⟨y, hy, heq⟩ := hterms x' hx'
      rw [hx, Option.some.injEq] at hy
      subst hy
      refine .inr ⟨?_, hid.trans hround, sq, hsq⟩
      -- Before this the fee was not paid, or the miner would not have been ready.
      rcases ih (fun y hy => hwithin y (List.mem_cons_of_mem _ hy))
        fun y hy => hbets y (List.mem_cons_of_mem _ hy) with hnone | ⟨-, hbet⟩
      · rw [hnone, Nat.add_zero, hpaid, heq]
      · rw [← hround] at hbet
        exact absurd hready hbet.not_ready

/-- **The fee of an executor is paid once a round, and with a bet, unless it is taken for
nothing.**  In every run within a round in which the user gives no new order, each deployment
sends the executor the fee that is counted; what is counted is at most the fee of the
automation, and comes with a bet, exactly when no deployment bets nothing for it. -/
theorem executor_fee_once_iff (hrun : Run (Step env allowed) s h t)
    (hsetup : s.opened .treasury = true)
    (hx : s.automations.get (.automationV2Pda user) = some x)
    (hround : ∀ y ∈ h, y.after.board.roundId = s.board.roundId)
    (horders : ∀ y ∈ h, ¬ y.label.Orders user) :
    (∀ y ∈ h, ∀ a, y.label.deployment user = some a →
      (y.before.automations.get (.automationV2Pda user)).isSome = true →
        SendsFee a x (executorFee env user y) y) ∧
    (FeeOnce env user x.fee h ↔ ∀ y ∈ h, ¬ FeeForNothing env user y) := by
  obtain ⟨hwithin, -⟩ := withinRound_of_run hrun hsetup hround horders
  refine ⟨fun y hy a hdeployment hsome => ?_, fun honce y hy hnothing => ?_, fun hno => ?_⟩
  · obtain ⟨_, -, hstep⟩ := hrun.of_mem hy
    obtain ⟨x', hx'⟩ := Option.isSome_iff_exists.1 hsome
    obtain ⟨hsigner, hlamports⟩ := (hstep.automated hdeployment hx').1
    obtain ⟨x₀, hx₀, heq⟩ := (hwithin y hy).terms x' hx'
    rw [hx, Option.some.injEq] at hx₀
    subst hx₀
    rw [heq] at hsigner hlamports
    exact ⟨hsigner, hlamports⟩
  · obtain ⟨x', hdeploys, hx', hzero, hpos, hpays⟩ := hnothing
    obtain ⟨_, -, hstep⟩ := hrun.of_mem hy
    obtain ⟨a, hdeployment⟩ := Option.ne_none_iff_exists'.1 hdeploys
    have hfee : 0 < executorFee env user y := by
      have heq : executorFee env user ⟨y.before, y.label, y.after⟩ = _ :=
        executorFee_eq hdeployment hx'
      rw [hzero, Nat.zero_add, if_pos hpays] at heq
      exact hpos.trans_eq heq.symm
    have hbet := ((hstep.automated hdeployment hx').2 hfee).2 (honce.bets y hy hfee)
    rw [hzero] at hbet
    exact absurd hbet (lt_irrefl 0)
  · have hbets : ∀ y ∈ h, 0 < executorFee env user y → BetsOn user y := by
      intro y hy hfee
      obtain ⟨_, -, hstep⟩ := hrun.of_mem hy
      obtain ⟨a, x', hdeployment, hx', hpays, hpaid⟩ := exists_of_executorFee hfee
      refine ((hstep.automated hdeployment hx').2 hfee).1 (Nat.pos_of_ne_zero fun hzero => ?_)
      rw [hzero, Nat.zero_add] at hpays
      have hdeploys : y.label.deployment user ≠ none := by simp [hdeployment]
      exact hno y hy ⟨x', hdeploys, hx', hzero, hpaid ▸ hfee, hpays⟩
    refine ⟨?_, hbets⟩
    rcases paid_of_run hrun hwithin hx hbets with hnone | ⟨honce, -⟩
    · rw [hnone]
      exact Nat.zero_le _
    · exact honce.le

end Runs

/-- Player 7 adds to the balance of its automation. -/
def fundCall : Call :=
  .plain 11 1 (.fundAutomation 100)
    [.signer 7, .writable (.automationV2Pda (.key 7)), .program systemProgramId]

/-- The executor bets on two squares for its fee, and the player pays in after it. -/
theorem executor_fee_once_iff_paid : ∃ (s t : State) (h : History) (x : AutomationV2),
    Run (Step .plain anyInstruction) s h t ∧ h.length = 2 ∧
    s.automations.get (.automationV2Pda (.key 7)) = some x ∧ x.fee = 5 ∧
    total (executorFee .plain (.key 7)) h = 5 ∧ FeeOnce .plain (.key 7) x.fee h := by
  obtain ⟨-, s, s', t, -, hs, hdeploy, hs', hfund, ht⟩ := exists_calls_after .plain anyInstruction
    (State.table 1 25#256) [automateCall 5000] executeCall fundCall
    (fun s => decide (s.opened .treasury = true) && decide (s.board.roundId = 1) &&
      (s.automations.get (.automationV2Pda (.key 7))).any (fun x => x.fee = 5 ∧
        s.automatedBet .plain x = 2000) &&
      decide (executorFee .plain (.key 7) ⟨s, executeCall.label, s⟩ = 5))
    (fun s' => s'.board.roundId = 1) (fun t => t.board.roundId = 1) (fun _ _ => trivial)
    (by decide +kernel)
  simp only [Bool.and_eq_true, decide_eq_true_eq, Option.any_eq_true] at hs hs' ht
  obtain ⟨⟨⟨hsetup, hround⟩, x, hx, hfee, hbet⟩, hpaid⟩ := hs
  have hrun : Run (Step .plain anyInstruction) s
      [⟨s', fundCall.label, t⟩, ⟨s, executeCall.label, s'⟩] t :=
    .step (.step .start (.call trivial hdeploy)) (.call trivial hfund)
  have honce := (executor_fee_once_iff hrun hsetup hx (by simp [hround, hs', ht])
    (by simp [Label.Orders, fundCall, executeCall, Call.plain, Call.label,
      GodlInstruction.Orders])).2.2 ?_
  · refine ⟨s, t, _, x, hrun, rfl, hx, hfee, ?_, honce⟩
    rw [total_cons, total_cons, total_nil]
    exact (Nat.zero_add _).trans hpaid
  · refine List.forall_mem_cons.2 ⟨?_, List.forall_mem_cons.2 ⟨?_, by simp⟩⟩
    · rintro ⟨_, hdeploys, -⟩
      exact hdeploys rfl
    · rintro ⟨y, -, hy, hzero, -⟩
      rw [show (⟨s, executeCall.label, s'⟩ : Transition State Label).before = s from rfl, hx,
        Option.some.injEq] at hy
      subst hy
      rw [show (⟨s, executeCall.label, s'⟩ : Transition State Label).before = s from rfl,
        hbet] at hzero
      cases hzero

/-- Player 7 has the key pair 8 bet nothing on the squares 0 and 3, for a fee of 5. -/
def idleOrder : Call :=
  .plain 1 1 (.automate ⟨0, 100, 5, 9, 1, false, true⟩) (automateCall 0).accounts

/-- **The fee is taken twice in a round** by an executor that bets nothing for it. -/
theorem executor_fee_twice : ¬ ∀ (env : Env) (s t : State) (h : History) (user : Pubkey)
    (x : AutomationV2), Run (Step env anyInstruction) s h t → s.opened .treasury = true →
    s.automations.get (.automationV2Pda user) = some x →
    (∀ y ∈ h, y.after.board.roundId = s.board.roundId) → (∀ y ∈ h, ¬ y.label.Orders user) →
    FeeOnce env user x.fee h := by
  intro hall
  obtain ⟨-, s, s', t, -, hs, hfirst, hs', hsecond, ht⟩ := exists_calls_after .plain
    anyInstruction (State.table 1 25#256) [idleOrder] executeCall executeCall
    (fun s => decide (s.opened .treasury = true) && decide (s.board.roundId = 1) &&
      (s.automations.get (.automationV2Pda (.key 7))).any (fun x => x.fee = 5) &&
      decide (executorFee .plain (.key 7) ⟨s, executeCall.label, s⟩ = 5))
    (fun s' => decide (s'.board.roundId = 1) &&
      decide (executorFee .plain (.key 7) ⟨s', executeCall.label, s'⟩ = 5))
    (fun t => t.board.roundId = 1) (fun _ _ => trivial) (by decide +kernel)
  simp only [Bool.and_eq_true, decide_eq_true_eq, Option.any_eq_true] at hs hs' ht
  obtain ⟨⟨⟨hsetup, hround⟩, x, hx, hfee⟩, hpaid⟩ := hs
  obtain ⟨hround', hpaid'⟩ := hs'
  have hrun : Run (Step .plain anyInstruction) s
      [⟨s', executeCall.label, t⟩, ⟨s, executeCall.label, s'⟩] t :=
    .step (.step .start (.call trivial hfirst)) (.call trivial hsecond)
  have honce := (hall _ _ _ _ (.key 7) x hrun hsetup hx (by simp [hround, hround', ht])
    (by simp [Label.Orders, executeCall, Call.label, GodlInstruction.Orders])).once
  have htotal : total (executorFee .plain (.key 7))
      [⟨s', executeCall.label, t⟩, ⟨s, executeCall.label, s'⟩] = 5 + 5 := by
    rw [total_cons, total_cons, total_nil]
    exact congrArg₂ (· + ·) hpaid' (congrArg (· + 0) hpaid)
  omega

end Godl
