import Godl.Proof.GameSteps

/-!
# Deployments of automations

An automation either bets its amount on every square it selects or on none.  That it can
pay for all of them is checked before the loop over the squares; the loop has a check of its
own, which then stops it after the last selected square at the earliest.

## Main definitions

* `deployLoop_complete` — the loop bets on all selected squares.
* `PaysBet` — what an automation pays for a bet.
* `AutomatedDeploy` — the two outcomes of an automated deployment.
-/

namespace Godl

open Lib

/-! ## The loop -/

section Loop

variable {c : DeployContext} {squares : Square → Bool} {l : List Square}

/-- A bet on one square is written to the miner. -/
theorem deploySquare_deployed (c : DeployContext) (b : Bet) (sq : Square) :
    Ensures (deploySquare c b sq) fun b' =>
      b'.miner.deployed = Function.update b.miner.deployed sq c.amount := by
  simp only [deploySquare, deployPooled, ensures_bind, ensures_addU64, ensures_ite, ensures_pure]
  exact fun _ _ _ => ⟨fun _ => ensures_of_forall fun _ _ => trivial, fun _ _ => trivial⟩

/-- What a bet still has to cost is in the balance of the automation. -/
def Covers (c : DeployContext) (squares : Square → Bool) (l : List Square) (b : Bet) : Prop :=
  ∀ a, c.automation = some a → b.totalAmount + c.amount * l.countP squares + a.fee ≤ a.balance

/-- The loop stops early only where it cannot select another square. -/
theorem cannotAffordNext_spec {b : Bet} (hcovers : Covers c squares l b) :
    Ensures (cannotAffordNext c b) fun exhausted =>
      exhausted = true → l.countP squares = 0 := by
  unfold cannotAffordNext
  split
  · exact ensures_pure.2 fun h => absurd h Bool.false_ne_true
  · next a ha =>
    simp only [ensures_bind, ensures_addU64, ensures_pure, decide_eq_true_eq]
    intro _ _ hless
    have hbalance := hcovers a ha
    -- The amount is not zero, or the balance would cover another square.
    by_contra hsome
    have hone : c.amount * 1 ≤ c.amount * l.countP squares :=
      Nat.mul_le_mul_left _ (Nat.one_le_iff_ne_zero.2 hsome)
    omega

/-- **The loop bets on every selected square** that is free, whatever its own check says. -/
theorem deployLoop_complete {b : Bet} (hcovers : Covers c squares l b) (hnodup : l.Nodup)
    (hfree : ∀ sq ∈ l, b.miner.deployed sq = 0) :
    Ensures (deployLoop c squares l b) fun b' =>
      b'.totalAmount = b.totalAmount + c.amount * l.countP squares ∧
      ∀ sq, b'.miner.deployed sq =
        if sq ∈ l ∧ squares sq = true then c.amount else b.miner.deployed sq := by
  induction l generalizing b with
  | nil => exact ensures_ok.2 ⟨rfl, by simp⟩
  | cons sq rest ih =>
    obtain ⟨hnew, hnodup⟩ := List.nodup_cons.1 hnodup
    rw [deployLoop]
    by_cases hsel : squares sq = true
    · rw [if_neg (by simp [hsel]), if_neg (by simp [hfree sq List.mem_cons_self])]
      simp only [ensures_bind, ensures_ite, ensures_pure]
      refine Ensures.mono ((deploySquare_total c b sq).and (deploySquare_deployed c b sq)) ?_
      rintro b₁ ⟨htotal, hdeployed⟩
      have hcount : (sq :: rest).countP squares = rest.countP squares + 1 :=
        List.countP_cons_of_pos hsel
      have hcost : c.amount * (sq :: rest).countP squares =
          c.amount * rest.countP squares + c.amount := by rw [hcount, Nat.mul_succ]
      have hcovers₁ : Covers c squares rest b₁ := by
        intro a ha
        have := hcovers a ha
        omega
      have hfree₁ : ∀ x ∈ rest, b₁.miner.deployed x = 0 := by
        intro x hx
        have hne : x ≠ sq := fun h => hnew (h ▸ hx)
        rw [hdeployed, Function.update_of_ne hne]
        exact hfree x (List.mem_cons_of_mem _ hx)
      have hafter : ∀ b' : Bet,
          b'.totalAmount = b₁.totalAmount + c.amount * rest.countP squares →
          (∀ x, b'.miner.deployed x =
            if x ∈ rest ∧ squares x = true then c.amount else b₁.miner.deployed x) →
          b'.totalAmount = b.totalAmount + c.amount * (sq :: rest).countP squares ∧
          ∀ x, b'.miner.deployed x =
            if x ∈ sq :: rest ∧ squares x = true then c.amount else b.miner.deployed x := by
        intro b' hb' hbets
        refine ⟨by omega, fun x => ?_⟩
        rw [hbets x, hdeployed]
        by_cases hx : x = sq
        · subst hx
          simp [hnew, hsel]
        · simp [hx]
      refine Ensures.mono (cannotAffordNext_spec hcovers₁) fun exhausted hlast => ?_
      refine ⟨fun hexhausted => ?_, fun _ => ?_⟩
      · have hnone := hlast hexhausted
        refine hafter b₁ (by rw [hnone]; rfl) fun x => ?_
        rw [if_neg]
        rintro ⟨hx, hselected⟩
        exact absurd (List.countP_eq_zero.1 hnone x hx) (by simpa using hselected)
      · exact Ensures.mono (ih hcovers₁ hnodup hfree₁) fun b' hb' => hafter b' hb'.1 hb'.2
    · rw [if_pos (Bool.eq_false_iff.2 hsel)]
      have hcount : (sq :: rest).countP squares = rest.countP squares :=
        List.countP_cons_of_neg hsel
      have hcovers' : Covers c squares rest b := by
        intro a ha
        rw [← hcount]
        exact hcovers a ha
      refine Ensures.mono (ih hcovers' hnodup fun x hx => hfree x (List.mem_cons_of_mem _ hx)) ?_
      rintro b' ⟨htotal, hbets⟩
      rw [hcount]
      refine ⟨htotal, fun x => ?_⟩
      rw [hbets x]
      by_cases hx : x = sq
      · subst hx
        simp [hsel]
      · simp [hx]

/-- The loop pays for a pool member at most. -/
theorem deployLoop_opened (hmember : c.poolMemberInfo.key = .poolMemberPda c.authority) (b : Bet) :
    Ensures (deployLoop c squares l b) fun b' =>
      OpenedFor c.signerInfo.key c.authority b.state.lamports b'.state.lamports := by
  have hsquare : ∀ (b : Bet) (sq : Square), Ensures (deploySquare c b sq) fun b' =>
      OpenedFor c.signerInfo.key c.authority b.state.lamports b'.state.lamports := by
    intro b sq
    simp only [deploySquare, deployPooled, openPoolMember, ensures_bind, ensures_addU64,
      ensures_ite, ensures_pure]
    intro _ _ _
    refine ⟨fun _ => ?_, fun _ _ => OpenedFor.refl _ _ _⟩
    split
    · simp only [ensures_bind, ensures_pure]
      exact Ensures.mono (createAccount_opened (.inr (.inl hmember))) fun _ h _ => h
    · simp only [ensures_bind, ensures_require, ensures_pure]
      exact fun _ _ => OpenedFor.refl _ _ _
  induction l generalizing b with
  | nil => exact ensures_ok.2 (OpenedFor.refl _ _ _)
  | cons sq rest ih =>
    rw [deployLoop]
    split
    · exact ih b
    · split
      · exact ih b
      · simp only [ensures_bind, ensures_ite, ensures_pure]
        refine Ensures.mono (hsquare b sq) fun b₁ hb₁ => ensures_of_forall fun _ => ?_
        exact ⟨fun _ => hb₁, fun _ => Ensures.mono (ih b₁) fun b₂ hb₂ => hb₁.trans hb₂⟩

/-- Booking the bet costs the checkpoint fee at most. -/
theorem finishBet_opened {minerInfo : AccountInfo} (hminer : minerInfo.key = .minerPda c.authority)
    (b : Bet) :
    Ensures (finishBet c minerInfo b) fun s' =>
      OpenedFor c.signerInfo.key c.authority b.state.lamports s'.lamports := by
  simp only [finishBet, ensures_bind, ensures_addU64, ensures_ite, ensures_pure,
    ensures_fromOption, ensures_require]
  intro _
  refine ⟨fun hfee => ?_, fun hfee => ?_⟩
  · refine Ensures.mono (State.collect_spec _ _ _ _) ?_
    rintro _ ⟨l, rfl, hl, -⟩
    have hopened : OpenedFor c.signerInfo.key c.authority b.state.lamports l :=
      hl.openedFor (.inl hminer)
    exact ⟨fun _ _ _ _ => hopened, fun _ => hopened⟩
  · exact ⟨fun _ _ _ _ => OpenedFor.refl _ _ _, fun _ => OpenedFor.refl _ _ _⟩

end Loop

/-! ## Paying -/

/-- What is left of an automation that paid: nothing when it cannot pay for one square more. -/
def AutomationV2.afterPaying (x : AutomationV2) (cost : ℕ) : Option AutomationV2 :=
  if x.balance - cost < x.amount + x.fee then none else some { x with balance := x.balance - cost }

/-- An automation pays `bet` into the round and its fee to the signer; when it is closed, the
`rest` of its lamports goes to its authority. -/
structure PaysBet (a : DeployAccounts) (x : AutomationV2) (bet rest : ℕ)
    (left : Option AutomationV2) (l : Pubkey → ℕ) (s' : State) : Prop where
  automation : s'.automations.get (.automationV2Pda a.authorityInfo.key) = left
  lamports : ∀ k, s'.lamports k +
      (if k = .automationV2Pda a.authorityInfo.key then bet + x.fee + rest else 0) =
    l k + (if k = a.roundInfo.key then bet else 0) + (if k = a.signerInfo.key then x.fee else 0) +
      if k = a.authorityInfo.key then rest else 0
  closed : left = none → s'.lamports (.automationV2Pda a.authorityInfo.key) = 0
  open_ : left ≠ none → rest = 0

theorem Pubkey.automationV2Pda_ne (k : Pubkey) : Pubkey.automationV2Pda k ≠ k := by
  intro h
  have hsize := congrArg sizeOf h
  simp at hsize

section Pay

variable {a : DeployAccounts} {x : AutomationV2} {s : State}

/-- All lamports of an automation that is closed go to its authority. -/
theorem closeAutomation_spec (y : AutomationV2) (authority : Pubkey) (s : State)
    (hauth : y.authority = authority) :
    ∃ l, closeAutomation y authority s = { s with
        lamports := l, automations := s.automations.erase (.automationV2Pda authority) } ∧
      Moved s.lamports l (.automationV2Pda authority) authority
        (s.lamports (.automationV2Pda authority)) ∧ l (.automationV2Pda authority) = 0 := by
  have hpda : y.pda = .automationV2Pda authority := by rw [AutomationV2.pda, hauth]
  obtain ⟨l, hl, hmoved⟩ := State.releaseLamports_spec s (.automationV2Pda authority) authority
  refine ⟨l, ?_, hmoved, ?_⟩
  · rw [closeAutomation, hpda, hl]
  · have hbalance := hmoved.balance (.automationV2Pda authority)
    rw [if_pos rfl, if_neg (Pubkey.automationV2Pda_ne _)] at hbalance
    omega

theorem payBet_pays (hkey : a.automationV2Info.key = .automationV2Pda a.authorityInfo.key)
    (hauth : x.authority = a.authorityInfo.key) (bet : ℕ) :
    Ensures (payBet a bet (some x) s) fun s' => ∃ l t rest,
      s' = { s with lamports := l, automations := t } ∧
      PaysBet a x bet rest (x.afterPaying (bet + x.fee)) s.lamports s' := by
  simp only [payBet, ensures_bind, ensures_addU64, ensures_subU64, ensures_ite, ensures_pure]
  intro _ _
  rw [hkey]
  set y : AutomationV2 := { x with balance := x.balance - (bet + x.fee) } with hy
  have hpda : y.pda = .automationV2Pda a.authorityInfo.key := by
    rw [AutomationV2.pda, ← hauth]
  refine Ensures.mono (State.send_spec _ _ _ _) ?_
  rintro _ ⟨l₁, rfl, hl₁⟩
  refine Ensures.mono (State.send_spec _ _ _ _) ?_
  rintro _ ⟨l₂, rfl, hl₂⟩ _
  refine ⟨fun hless => ?_, fun hless => ?_⟩
  · obtain ⟨l, hclose, hl, hzero⟩ := closeAutomation_spec y a.authorityInfo.key
      { s with automations := s.automations.put y, lamports := l₂ } hauth
    rw [hclose]
    refine ⟨l, _, l₂ (.automationV2Pda a.authorityInfo.key), rfl, ?_, ?_, fun _ => hzero, ?_⟩
    · rw [AutomationV2.afterPaying, if_pos hless]
      exact Store.get_erase_self _ _
    · intro k
      have h₁ := hl₁.balance k
      have h₂ := hl₂.balance k
      have h₃ := hl.balance k
      dsimp only at h₁ h₂ h₃ ⊢
      by_cases hk : k = .automationV2Pda a.authorityInfo.key
      · simp only [if_pos hk] at h₁ h₂ h₃ ⊢
        omega
      · simp only [if_neg hk] at h₁ h₂ h₃ ⊢
        omega
    · rw [AutomationV2.afterPaying, if_pos hless]
      exact fun h => absurd rfl h
  · refine ⟨l₂, _, 0, rfl, ?_, ?_, ?_, fun _ => rfl⟩
    · rw [AutomationV2.afterPaying, if_neg hless, ← hpda]
      exact Store.get_put_self _ _
    · intro k
      have h₁ := hl₁.balance k
      have h₂ := hl₂.balance k
      dsimp only at h₁ h₂ ⊢
      rw [ite_self]
      by_cases hk : k = .automationV2Pda a.authorityInfo.key
      · simp only [if_pos hk] at h₁ h₂ ⊢
        omega
      · simp only [if_neg hk] at h₁ h₂ ⊢
        omega
    · rw [AutomationV2.afterPaying, if_neg hless]
      exact fun h => absurd h (Option.some_ne_none _)

end Pay

/-! ## The deployment -/

/-- Bets are put on squares of the current round. -/
structure PutsBets (s s' : State) (authority : Pubkey) (round : Round) (bet : Square → ℕ) :
    Prop where
  miner : (s'.wagers (.minerPda authority)).deployed = bet
  round : ∃ round', s'.rounds.get (.roundPda s.board.roundId) = some round' ∧
    (∀ sq, round'.deployed sq = round.deployed sq + bet sq) ∧
    round'.totalDeployed = round.totalDeployed + ∑ sq, bet sq

/-- **The two outcomes of an automated deployment**, once the accounts of the player are open:
the amount is bet on every selected square, or nothing is and the automation is closed. -/
inductive AutomatedDeploy (a : DeployAccounts) (x : AutomationV2) (squares : Square → Bool)
    (round : Round) (s s' : State) : Prop
  | placed {l : Pubkey → ℕ} {rest : ℕ}
      (affordable : x.amount * squareList.countP squares + x.fee ≤ x.balance)
      (bets : PutsBets s s' a.authorityInfo.key round fun sq =>
        if squares sq = true then x.amount else 0)
      (opened : OpenedFor a.signerInfo.key a.authorityInfo.key s.lamports l)
      (pays : PaysBet a x (x.amount * squareList.countP squares) rest
        (x.afterPaying (x.amount * squareList.countP squares + x.fee)) l s')
  | returned {l : Pubkey → ℕ}
      (unaffordable : x.balance < x.amount * squareList.countP squares + x.fee)
      (bets : PutsBets s s' a.authorityInfo.key round fun _ => 0)
      (opened : OpenedFor a.signerInfo.key a.authorityInfo.key s.lamports l)
      (automation : s'.automations.get (.automationV2Pda a.authorityInfo.key) = none)
      (returns : Moved l s'.lamports (.automationV2Pda a.authorityInfo.key) a.authorityInfo.key
        (s.lamports (.automationV2Pda a.authorityInfo.key)))
      (closed : s'.lamports (.automationV2Pda a.authorityInfo.key) = 0)

section Place

variable {env : Env} {clock : Clock} {args : DeployArgs} {a : DeployAccounts} {x : AutomationV2}
  {squares : Square → Bool} {round round₁ : Round} {pool : PoolRound} {miner : Miner}
  {s s₁ : State}

/-- Saving a bet puts it on the squares. -/
theorem putsBets_of_saved {start b : Bet} {m : Miner} {s' : State} {c : DeployContext}
    (hplacing : Placing env clock args a s squares round round₁ pool miner s₁)
    (hstart : start.round = round₁ ∧ start.miner = miner) (hgrown : BetGrown c start b)
    (hm : m.authority = b.miner.authority) (hwager : m.wager = b.miner.wager)
    (hminers : s'.miners = b.state.miners.put m)
    (hrounds : s'.rounds = b.state.rounds.put b.round) :
    PutsBets s s' a.authorityInfo.key round b.miner.deployed := by
  have hround := hplacing.prepared.round
  have hroundId : round.id = s.board.roundId := hplacing.checked.roundId
  have hpda : m.pda = .minerPda a.authorityInfo.key := by
    rw [Miner.pda, hm, hgrown.miner, hstart.2, ← hplacing.authority]
  have hbpda : b.round.pda = .roundPda s.board.roundId := by
    rw [Round.pda, hgrown.round, hstart.1, hround, ← hroundId]
  constructor
  · rw [State.wagers, hminers, Store.view_put, hpda, Function.update_self, hwager]
    rfl
  · refine ⟨b.round, ?_, fun sq => ?_, ?_⟩
    · rw [hrounds, ← hbpda]
      exact Store.get_put_self _ _
    · rw [hgrown.deployed, hstart.1, hround]
    · rw [hgrown.total, hgrown.amount, hstart.1, hround]

/-- **An automation that is ready to bet bets on all its squares or on none.** -/
theorem placeBet_automated
    (hplacing : Placing env clock args a s squares round round₁ pool miner s₁)
    (hopened : OpenedFor a.signerInfo.key a.authorityInfo.key s.lamports s₁.lamports)
    (hautomation : s.automations.get (.automationV2Pda a.authorityInfo.key) = some x) :
    Ensures (placeBet args a (some x) squares round₁ pool miner s₁)
      (AutomatedDeploy a x squares round s) := by
  have hauth : x.authority = a.authorityInfo.key := by
    have hkey : Pubkey.automationV2Pda x.authority = _ := s.automations.key_of_get _ _ hautomation
    injection hkey
  have hautomations : s₁.automations = s.automations := by
    obtain ⟨b, v, l, t, rfl, -⟩ := hplacing.prepared.state
    rfl
  set start : Bet :=
    ⟨s₁, round₁, pool, miner, s₁.poolMembers.get a.poolMemberInfo.key, 0⟩ with hstart
  have howner : ∀ p, start.poolMember = some p → p.authority = a.authorityInfo.key := by
    intro p hp
    have hkey : Pubkey.poolMemberPda p.authority = _ := s₁.poolMembers.key_of_get _ _ hp
    rw [hplacing.checked.member] at hkey
    injection hkey
  -- The automation pays for none of the accounts that are opened.
  have hown : ∀ l, OpenedFor a.signerInfo.key a.authorityInfo.key s.lamports l →
      l (.automationV2Pda a.authorityInfo.key) =
        s.lamports (.automationV2Pda a.authorityInfo.key) := by
    intro l hl
    refine hl _ ?_ Pubkey.noConfusion Pubkey.noConfusion Pubkey.noConfusion
    intro hkey
    have hpair := a.signerInfo.isKeypair_of_isSigner hplacing.checked.signer
    rw [← hkey] at hpair
    cases hpair
  simp only [placeBet, ensures_bind, ensures_ite]
  refine Ensures.mono (canAfford_spec _ _ x) fun affordable haffordable =>
    ⟨fun hafford => ?_, fun hafford => ?_⟩
  all_goals rw [squaresToDeploy_of_zero squares hplacing.zero] at haffordable
  · have hcost := haffordable.1 hafford
    set c : DeployContext := ⟨x.amount, x.getIsPooled, some x, a.authorityInfo.key,
      a.signerInfo, a.poolMemberInfo⟩ with hc
    have hcovers : Covers c squares squareList start := by
      rintro _ ⟨⟩
      rwa [hstart, Nat.zero_add]
    refine Ensures.mono (((deployLoop_spec (c := c) squares squareList
      (BetGrown.refl hplacing.zero rfl howner)).and (deployLoop_complete hcovers
        (List.nodup_finRange 25) fun sq _ => congrFun hplacing.zero sq)).and
      (deployLoop_opened hplacing.checked.member start)) ?_
    rintro b ⟨⟨hgrown, htotal, hbets⟩, hloop⟩
    refine Ensures.mono ((finishBet_spec _ _ b).and
      (finishBet_opened (c := c) hplacing.checked.miner b)) ?_
    rintro _ ⟨⟨m, l, rfl, -, hm, hwager, -⟩, hfinish⟩
    refine Ensures.mono (payBet_pays hplacing.checked.automation hauth b.totalAmount) ?_
    rintro _ ⟨l', t, rest, rfl, hpays⟩
    have htotal' : b.totalAmount = x.amount * squareList.countP squares := by
      rw [htotal, hstart, Nat.zero_add]
    rw [htotal'] at hpays
    refine .placed hcost ?_ ((hopened.trans hloop).trans hfinish) hpays
    have hdeployed : b.miner.deployed = fun sq => if squares sq = true then x.amount else 0 := by
      funext sq
      rw [hbets sq]
      simp [hstart, hplacing.zero, squareList, hc]
    rw [← hdeployed]
    exact putsBets_of_saved hplacing ⟨rfl, rfl⟩ hgrown hm hwager rfl rfl
  · have hless : x.balance < x.amount * squareList.countP squares + x.fee :=
      not_le.1 fun h => hafford (haffordable.2 h)
    obtain ⟨l, hclose, hmoved, hzero⟩ :=
      closeAutomation_spec x a.authorityInfo.key (saveBet start) hauth
    rw [ensures_pure, hclose]
    refine .returned hless ?_ hopened ?_ ?_ hzero
    · rw [← hplacing.zero]
      have hgrown : BetGrown ⟨0, false, none, a.authorityInfo.key, a.signerInfo,
          a.poolMemberInfo⟩ start start := BetGrown.refl hplacing.zero rfl howner
      exact putsBets_of_saved hplacing ⟨rfl, rfl⟩ hgrown rfl rfl rfl rfl
    · exact Store.get_erase_self _ _
    · rw [← hown _ hopened]
      exact hmoved

end Place

section Call

variable {env : Env} {clock : Clock} {ix : GodlInstruction} {args : DeployArgs}
  {accounts : List AccountInfo} {cpi : Cpi} {a : DeployAccounts} {x : AutomationV2} {s : State}

/-- **A deployment that executes an automation** has one of the two outcomes, and is signed by
the executor. -/
theorem deployCall_automated (hargs : ix.deployArgs = some args)
    (haccounts : deployAccounts accounts = some a) (hautomation : s.automationOf a = some x) :
    Ensures (processInstruction env clock ix accounts cpi s) fun s' =>
      a.signerInfo.key = x.executor ∧ ∃ squares round,
        deploySquares env args round (some x) = .ok squares ∧
        s.rounds.get (.roundPda s.board.roundId) = some round ∧
        AutomatedDeploy a x squares round s s' := by
  refine Ensures.mono (deployCall_body env clock hargs accounts cpi s
    (Q := fun b t => b = a → a.signerInfo.key = x.executor ∧ ∃ squares round,
      deploySquares env args round (some x) = .ok squares ∧
      s.rounds.get (.roundPda s.board.roundId) = some round ∧
      AutomatedDeploy a x squares round s t) ?_) ?_
  · intro b gold entropyAccounts hb
    obtain rfl : a = b := Option.some.inj (haccounts.symm.trans hb)
    refine deployBody_opens clock env args a gold entropyAccounts cpi s ?_
    intro squares round round₁ pool miner s₁ hplacing hopened
    have hget : s.automations.get (.automationV2Pda a.authorityInfo.key) = some x := hautomation
    rw [hget]
    refine Ensures.mono (placeBet_automated hplacing hopened hget) fun t ht _ => ?_
    have hsquares := hplacing.squares
    rw [hget] at hsquares
    have hround := hplacing.checked.getRound
    have hkey : a.roundInfo.key = .roundPda s.board.roundId := by
      rw [← hplacing.checked.roundId]
      exact (s.rounds.key_of_get _ _ hround).symm
    rw [hkey] at hround
    exact ⟨hplacing.executor x hget, squares, round, hsquares, hround, ht⟩
  · rintro s' ⟨b, hb, h⟩
    rw [haccounts] at hb
    exact h (Option.some.inj hb).symm

end Call

end Godl
