import Godl.Program.Deploy
import Godl.Proof.LedgerHandlers

/-!
# Deployments

One deployment bets on squares of the current round.  On every square it takes the
interval that starts where the round's deployments ended; the round grows by exactly
what the miner deployed, and so do its lamports.  What a pool member records grows by
no more than the pool does.

## Main definitions

* `BetGrown c start b` — the invariant of the loop over the squares.
* `Wagered` — what a deployment does to the books.
-/

namespace Godl

open Lib

/-- What a member deployed in a round. -/
def PoolMember.Membership.share (m : PoolMember.Membership) (roundId : ℕ) (sq : Square) : ℕ :=
  if m.roundId = roundId then m.deployed sq else 0

/-- The membership of a pool member that may not exist yet. -/
def membershipOf (o : Option PoolMember) : PoolMember.Membership :=
  o.elim ⟨0, fun _ => 0⟩ PoolMember.membership

/-! ## The loop -/

/-- The invariant of the loop over the squares: how the bet grew since the start. -/
structure BetGrown (c : DeployContext) (start b : Bet) : Prop where
  round : b.round = { start.round with
    deployed := b.round.deployed, count := b.round.count, totalDeployed := b.round.totalDeployed }
  miner : b.miner = { start.miner with
    deployed := b.miner.deployed, cumulative := b.miner.cumulative }
  deployed : ∀ sq, b.round.deployed sq = start.round.deployed sq + b.miner.deployed sq
  cumulative : ∀ sq, 0 < b.miner.deployed sq → b.miner.cumulative sq = start.round.deployed sq
  total : b.round.totalDeployed = start.round.totalDeployed + b.totalAmount
  amount : b.totalAmount = ∑ sq, b.miner.deployed sq
  state : ∃ l, b.state = { start.state with lamports := l } ∧ Grew IsDerived start.state.lamports l
  poolRound : b.poolRound = { start.poolRound with
    deployed := b.poolRound.deployed, count := b.poolRound.count
    totalDeployed := b.poolRound.totalDeployed }
  pool : (∀ sq, start.poolRound.deployed sq ≤ start.round.deployed sq) → ∀ sq,
    b.poolRound.deployed sq =
      start.poolRound.deployed sq + if c.isPooled then b.miner.deployed sq else 0
  member : ∀ sq, (membershipOf b.poolMember).share start.round.id sq ≤
    (membershipOf start.poolMember).share start.round.id sq +
      if c.isPooled then b.miner.deployed sq else 0
  shared : ∀ sq, 0 < (membershipOf b.poolMember).share start.round.id sq ↔
    0 < (membershipOf start.poolMember).share start.round.id sq ∨
      (c.isPooled = true ∧ 0 < b.miner.deployed sq)
  fits : start.round.totalDeployed < u64Bound → b.round.totalDeployed < u64Bound
  kept : b.poolMember = start.poolMember ∨
    ∃ p, b.poolMember = some p ∧ p.roundId = start.round.id
  owner : ∀ p, b.poolMember = some p → p.authority = c.authority

section Loop

variable {c : DeployContext} {start b : Bet} {sq : Square}

/-- Before the first square nothing is deployed. -/
theorem BetGrown.refl (hminer : start.miner.deployed = fun _ => 0) (hamount : start.totalAmount = 0)
    (howner : ∀ p, start.poolMember = some p → p.authority = c.authority) :
    BetGrown c start start := by
  refine ⟨rfl, rfl, ?_, ?_, ?_, ?_, ⟨_, rfl, Grew.refl _ _⟩, rfl, ?_, ?_, ?_, id, .inl rfl, howner⟩
  · simp [hminer]
  · simp [hminer]
  · rw [hamount, Nat.add_zero]
  · simp [hminer, hamount]
  · simp [hminer]
  · simp [hminer]
  · simp [hminer]

theorem sum_update_of_eq_zero {d : Square → ℕ} {n : ℕ} (h : d sq = 0) :
    ∑ x, Function.update d sq n x = (∑ x, d x) + n := by
  rw [Finset.sum_update_of_mem (Finset.mem_univ sq), add_comm,
    ← Finset.sum_sdiff (Finset.subset_univ {sq})]
  simp [h]

/-- The member that a pooled deployment opens. -/
theorem openPoolMember_spec {s : State}
    (hstate : ∃ l, b.state = { s with lamports := l } ∧ Grew IsDerived s.lamports l) :
    Ensures (openPoolMember c b) fun r => r.1.authority = c.authority ∧
      r.1.membership = membershipOf b.poolMember ∧
      ∃ l, r.2 = { s with lamports := l } ∧ Grew IsDerived s.lamports l := by
  obtain ⟨l, hstate, hl⟩ := hstate
  unfold openPoolMember
  split
  · next hnone =>
    simp only [ensures_bind, ensures_pure]
    refine Ensures.mono (State.createAccount_spec b.state _ _ _) ?_
    rintro _ ⟨-, l', rfl, -, hl'⟩
    rw [hstate] at hl'
    refine ⟨trivial, ?_, l', ?_, hl.trans hl'⟩
    · rw [hnone]
      rfl
    · rw [hstate]
  · next p hsome =>
    simp only [ensures_bind, ensures_require, ensures_pure]
    intro hauth
    refine ⟨hauth, ?_, l, hstate, hl⟩
    rw [hsome]
    rfl

/-- The bet on one square before the pool is told. -/
theorem BetGrown.bet (h : BetGrown c start b) (hzero : b.miner.deployed sq = 0) {count : ℕ}
    {deployed total : ℕ} (hdeployed : deployed = b.round.deployed sq + c.amount)
    (htotal : total = b.round.totalDeployed + c.amount) {b' : Bet}
    (hminer : b'.miner = { b.miner with
      cumulative := Function.update b.miner.cumulative sq (b.round.deployed sq)
      deployed := Function.update b.miner.deployed sq c.amount })
    (hround : b'.round = { b.round with
      deployed := Function.update b.round.deployed sq deployed
      totalDeployed := total
      count := Function.update b.round.count sq count })
    (hamount : b'.totalAmount = b.totalAmount + c.amount)
    (hstate : ∃ l, b'.state = { start.state with lamports := l } ∧
      Grew IsDerived start.state.lamports l)
    (hpoolRound : b'.poolRound = { start.poolRound with
      deployed := b'.poolRound.deployed, count := b'.poolRound.count
      totalDeployed := b'.poolRound.totalDeployed })
    (hpool : (∀ x, start.poolRound.deployed x ≤ start.round.deployed x) → ∀ x,
      b'.poolRound.deployed x = b.poolRound.deployed x +
        if c.isPooled ∧ x = sq then c.amount else 0)
    (hmember : ∀ x, (membershipOf b'.poolMember).share start.round.id x ≤
      (membershipOf b.poolMember).share start.round.id x +
        if c.isPooled ∧ x = sq then c.amount else 0)
    (hshared : ∀ x, 0 < (membershipOf b'.poolMember).share start.round.id x ↔
      0 < (membershipOf b.poolMember).share start.round.id x ∨
        (c.isPooled = true ∧ x = sq ∧ 0 < c.amount))
    (hfits : total < u64Bound)
    (hkept : b'.poolMember = b.poolMember ∨
      ∃ p, b'.poolMember = some p ∧ p.roundId = start.round.id)
    (howner : ∀ p, b'.poolMember = some p → p.authority = c.authority) :
    BetGrown c start b' := by
  have hd : b'.miner.deployed = Function.update b.miner.deployed sq c.amount := by rw [hminer]
  have hcum : b'.miner.cumulative =
      Function.update b.miner.cumulative sq (b.round.deployed sq) := by rw [hminer]
  have hrd : b'.round.deployed = Function.update b.round.deployed sq deployed := by rw [hround]
  have hrt : b'.round.totalDeployed = total := by rw [hround]
  have hsq := h.deployed sq
  have htot := h.total
  -- Where the square was free, the pool's share grows by the amount.
  have hif : ∀ x, (if c.isPooled then b.miner.deployed x else 0) +
      (if c.isPooled ∧ x = sq then c.amount else 0) =
      if c.isPooled then b'.miner.deployed x else 0 := by
    intro x
    rw [hd]
    by_cases hp : c.isPooled = true
    · by_cases hx : x = sq
      · subst hx
        simp [hp, hzero]
      · simp [hp, hx]
    · simp [hp]
  refine ⟨?_, ?_, ?_, ?_, ?_, ?_, hstate, hpoolRound, ?_, ?_, ?_, fun _ => hrt ▸ hfits, ?_, howner⟩
  · rw [hround, h.round]
  · rw [hminer, h.miner]
  · intro x
    rw [hrd, hd]
    by_cases hx : x = sq
    · subst hx
      simp only [Function.update_self]
      omega
    · simp only [Function.update_of_ne hx]
      exact h.deployed x
  · intro x
    rw [hd, hcum]
    by_cases hx : x = sq
    · subst hx
      simp only [Function.update_self]
      omega
    · simp only [Function.update_of_ne hx]
      exact h.cumulative x
  · omega
  · rw [hamount, hd, sum_update_of_eq_zero hzero, h.amount]
  · intro hle x
    rw [hpool hle x, h.pool hle x, Nat.add_assoc, hif]
  · intro x
    have hx := hmember x
    have hb := h.member x
    have hi := hif x
    omega
  · intro x
    rw [hshared x, h.shared x, hd]
    by_cases hx : x = sq
    · subst hx
      simp [hzero]
    · simp [hx]
  · rcases hkept with hkept | hkept
    · rw [hkept]
      exact h.kept
    · exact .inr hkept

/-- Starting over drops what a member deployed in another round. -/
theorem share_current (p : PoolMember) (roundId : ℕ) (x : Square) :
    (if p.roundId ≠ roundId then p.resetForRound roundId else p).deployed x =
      p.membership.share roundId x := by
  by_cases h : p.roundId = roundId
  · simp [h, PoolMember.Membership.share, PoolMember.membership]
  · simp [h, PoolMember.Membership.share, PoolMember.membership, PoolMember.resetForRound]

/-- **Betting on a free square keeps the invariant.** -/
theorem deploySquare_spec (h : BetGrown c start b) (hzero : b.miner.deployed sq = 0) :
    Ensures (deploySquare c b sq) (BetGrown c start) := by
  have hid : b.round.id = start.round.id := by rw [h.round]
  simp only [deploySquare, ensures_bind, ensures_addU64, ensures_ite, ensures_pure]
  intro hfits htotal _
  refine ⟨fun hpooled => ?_, fun hpooled _ => ?_⟩
  · simp only [deployPooled, ensures_bind, ensures_pure]
    refine Ensures.mono (openPoolMember_spec (s := start.state) h.state) ?_
    rintro ⟨p, s₁⟩ ⟨hauth, hmembership, hstate⟩ _
    dsimp only at hauth hmembership hstate ⊢
    have hshare := fun x => share_current p b.round.id x
    rw [hid, hmembership] at hshare
    set q : PoolMember :=
      if p.roundId ≠ b.round.id then p.resetForRound b.round.id else p with hq
    have hqid : q.roundId = start.round.id := by
      rw [hq, hid]
      by_cases hp : p.roundId = start.round.id
      · simp [hp]
      · simp [hp, PoolMember.resetForRound]
    have hqauth : q.authority = c.authority := by
      rw [hq]
      by_cases hp : p.roundId = b.round.id
      · simpa [hp] using hauth
      · simpa [hp, PoolMember.resetForRound] using hauth
    have hqdeployed : ∀ x, q.deployed x = (membershipOf b.poolMember).share start.round.id x := by
      intro x
      rw [hq, hid]
      exact hshare x
    refine h.bet hzero rfl rfl rfl rfl rfl hstate ?_ ?_ ?_ ?_ htotal ?_ ?_
    · dsimp only [PoolRound.recordDeploy]
      rw [h.poolRound]
    · -- The pool deployed no more than everyone did, so its sum fits as well.
      intro hle x
      dsimp only [PoolRound.recordDeploy]
      by_cases hx : x = sq
      · subst hx
        have hpool := h.pool hle x
        have hround := h.deployed x
        have hlex := hle x
        rw [hzero] at hpool hround
        have hsame : (if c.isPooled then 0 else 0) = 0 := by simp
        rw [hsame] at hpool
        rw [Function.update_self, saturatingAddU64_of_lt (by omega)]
        simp [hpooled]
      · simp [hx]
    · intro x
      have hx : (membershipOf (some (q.recordDeploy sq c.amount))).share start.round.id x =
          (Function.update q.deployed sq (saturatingAddU64 (q.deployed sq) c.amount)) x := by
        simp [membershipOf, PoolMember.Membership.share, PoolMember.membership,
          PoolMember.recordDeploy, hqid]
      show (membershipOf (some (q.recordDeploy sq c.amount))).share start.round.id x ≤ _
      rw [hx]
      by_cases hsq : x = sq
      · subst hsq
        rw [Function.update_self, ← hqdeployed]
        simp only [hpooled, and_self, if_true, saturatingAddU64]
        exact Nat.min_le_left _ _
      · rw [Function.update_of_ne hsq, hqdeployed]
        exact Nat.le_add_right _ _
    · intro x
      have hx : (membershipOf (some (q.recordDeploy sq c.amount))).share start.round.id x =
          (Function.update q.deployed sq (saturatingAddU64 (q.deployed sq) c.amount)) x := by
        simp [membershipOf, PoolMember.Membership.share, PoolMember.membership,
          PoolMember.recordDeploy, hqid]
      show 0 < (membershipOf (some (q.recordDeploy sq c.amount))).share start.round.id x ↔ _
      rw [hx]
      by_cases hsq : x = sq
      · subst hsq
        rw [Function.update_self, ← hqdeployed]
        simp only [hpooled, true_and, saturatingAddU64, lt_min_iff]
        constructor
        · rintro ⟨hpos, -⟩
          omega
        · intro hpos
          exact ⟨by omega, by decide⟩
      · rw [Function.update_of_ne hsq, hqdeployed]
        simp [hsq]
    · exact .inr ⟨_, rfl, hqid⟩
    · rintro _ ⟨⟩
      exact hqauth
  · refine h.bet hzero rfl rfl rfl rfl rfl h.state h.poolRound ?_ ?_ ?_ htotal (.inl rfl) h.owner
    · intro _ x
      simp [hpooled]
    · intro x
      simp [hpooled]
    · intro x
      simp [hpooled]

/-- **The loop keeps the invariant**, wherever it leaves. -/
theorem deployLoop_spec (squares : Square → Bool) (l : List Square) (h : BetGrown c start b) :
    Ensures (deployLoop c squares l b) (BetGrown c start) := by
  induction l generalizing b with
  | nil => exact ensures_ok.2 h
  | cons sq rest ih =>
    rw [deployLoop]
    split
    · exact ih h
    · split
      · exact ih h
      · next hfree =>
        simp only [ensures_bind, ensures_ite, ensures_pure]
        refine Ensures.mono (deploySquare_spec h (Nat.eq_zero_of_not_pos hfree)) fun b' hb' => ?_
        exact ensures_of_forall fun _ => ⟨fun _ => hb', fun _ => ih hb'⟩

/-- A bet on a square adds the amount. -/
theorem deploySquare_total (c : DeployContext) (b : Bet) (sq : Square) :
    Ensures (deploySquare c b sq) fun b' => b'.totalAmount = b.totalAmount + c.amount := by
  simp only [deploySquare, ensures_bind, ensures_addU64, ensures_ite, ensures_pure]
  exact fun _ _ _ => ⟨fun _ => ensures_of_forall fun _ _ => trivial, fun _ _ => trivial⟩

/-- The loop bets on the first square it selects, if any. -/
theorem deployLoop_total (squares : Square → Bool) (l : List Square) (b : Bet)
    (hfree : ∀ sq, b.miner.deployed sq = 0) :
    Ensures (deployLoop c squares l b) fun b' =>
      ((∃ sq ∈ l, squares sq = true) → b.totalAmount + c.amount ≤ b'.totalAmount) ∧
      ((∀ sq ∈ l, squares sq = false) → b'.totalAmount = b.totalAmount) ∧
      (c.amount = 0 → b'.totalAmount = b.totalAmount) := by
  -- From any bet on, the total only grows, and not at all when the amount is zero.
  have hgrows : ∀ (l : List Square) (b : Bet), Ensures (deployLoop c squares l b) fun b' =>
      b.totalAmount ≤ b'.totalAmount ∧ (c.amount = 0 → b'.totalAmount = b.totalAmount) := by
    intro l
    induction l with
    | nil => exact fun b => ensures_ok.2 ⟨le_refl _, fun _ => rfl⟩
    | cons sq rest ih =>
      intro b
      rw [deployLoop]
      split
      · exact ih b
      · split
        · exact ih b
        · simp only [ensures_bind, ensures_ite, ensures_pure]
          refine Ensures.mono (deploySquare_total c b sq) fun b₁ hb₁ => ?_
          refine ensures_of_forall fun _ => ⟨fun _ => ⟨by omega, fun _ => by omega⟩, fun _ => ?_⟩
          refine Ensures.mono (ih b₁) fun b₂ hb₂ => ?_
          obtain ⟨hle, hzero⟩ := hb₂
          refine ⟨by omega, fun h => ?_⟩
          have := hzero h
          omega
  induction l with
  | nil =>
    refine ensures_ok.2 ⟨?_, fun _ => rfl, fun _ => rfl⟩
    rintro ⟨sq, hsq, -⟩
    exact absurd hsq List.not_mem_nil
  | cons sq rest ih =>
    rw [deployLoop]
    split
    · next hskip =>
      refine Ensures.mono ih fun b' hb' => ?_
      obtain ⟨hsome, hnone, hzero⟩ := hb'
      refine ⟨?_, fun h => ?_, hzero⟩
      · rintro ⟨x, hx, hsel⟩
        rcases List.mem_cons.1 hx with rfl | hx
        · rw [hskip] at hsel
          cases hsel
        · exact hsome ⟨x, hx, hsel⟩
      · exact hnone fun x hx => h x (List.mem_cons_of_mem _ hx)
    · next hsel =>
      rw [if_neg (by rw [hfree sq]; exact lt_irrefl 0)]
      have hnot : ¬ ∀ x ∈ sq :: rest, squares x = false :=
        fun h => hsel (h sq (List.mem_cons_self ..))
      simp only [ensures_bind, ensures_ite, ensures_pure]
      refine Ensures.mono (deploySquare_total c b sq) fun b₁ hb₁ => ?_
      refine ensures_of_forall fun _ => ⟨fun _ => ⟨fun _ => hb₁.ge, fun h => absurd h hnot,
        fun h => by omega⟩, fun _ => ?_⟩
      refine Ensures.mono (hgrows rest b₁) fun b₂ hb₂ => ?_
      obtain ⟨hle, hzero⟩ := hb₂
      refine ⟨fun _ => by omega, fun h => absurd h hnot, fun h => ?_⟩
      have := hzero h
      omega

end Loop

/-! ## Paying -/

/-- Lamports reach a round: it gains `n`, and no round loses any. -/
def RoundGains (s s' : State) (k : Pubkey) (n : ℕ) : Prop :=
  ∀ j, IsRound j → s.lamports j + (if j = k then n else 0) ≤ s'.lamports j

theorem RoundGains.followed {s s' s'' : State} {k : Pubkey} {n : ℕ} (h : RoundGains s s' k n)
    (hl : Grew IsRound s'.lamports s''.lamports) : RoundGains s s'' k n :=
  fun j hj => (h j hj).trans (hl j hj)

theorem RoundGains.after {s s' s'' : State} {k : Pubkey} {n : ℕ}
    (hl : Grew IsRound s.lamports s'.lamports) (h : RoundGains s' s'' k n) :
    RoundGains s s'' k n :=
  fun j hj => (Nat.add_le_add_right (hl j hj) _).trans (h j hj)

theorem roundGains_of_moved {s : State} {l : Pubkey → ℕ} {source dest : Pubkey} {n : ℕ}
    (h : Moved s.lamports l source dest n) (hsource : ¬ IsRound source) :
    RoundGains s { s with lamports := l } dest n := by
  intro j hj
  have hne : j ≠ source := fun heq => hsource (heq ▸ hj)
  have hb := h.balance j
  rw [if_neg hne, Nat.add_zero] at hb
  exact hb.ge

theorem closeAutomation_quiet (automation : AutomationV2) (authority : Pubkey) (s : State) :
    Quiet s (closeAutomation automation authority s) ∧
      (closeAutomation automation authority s).tokens = s.tokens := by
  have hround : ¬ IsRound automation.pda := by
    rintro ⟨id, hid⟩
    cases hid
  have hclose : Quiet (s.releaseLamports automation.pda authority)
      (closeAutomation automation authority s) :=
    quiet_of_eq rfl rfl rfl rfl rfl rfl rfl rfl rfl rfl (.of_eq rfl rfl rfl rfl)
  exact ⟨(releaseLamports_quiet s authority hround).trans hclose, rfl⟩

/-- The bet is paid into the round. -/
theorem payBet_spec {a : DeployAccounts} {authority : Pubkey} (total : ℕ)
    (automation : Option AutomationV2) (s : State) (hsigner : a.signerInfo.isSigner = true)
    (hkey : a.automationV2Info.key = .automationV2Pda authority) :
    Ensures (payBet a total automation s) fun s' =>
      Quiet s s' ∧ s'.tokens = s.tokens ∧ RoundGains s s' a.roundInfo.key total := by
  have hround : ¬ IsRound a.automationV2Info.key := by
    rw [hkey]
    rintro ⟨id, hid⟩
    cases hid
  unfold payBet
  split
  · next automation =>
    simp only [ensures_bind, ensures_addU64, ensures_subU64, ensures_ite, ensures_pure]
    intro _ _
    set automation' : AutomationV2 := { automation with
      balance := automation.balance - (total + automation.fee) }
    have hput : Quiet s { s with automations := s.automations.put automation' } :=
      quiet_of_eq rfl rfl rfl rfl rfl rfl rfl rfl rfl rfl (.of_eq rfl rfl rfl rfl)
    refine Ensures.mono (State.send_spec _ _ _ _) ?_
    rintro _ ⟨l, rfl, hl⟩
    refine Ensures.mono (State.send_spec _ _ _ _) ?_
    rintro _ ⟨l', rfl, hl'⟩ _
    have hpaid : Quiet s { s with
        automations := s.automations.put automation', lamports := l } :=
      hput.trans (quiet_lamports (hl.grew hround))
    have hgains : RoundGains s { s with
        automations := s.automations.put automation', lamports := l } a.roundInfo.key total :=
      roundGains_of_moved hl hround
    have hfee : Quiet s { s with
        automations := s.automations.put automation', lamports := l' } :=
      hpaid.trans (quiet_lamports (hl'.grew hround))
    have hgains' : RoundGains s { s with
        automations := s.automations.put automation', lamports := l' } a.roundInfo.key total :=
      hgains.followed (hl'.grew hround)
    refine ⟨fun _ => ?_, fun _ => ⟨hfee, rfl, hgains'⟩⟩
    obtain ⟨hclose, htokens⟩ := closeAutomation_quiet automation' a.authorityInfo.key { s with
        automations := s.automations.put automation', lamports := l' }
    exact ⟨hfee.trans hclose, htokens, hgains'.followed hclose.funds.rounds⟩
  · refine Ensures.mono ((collect_quiet s _ _ _).and (State.collect_spec s _ _ _)) ?_
    rintro _ ⟨hquiet, l, rfl, hl, -⟩
    exact ⟨hquiet, rfl, roundGains_of_moved hl (signer_not_isRound hsigner)⟩

/-- The bet is booked: besides the accounts that the loop worked on, only lamports change. -/
theorem finishBet_spec (c : DeployContext) (minerInfo : AccountInfo) (b : Bet) :
    Ensures (finishBet c minerInfo b) fun s' => ∃ m l, s' = { saveBet { b with miner := m } with
      lamports := l } ∧ Grew IsDerived b.state.lamports l ∧ m.authority = b.miner.authority ∧
      m.wager = b.miner.wager ∧ m.ledger = b.miner.ledger := by
  simp only [finishBet, ensures_bind, ensures_addU64, ensures_ite, ensures_pure,
    ensures_fromOption, ensures_require]
  intro _
  refine ⟨fun hfee => ?_, fun hfee => ?_⟩
  · refine Ensures.mono (State.collect_spec _ _ _ _) ?_
    rintro _ ⟨l, rfl, -, hl⟩
    have h : ∃ m l', ({ saveBet { b with miner := { b.miner with
          lifetimeDeployed := b.miner.lifetimeDeployed + b.totalAmount
          checkpointFee := checkpointFee } } with lamports := l } : State) =
        { saveBet { b with miner := m } with lamports := l' } ∧
        Grew IsDerived b.state.lamports l' ∧ m.authority = b.miner.authority ∧
        m.wager = b.miner.wager ∧ m.ledger = b.miner.ledger :=
      ⟨_, l, rfl, hl, rfl, rfl, rfl⟩
    simp only [hfee, if_true]
    exact ⟨fun _ _ _ _ => h, fun _ => h⟩
  · have h : ∃ m l', saveBet { b with miner := { b.miner with
          lifetimeDeployed := b.miner.lifetimeDeployed + b.totalAmount } } =
        { saveBet { b with miner := m } with lamports := l' } ∧
        Grew IsDerived b.state.lamports l' ∧ m.authority = b.miner.authority ∧
        m.wager = b.miner.wager ∧ m.ledger = b.miner.ledger :=
      ⟨_, b.state.lamports, rfl, Grew.refl _ _, rfl, rfl, rfl⟩
    simp only [hfee, if_false]
    exact ⟨fun _ _ _ _ => h, fun _ => h⟩

/-! ## What a deployment does to the books -/

/-- A miner may bet on a round: it is done with the one it played last, or it has not bet
on this one yet. -/
def Miner.Wager.Ready (w : Miner.Wager) (roundId : ℕ) : Prop :=
  (w.roundId ≠ roundId ∧ w.checkpointId = w.roundId) ∨
    (w.roundId = roundId ∧ w.deployed = fun _ => 0)

/-- The first deployment of a round starts its clock; the others leave it running. -/
inductive RoundClock (clock : Clock) (s : State) (round round' : Round) (board' : Board) : Prop
  | running (started : s.board.endSlot ≠ u64Max) (board : board' = s.board)
      (expiresAt : round'.expiresAt = round.expiresAt)
  | starts (stopped : s.board.endSlot = u64Max)
      (fits : clock.slot + s.config.getRoundSlots + oneDaySlots < u64Bound)
      (board : board' =
        ⟨s.board.roundId, clock.slot, clock.slot + s.config.getRoundSlots⟩)
      (expiresAt : round'.expiresAt = clock.slot + s.config.getRoundSlots + oneDaySlots)

/-- The clock does not change which round is played. -/
theorem RoundClock.roundId {clock : Clock} {s : State} {round round' : Round} {board' : Board}
    (h : RoundClock clock s round round' board') : board'.roundId = s.board.roundId := by
  cases h with
  | running _ hboard => rw [hboard]
  | starts _ _ hboard => rw [hboard]

/-- The miner of `authority` bets on the current round. -/
structure Wagered (clock : Clock) (s s' : State) (authority : Pubkey) (round round' : Round)
    (pool pool' : PoolRound) (wager : Miner.Wager) (member : PoolMember.Membership)
    (isPooled : Bool) : Prop where
  open_ : s.board.startSlot ≤ clock.slot ∧ clock.slot < s.board.endSlot
  clockwork : RoundClock clock s round round' s'.board
  getRound : s.rounds.get (.roundPda s.board.roundId) = some round
  getPool : s.poolRounds.get (.poolRoundPda s.board.roundId) = some pool
  ready : (s.wagers (.minerPda authority)).Ready s.board.roundId
  wagerId : wager.roundId = s.board.roundId
  checkpointId : wager.checkpointId = (s.wagers (.minerPda authority)).checkpointId
  frame : round' = { round with
    deployed := round'.deployed, count := round'.count
    totalDeployed := round'.totalDeployed, expiresAt := round'.expiresAt }
  deployed : ∀ sq, round'.deployed sq = round.deployed sq + wager.deployed sq
  cumulative : ∀ sq, 0 < wager.deployed sq → wager.cumulative sq = round.deployed sq
  total : round'.totalDeployed = round.totalDeployed + ∑ sq, wager.deployed sq
  poolFrame : pool' = { pool with
    deployed := pool'.deployed, count := pool'.count, totalDeployed := pool'.totalDeployed }
  poolDeployed : (∀ sq, pool.deployed sq ≤ round.deployed sq) → ∀ sq,
    pool'.deployed sq = pool.deployed sq + if isPooled then wager.deployed sq else 0
  share : ∀ sq, member.share s.board.roundId sq ≤
    (s.memberships (.poolMemberPda authority)).share s.board.roundId sq +
      if isPooled then wager.deployed sq else 0
  shared : ∀ sq, 0 < member.share s.board.roundId sq ↔
    0 < (s.memberships (.poolMemberPda authority)).share s.board.roundId sq ∨
      (isPooled = true ∧ 0 < wager.deployed sq)
  fits : round.totalDeployed < u64Bound → round'.totalDeployed < u64Bound
  kept : member = s.memberships (.poolMemberPda authority) ∨ member.roundId = s.board.roundId
  rounds : s'.rounds = s.rounds.put round'
  poolRounds : s'.poolRounds = s.poolRounds.put pool'
  wagers : s'.wagers = Function.update s.wagers (.minerPda authority) wager
  memberships : s'.memberships =
    Function.update s.memberships (.poolMemberPda authority) member
  stakes : SameStakes s s'
  ledger : SameLedger s s'
  gold : GoldStep s s' 0
  motherlode : s'.treasury.motherlode = s.treasury.motherlode
  opened : ∀ w, s.opened w = true → s'.opened w = true
  tokens : s'.tokens = s.tokens
  supply : s'.mintSupply ≤ s.mintSupply

section Wagered

variable {clock : Clock} {s s' s'' : State} {authority : Pubkey} {round round' : Round}
  {pool pool' : PoolRound} {wager : Miner.Wager} {member : PoolMember.Membership}
  {isPooled : Bool}

theorem Wagered.roundId
    (h : Wagered clock s s' authority round round' pool pool' wager member isPooled) :
    s'.board.roundId = s.board.roundId := h.clockwork.roundId

theorem Wagered.round_pda
    (h : Wagered clock s s' authority round round' pool pool' wager member isPooled) :
    round'.pda = .roundPda s.board.roundId := by
  have hround : Round.pda round = .roundPda s.board.roundId :=
    s.rounds.key_of_get _ _ h.getRound
  rw [h.frame, ← hround]
  rfl

/-- The current round is written back. -/
theorem Wagered.getRound_after
    (h : Wagered clock s s' authority round round' pool pool' wager member isPooled) :
    s'.rounds.get (.roundPda s.board.roundId) = some round' := by
  rw [h.rounds, ← h.round_pda, Store.get_put_self]

/-- No other round is. -/
theorem Wagered.getRound_of_ne
    (h : Wagered clock s s' authority round round' pool pool' wager member isPooled) {id : ℕ}
    (hid : id ≠ s.board.roundId) :
    s'.rounds.get (.roundPda id) = s.rounds.get (.roundPda id) := by
  rw [h.rounds]
  refine Store.get_put_of_ne _ ?_
  rw [h.round_pda]
  simpa using hid

/-- A deployment writes to the current round and its pool. -/
theorem Wagered.getPool_after
    (h : Wagered clock s s' authority round round' pool pool' wager member isPooled) (id : ℕ) :
    s'.poolRounds.get (.poolRoundPda id) =
      if id = s.board.roundId then some pool' else s.poolRounds.get (.poolRoundPda id) := by
  have hpda : pool'.pda = .poolRoundPda s.board.roundId := by
    have hpool : PoolRound.pda pool = .poolRoundPda s.board.roundId :=
      s.poolRounds.key_of_get _ _ h.getPool
    rw [h.poolFrame, ← hpool]
    rfl
  rw [h.poolRounds, Store.get_put, hpda]
  simp only [Pubkey.poolRoundPda.injEq]

theorem Wagered.quiet
    (h : Wagered clock s s' authority round round' pool pool' wager member isPooled)
    (hq : Quiet s' s'') (htokens : s''.tokens = s'.tokens) :
    Wagered clock s s'' authority round round' pool pool' wager member isPooled :=
  { h with
    clockwork := by rw [hq.game.board]; exact h.clockwork
    rounds := hq.game.rounds.trans h.rounds
    poolRounds := hq.game.poolRounds.trans h.poolRounds
    wagers := hq.game.wagers.trans h.wagers
    memberships := hq.game.memberships.trans h.memberships
    stakes := h.stakes.trans hq.stakes
    ledger := h.ledger.trans hq.ledger
    gold := h.gold.same hq.gold hq.ledger.ledgers
    motherlode := hq.motherlode.trans h.motherlode
    opened := fun w hw => hq.funds.opened w (h.opened w hw)
    tokens := htokens.trans h.tokens
    supply := hq.funds.supply.trans h.supply }

/-- What is done before the bet: the round's clock may start, accounts are opened. -/
structure Prepared (clock : Clock) (s s₁ : State) (round round₁ : Round) : Prop where
  state : ∃ (b : Board) (v : Pubkey → Option Var) (l : Pubkey → ℕ)
    (t : Store Pubkey MinerExtended MinerExtended.pda), s₁ = { s with
      board := b, vars := v, lamports := l, minersExtended := t } ∧
    Grew IsDerived s.lamports l
  open_ : s.board.startSlot ≤ clock.slot ∧ clock.slot < s.board.endSlot
  clockwork : RoundClock clock s round round₁ s₁.board
  gold : GoldStep s s₁ 0
  round : round₁ = { round with expiresAt := round₁.expiresAt }

/-- A bet that was placed is saved. -/
theorem wagered_of_saved {c : DeployContext} {start b : Bet} {m : Miner} {l : Pubkey → ℕ}
    (hround : s.rounds.get (.roundPda s.board.roundId) = some round)
    (hpool : s.poolRounds.get (.poolRoundPda s.board.roundId) = some pool)
    (hprepared : Prepared clock s start.state round start.round)
    (hready : (s.wagers (.minerPda c.authority)).Ready s.board.roundId)
    (hid : start.miner.roundId = s.board.roundId)
    (hcheckpoint : start.miner.checkpointId =
      (s.wagers (.minerPda c.authority)).checkpointId)
    (hledger : s.ledgers (.minerPda c.authority) = start.miner.ledger)
    (hauth : start.miner.authority = c.authority) (hpoolRound : start.poolRound = pool)
    (hmember : start.poolMember = s.poolMembers.get (.poolMemberPda c.authority))
    (hgrown : BetGrown c start b) (hmauth : m.authority = b.miner.authority)
    (hmwager : m.wager = b.miner.wager) (hmledger : m.ledger = b.miner.ledger) :
    Wagered clock s { saveBet { b with miner := m } with lamports := l } c.authority round b.round
      pool b.poolRound b.miner.wager (membershipOf b.poolMember) c.isPooled := by
  obtain ⟨l₁, hstate, -⟩ := hgrown.state
  obtain ⟨bd, v, l₀, t, hs₁, -⟩ := hprepared.state
  have hclock := hprepared.clockwork
  have hgold := hprepared.gold
  have hroundId := roundId_of_get hround
  have hstartId : start.round.id = s.board.roundId := by rw [hprepared.round, ← hroundId]
  have hbauth : b.miner.authority = c.authority := by rw [hgrown.miner, ← hauth]
  have hmpda : m.pda = .minerPda c.authority := by rw [Miner.pda, hmauth, hbauth]
  have hbledger : m.ledger = s.ledgers (.minerPda c.authority) := by
    rw [hmledger, hgrown.miner, hledger]
    rfl
  have hstartDeployed : start.round.deployed = round.deployed := by rw [hprepared.round]
  have hstartTotal : start.round.totalDeployed = round.totalDeployed := by rw [hprepared.round]
  have hstartMember : membershipOf start.poolMember =
      s.memberships (.poolMemberPda c.authority) := by rw [hmember]; rfl
  have hstore : b.state.poolMembers = s.poolMembers := by rw [hstate, hs₁]
  have hmembers : (saveBet b).poolMembers.view ⟨0, fun _ => 0⟩ PoolMember.membership =
      Function.update s.memberships (.poolMemberPda c.authority) (membershipOf b.poolMember) := by
    simp only [saveBet, hstore]
    cases hb : b.poolMember with
    | none =>
      -- A member never disappears, so there was none.
      have hnone : start.poolMember = none := by
        rcases hgrown.kept with hkept | ⟨p, hp, -⟩
        · rw [← hkept, hb]
        · rw [hb] at hp
          cases hp
      rw [hnone] at hstartMember
      rw [hstartMember, Function.update_eq_self]
      rfl
    | some p =>
      have hp := hgrown.owner p hb
      have hpda : p.pda = .poolMemberPda c.authority := by rw [PoolMember.pda, hp]
      dsimp only
      rw [Store.view_put, hpda]
      rfl
  have hwagers : (s.miners.put m).view ⟨0, 0, fun _ => 0, fun _ => 0⟩ Miner.wager =
      Function.update s.wagers (.minerPda c.authority) b.miner.wager := by
    rw [Store.view_put, hmpda, hmwager]
    rfl
  have hledgers : (s.miners.put m).view ⟨⟨0, 0, 0⟩, 0⟩ Miner.ledger = s.ledgers :=
    Store.view_put_of_eq (by rw [hmpda]; exact hbledger.symm)
  simp only [saveBet, hstore] at hmembers
  rw [saveBet, hstate, hs₁]
  refine ⟨hprepared.open_, ?_, hround, hpool, hready, ?_, ?_, ?_, ?_, ?_, ?_, ?_, ?_, ?_, ?_,
    fun hfits => hgrown.fits (by rwa [hstartTotal]), ?_, rfl, rfl, hwagers, hmembers,
    ⟨rfl, rfl, rfl, rfl⟩, ⟨hledgers, rfl, rfl, rfl⟩, ?_, rfl, fun _ h => h, rfl, le_refl _⟩
  · rw [hs₁] at hclock
    have hexpires : b.round.expiresAt = start.round.expiresAt := by rw [hgrown.round]
    rcases hclock with ⟨hstarted, hboard, hsame⟩ | ⟨hstopped, hfits, hboard, hexpiry⟩
    · exact .running hstarted hboard (hexpires.trans hsame)
    · exact .starts hstopped hfits hboard (hexpires.trans hexpiry)
  · show b.miner.roundId = _
    rw [hgrown.miner]
    exact hid
  · show b.miner.checkpointId = _
    rw [hgrown.miner]
    exact hcheckpoint
  · rw [hgrown.round, hprepared.round]
  · intro sq
    rw [hgrown.deployed, hstartDeployed]
    rfl
  · intro sq hsq
    rw [← hstartDeployed]
    exact hgrown.cumulative sq hsq
  · rw [hgrown.total, hgrown.amount, hstartTotal]
    rfl
  · rw [hgrown.poolRound, hpoolRound]
  · intro hle sq
    rw [hgrown.pool (by rw [hpoolRound, hstartDeployed]; exact hle), hpoolRound]
    rfl
  · intro sq
    have h := hgrown.member sq
    rw [hstartMember, hstartId] at h
    exact h
  · intro sq
    have h := hgrown.shared sq
    rw [hstartMember, hstartId] at h
    exact h
  · rcases hgrown.kept with hkept | ⟨p, hp, hpid⟩
    · rw [hkept, hstartMember]
      exact .inl rfl
    · right
      rw [hp, ← hstartId]
      exact hpid
  · rw [hs₁] at hgold
    exact hgold.same ⟨rfl, rfl⟩ hledgers

end Wagered

/-! ## The instructions -/

/-- What a deployment of `authority` does: it bets, through the pool or not, and pays what
it bets into the round; whether it `places` anything at all. -/
def DeployedBy (clock : Clock) (authority : Pubkey) (isPooled : Bool) (places : Prop)
    (s s' : State) : Prop :=
  ∃ round round' pool pool' wager member,
    Wagered clock s s' authority round round' pool pool' wager member isPooled ∧
    RoundGains s s' (.roundPda s.board.roundId) (∑ sq, wager.deployed sq) ∧
    (0 < ∑ sq, wager.deployed sq ↔ places)

/-- What any deployment does. -/
def Deployed (clock : Clock) (s s' : State) : Prop :=
  ∃ authority round round' pool pool' wager member isPooled,
    Wagered clock s s' authority round round' pool pool' wager member isPooled ∧
    RoundGains s s' (.roundPda s.board.roundId) (∑ sq, wager.deployed sq)

theorem DeployedBy.deployed {clock : Clock} {authority : Pubkey} {isPooled : Bool}
    {places : Prop} {s s' : State} (h : DeployedBy clock authority isPooled places s s') :
    Deployed clock s s' := by
  obtain ⟨round, round', pool, pool', wager, member, hwagered, hgains, -⟩ := h
  exact ⟨authority, round, round', pool, pool', wager, member, isPooled, hwagered, hgains⟩

/-- What a deployment puts on each square. -/
def DeployArgs.betAmount (args : DeployArgs) (automation : Option AutomationV2) : ℕ :=
  automation.elim args.amount AutomationV2.amount

/-- Whether a deployment goes through the pool. -/
def DeployArgs.betPooled (args : DeployArgs) (automation : Option AutomationV2) : Bool :=
  automation.elim args.isPooled AutomationV2.getIsPooled

/-- A deployment with these squares places something: some square is selected, the amount
is not zero, and an automation can pay for all squares and the fee. -/
def Places (args : DeployArgs) (automation : Option AutomationV2) (squares : Square → Bool) :
    Prop :=
  (∃ sq, squares sq = true) ∧ 0 < args.betAmount automation ∧
    ∀ a, automation = some a → a.amount * squareList.countP squares + a.fee ≤ a.balance

/-- A deployment in a round would place something. -/
def PlacesBet (env : Env) (args : DeployArgs) (round : Round) (automation : Option AutomationV2) :
    Prop :=
  ∃ squares, deploySquares env args round automation = .ok squares ∧
    Places args automation squares

theorem placesBet_iff {env : Env} {args : DeployArgs} {round : Round}
    {automation : Option AutomationV2} {squares : Square → Bool}
    (h : deploySquares env args round automation = .ok squares) :
    PlacesBet env args round automation = Places args automation squares := by
  refine propext ⟨?_, fun hplaces => ⟨squares, h, hplaces⟩⟩
  rintro ⟨squares', h', hplaces⟩
  rw [h] at h'
  cases h'
  exact hplaces

/-- A miner without deployments may deploy on every selected square. -/
theorem squaresToDeploy_of_zero (squares : Square → Bool) {miner : Miner}
    (h : miner.deployed = fun _ => 0) :
    squaresToDeploy squares miner = squareList.countP squares := by
  simp [squaresToDeploy, h]

theorem canAfford_spec (amount squares : ℕ) (automation : AutomationV2) :
    Ensures (canAfford amount squares automation) fun b =>
      b = true ↔ amount * squares + automation.fee ≤ automation.balance := by
  simp only [canAfford, ensures_bind, ensures_mulU64, ensures_addU64, ensures_pure]
  exact fun _ _ => decide_eq_true_iff

/-- An account that an automation was loaded from is that automation. -/
theorem loadAutomation_spec (a : DeployAccounts) (s : State) :
    Ensures (loadAutomation a s) fun o => o = s.automations.get a.automationV2Info.key ∧
      ∀ x, o = some x → a.signerInfo.key = x.executor := by
  unfold loadAutomation
  split
  · next hempty =>
    simp only [ensures_bind, ensures_require, ensures_pure]
    exact fun _ => ⟨(State.noData hempty).automations.symm, fun _ h => absurd h (by simp)⟩
  · simp only [ensures_bind, ensures_require, ensures_fromOption, ensures_pure]
    intro y hy hexecutor _
    refine ⟨hy.symm, ?_⟩
    rintro _ ⟨⟩
    exact hexecutor.symm

/-- The squares depend on which round it is, not on what was deployed there. -/
theorem deploySquares_congr (env : Env) (args : DeployArgs) {round round₁ : Round}
    (h : round₁.id = round.id) (automation : Option AutomationV2) :
    deploySquares env args round₁ automation = deploySquares env args round automation := by
  cases automation with
  | none => rfl
  | some automation => simp only [deploySquares, h]

/-- A miner that starts on a round has bet nothing there yet. -/
theorem resetMiner_spec (round : Round) (miner : Miner) :
    Ensures (resetMiner round miner) fun m => miner.wager.Ready round.id ∧
      (m.deployed = fun _ => 0) ∧ m.roundId = round.id ∧ m.checkpointId = miner.checkpointId ∧
      m.authority = miner.authority ∧ m.ledger = miner.ledger := by
  unfold resetMiner
  split
  · next hnew =>
    simp only [ensures_bind, ensures_require, ensures_pure]
    exact fun hdone => ⟨.inl ⟨hnew, hdone⟩, trivial, trivial, trivial, trivial, rfl⟩
  · next hold =>
    simp only [ensures_bind, ensures_require, ensures_pure]
    have hid : miner.roundId = round.id := not_not.1 hold
    exact fun hzero => ⟨.inr ⟨hid, hzero⟩, hzero, hid, trivial, trivial, trivial⟩

section Place

variable {clock : Clock} {s s₁ : State} {round round₁ : Round} {pool : PoolRound}
  {miner : Miner} {a : DeployAccounts}

theorem Prepared.grew (h : Prepared clock s s₁ round round₁) :
    Grew IsRound s.lamports s₁.lamports := by
  obtain ⟨b, v, l, t, rfl, hl⟩ := h.state
  exact hl.mono fun _ => isDerived_of_isRound

theorem placeBet_spec (clock : Clock) (args : DeployArgs) (automation : Option AutomationV2)
    (squares : Square → Bool) (hsigner : a.signerInfo.isSigner = true)
    (hautomation : a.automationV2Info.key = .automationV2Pda a.authorityInfo.key)
    (hround : s.rounds.get a.roundInfo.key = some round) (hroundId : round.id = s.board.roundId)
    (hpool : s.poolRounds.get a.poolRoundInfo.key = some pool) (hpoolId : pool.id = round.id)
    (hmemberKey : a.poolMemberInfo.key = .poolMemberPda a.authorityInfo.key)
    (hprepared : Prepared clock s s₁ round round₁)
    (hready : (s.wagers (.minerPda a.authorityInfo.key)).Ready round.id)
    (hzero : miner.deployed = fun _ => 0) (hid : miner.roundId = round.id)
    (hcheckpoint : miner.checkpointId =
      (s.wagers (.minerPda a.authorityInfo.key)).checkpointId)
    (hledger : s.ledgers (.minerPda a.authorityInfo.key) = miner.ledger)
    (hauth : miner.authority = a.authorityInfo.key) :
    Ensures (placeBet args a automation squares round₁ pool miner s₁)
      (DeployedBy clock a.authorityInfo.key (args.betPooled automation)
        (Places args automation squares) s) := by
  have hroundKey : a.roundInfo.key = .roundPda s.board.roundId := by
    rw [← hroundId]
    exact (s.rounds.key_of_get _ _ hround).symm
  have hpoolKey : a.poolRoundInfo.key = .poolRoundPda s.board.roundId := by
    rw [← hroundId, ← hpoolId]
    exact (s.poolRounds.key_of_get _ _ hpool).symm
  rw [hroundKey] at hround
  rw [hpoolKey] at hpool
  rw [hroundId] at hready hid
  have hs₁ := hprepared.state
  have hmembers : s₁.poolMembers.get a.poolMemberInfo.key =
      s.poolMembers.get (.poolMemberPda a.authorityInfo.key) := by
    obtain ⟨b, v, l, t, rfl, -⟩ := hs₁
    rw [hmemberKey]
  set start : Bet :=
    ⟨s₁, round₁, pool, miner, s₁.poolMembers.get a.poolMemberInfo.key, 0⟩ with hstart
  have howner : ∀ p, start.poolMember = some p → p.authority = a.authorityInfo.key := by
    intro p hp
    have hkey : Pubkey.poolMemberPda p.authority = _ := s₁.poolMembers.key_of_get _ _ hp
    rw [hmemberKey] at hkey
    injection hkey
  -- Whatever was bet, saving it is a deployment.
  have hsaved : ∀ (c : DeployContext) (b : Bet) (m : Miner) (l : Pubkey → ℕ),
      c.authority = a.authorityInfo.key → BetGrown c start b → m.authority = b.miner.authority →
      m.wager = b.miner.wager → m.ledger = b.miner.ledger →
      Wagered clock s { saveBet { b with miner := m } with lamports := l } a.authorityInfo.key
        round b.round pool b.poolRound b.miner.wager (membershipOf b.poolMember) c.isPooled := by
    intro c b m l hc hgrown hmauth hmwager hmledger
    rw [← hc] at hready hcheckpoint hledger hauth hmembers ⊢
    exact wagered_of_saved hround hpool hprepared hready hid hcheckpoint hledger hauth rfl
      hmembers hgrown hmauth hmwager hmledger
  -- A bet that cannot be afforded is saved as it started: nothing is deployed.
  have hnone : ∀ s', Quiet (saveBet start) s' → s'.tokens = (saveBet start).tokens →
      ¬ Places args automation squares → DeployedBy clock a.authorityInfo.key
        (args.betPooled automation) (Places args automation squares) s s' := by
    intro s' hquiet htokens hplaces
    have hbet := hsaved ⟨0, args.betPooled automation, automation, a.authorityInfo.key,
      a.signerInfo, a.poolMemberInfo⟩ start miner s₁.lamports rfl
      (BetGrown.refl hzero rfl howner) rfl rfl rfl
    have hsum : ∑ sq, miner.wager.deployed sq = 0 := by simp [Miner.wager, hzero]
    refine ⟨_, _, _, _, _, _, hbet.quiet hquiet htokens, ?_, ?_⟩
    swap
    · show 0 < ∑ sq, miner.wager.deployed sq ↔ _
      rw [hsum]
      exact ⟨fun h => absurd h (lt_irrefl 0), fun h => absurd h hplaces⟩
    intro j hj
    have hgrew := hprepared.grew j hj
    have hlast := hquiet.funds.rounds j hj
    show s.lamports j + (if j = _ then ∑ sq, miner.wager.deployed sq else 0) ≤ _
    rw [hsum, ite_self, Nat.add_zero]
    exact hgrew.trans hlast
  have hplaced : ∀ c : DeployContext, c.authority = a.authorityInfo.key →
      c.isPooled = args.betPooled automation → c.amount = args.betAmount automation →
      (∀ a, automation = some a → a.amount * squareList.countP squares + a.fee ≤ a.balance) →
      Ensures (do
        let b ← deployLoop c squares squareList start
        let s ← finishBet c a.minerInfo b
        payBet a b.totalAmount automation s) (DeployedBy clock a.authorityInfo.key
          (args.betPooled automation) (Places args automation squares) s) := by
    intro c hc hpooled hamount hafford
    simp only [ensures_bind]
    refine Ensures.mono ((deployLoop_spec (c := c) squares squareList
      (BetGrown.refl hzero rfl (by rw [hc]; exact howner))).and
      (deployLoop_total squares squareList start fun sq => congrFun hzero sq))
      fun b hb => ?_
    obtain ⟨hgrown, hsome, hempty, hfree⟩ := hb
    refine Ensures.mono (finishBet_spec _ _ b) ?_
    rintro _ ⟨m, l, rfl, hl, hmauth, hmwager, hmledger⟩
    refine Ensures.mono (payBet_spec b.totalAmount automation _ hsigner hautomation) ?_
    rintro s' ⟨hquiet, htokens, hgains⟩
    have hbet := hsaved c b m l hc hgrown hmauth hmwager hmledger
    rw [hpooled] at hbet
    refine ⟨_, _, _, _, _, _, hbet.quiet hquiet htokens, ?_, ?_⟩
    swap
    · show 0 < ∑ sq, b.miner.deployed sq ↔ _
      have hstart : start.totalAmount = 0 := rfl
      rw [hstart] at hsome hempty hfree
      rw [← hgrown.amount, Places, ← hamount]
      constructor
      · intro hpos
        refine ⟨?_, ?_, hafford⟩
        · by_contra hnot
          have hzero := hempty fun sq _ => Bool.eq_false_iff.2 fun h => hnot ⟨sq, h⟩
          omega
        · by_contra hnot
          have hzero := hfree (by omega)
          omega
      · rintro ⟨⟨sq, hsq⟩, hpos, -⟩
        have hle := hsome ⟨sq, List.mem_finRange sq, hsq⟩
        omega
    have hbefore : Grew IsRound s.lamports l := by
      obtain ⟨l₁, hstate, hl₁⟩ := hgrown.state
      rw [hstate] at hl
      exact hprepared.grew.trans ((hl₁.trans hl).mono fun _ => isDerived_of_isRound)
    have htotal := RoundGains.after hbefore hgains
    rw [hroundKey, hgrown.amount] at htotal
    exact htotal
  cases automation with
  | some automation =>
    simp only [placeBet, ensures_bind, ensures_ite]
    refine Ensures.mono (canAfford_spec _ _ automation) fun affordable haffordable =>
      ⟨fun hafford => ?_, fun hafford => ?_⟩
    all_goals rw [squaresToDeploy_of_zero squares hzero] at haffordable
    · have hfunded := haffordable.1 hafford
      simpa only [ensures_bind] using hplaced ⟨automation.amount, automation.getIsPooled,
        some automation, a.authorityInfo.key, a.signerInfo, a.poolMemberInfo⟩ rfl rfl rfl
        (by simpa using hfunded)
    · obtain ⟨hquiet, htokens⟩ :=
        closeAutomation_quiet automation a.authorityInfo.key (saveBet start)
      refine ensures_pure.2 (hnone _ hquiet htokens fun h => hafford ?_)
      exact haffordable.2 (h.2.2 automation rfl)
  | none =>
    have h := hplaced ⟨args.amount, args.isPooled, none, a.authorityInfo.key, a.signerInfo,
      a.poolMemberInfo⟩ rfl rfl rfl (by simp)
    simpa [placeBet] using h

end Place

section Body

variable {s : State}

/-- What the checks on the accounts of a deployment establish. -/
structure DeployChecked (clock : Clock) (a : DeployAccounts) (s : State) (round : Round)
    (pool : PoolRound) : Prop where
  signer : a.signerInfo.isSigner = true
  automation : a.automationV2Info.key = .automationV2Pda a.authorityInfo.key
  getRound : s.rounds.get a.roundInfo.key = some round
  roundId : round.id = s.board.roundId
  getPool : s.poolRounds.get a.poolRoundInfo.key = some pool
  poolId : pool.id = round.id
  miner : a.minerInfo.key = .minerPda a.authorityInfo.key
  member : a.poolMemberInfo.key = .poolMemberPda a.authorityInfo.key
  open_ : s.board.startSlot ≤ clock.slot ∧ clock.slot < s.board.endSlot

theorem checkDeployAccounts_spec (clock : Clock) (a : DeployAccounts) (s : State) :
    Ensures (checkDeployAccounts clock a s) fun p => DeployChecked clock a s p.1 p.2 := by
  simp only [checkDeployAccounts, ensures_bind, ensures_require, ensures_fromOption, ensures_pure]
  intro hsigner _ _ hautomation _ _ hopen round hround hid pool hpool hpoolId _ hminer _ hmember _
  exact ⟨hsigner, hautomation, hround, hid, hpool, hpoolId, hminer, hmember, hopen⟩

/-- Starting the clock changes the slots of the board and asks for entropy. -/
theorem openRound_spec (clock : Clock) (env : Env) (a : DeployAccounts)
    (entropyAccounts : List AccountInfo) (cpi : Cpi) (round : Round) (s : State) :
    Ensures (openRound clock env a entropyAccounts cpi round s) fun p =>
      p.1 = { round with expiresAt := p.1.expiresAt } ∧
      ∃ (b : Board) (v : Pubkey → Option Var), p.2 = { s with board := b, vars := v } ∧
        RoundClock clock s round p.1 b := by
  unfold openRound
  split
  · next hstopped =>
    simp only [startRound, ensures_bind, ensures_addU64]
    intro _ hfits
    split
    · simp only [ensures_bind, ensures_require, ensures_fromOption, ensures_pure]
      intro _ _ _ _ _ var _
      exact ⟨trivial, _, _, rfl, .starts hstopped hfits rfl rfl⟩
    · exact ensures_throw.2 trivial
  · next hstarted => exact ensures_pure.2 ⟨rfl, s.board, s.vars, rfl, .running hstarted rfl rfl⟩

/-- The extended account of a deployment owes and is owed nothing new. -/
theorem openGold_spec (gold : Option (AccountInfo × AccountInfo)) (a : DeployAccounts)
    (s : State) :
    Ensures (openGold gold a s) fun s' =>
      (∃ l t, s' = { s with lamports := l, minersExtended := t } ∧ Grew IsDerived s.lamports l) ∧
      GoldStep s s' 0 := by
  unfold openGold
  split
  · exact ensures_pure.2 ⟨⟨s.lamports, s.minersExtended, rfl, Grew.refl _ _⟩,
      goldStep_of_same (SameGold.refl s) rfl⟩
  · simp only [ensures_bind, ensures_pure]
    refine Ensures.mono (loadOrCreateMinerExtended_spec _ _ _ _ _) ?_
    rintro ⟨extended, s₁⟩ ⟨hopen, -⟩
    exact ⟨hopen.change, hopen.goldStep⟩

/-- What opening accounts for `authority` may cost: lamports move only between the payer and
these accounts. -/
def OpenedFor (payer authority : Pubkey) (l l' : Pubkey → ℕ) : Prop :=
  ∀ k, k ≠ payer → k ≠ .minerPda authority → k ≠ .poolMemberPda authority →
    k ≠ .minerExtendedPda authority → l' k = l k

section Opened

variable {payer authority : Pubkey} {l l' l'' : Pubkey → ℕ}

theorem OpenedFor.refl (payer authority : Pubkey) (l : Pubkey → ℕ) :
    OpenedFor payer authority l l := fun _ _ _ _ _ => rfl

theorem OpenedFor.trans (h : OpenedFor payer authority l l')
    (h' : OpenedFor payer authority l' l'') : OpenedFor payer authority l l'' := by
  intro k hpayer hminer hmember hextended
  rw [h' k hpayer hminer hmember hextended, h k hpayer hminer hmember hextended]

/-- The payer pays for one of these accounts. -/
theorem Moved.openedFor {dest : Pubkey} {n : ℕ} (h : Moved l l' payer dest n)
    (hdest : dest = .minerPda authority ∨ dest = .poolMemberPda authority ∨
      dest = .minerExtendedPda authority) : OpenedFor payer authority l l' := by
  intro k hpayer hminer hmember hextended
  have hne : k ≠ dest := by
    rcases hdest with rfl | rfl | rfl
    · exact hminer
    · exact hmember
    · exact hextended
  have hbalance := h.balance k
  rwa [if_neg hpayer, if_neg hne] at hbalance

theorem createAccount_opened {s : State} {target payer : AccountInfo} {len : ℕ}
    (htarget : target.key = .minerPda authority ∨ target.key = .poolMemberPda authority ∨
      target.key = .minerExtendedPda authority) :
    Ensures (s.createAccount target len payer) fun s' =>
      OpenedFor payer.key authority s.lamports s'.lamports := by
  refine Ensures.mono (State.createAccount_spec _ _ _ _) ?_
  rintro _ ⟨-, l, rfl, hmoved, -⟩
  exact hmoved.openedFor htarget

theorem openMiner_opened {e : ProgramError} {minerInfo payer : AccountInfo} {s : State}
    (hkey : minerInfo.key = .minerPda authority) :
    Ensures (openMiner e minerInfo authority payer s) fun p =>
      OpenedFor payer.key authority s.lamports p.2.lamports := by
  unfold openMiner
  split
  · simp only [ensures_bind, ensures_pure]
    exact createAccount_opened (.inl hkey)
  · simp only [ensures_bind, ensures_fromOption, ensures_require, ensures_pure]
    exact fun _ _ _ => OpenedFor.refl _ _ _

theorem openGold_opened (gold : Option (AccountInfo × AccountInfo)) (a : DeployAccounts)
    (s : State) :
    Ensures (openGold gold a s) fun s' =>
      OpenedFor a.signerInfo.key a.authorityInfo.key s.lamports s'.lamports := by
  unfold openGold
  split
  · exact ensures_pure.2 (OpenedFor.refl _ _ _)
  · simp only [loadOrCreateMinerExtended, ensures_bind, ensures_require, ensures_ite, ensures_pure,
      ensures_fromOption]
    intro _ hkey
    refine ⟨fun _ => ⟨fun _ => ?_, fun _ => OpenedFor.refl _ _ _⟩,
      fun _ _ _ _ => OpenedFor.refl _ _ _⟩
    exact createAccount_opened (.inr (.inr hkey))

end Opened

/-- What is known when a deployment comes to place its bet. -/
structure Placing (env : Env) (clock : Clock) (args : DeployArgs) (a : DeployAccounts) (s : State)
    (squares : Square → Bool) (round round₁ : Round) (pool : PoolRound) (miner : Miner)
    (s₁ : State) : Prop where
  checked : DeployChecked clock a s round pool
  prepared : Prepared clock s s₁ round round₁
  squares : deploySquares env args round
    (s.automations.get (.automationV2Pda a.authorityInfo.key)) = .ok squares
  ready : (s.wagers (.minerPda a.authorityInfo.key)).Ready round.id
  zero : miner.deployed = fun _ => 0
  minerId : miner.roundId = round.id
  checkpointId : miner.checkpointId = (s.wagers (.minerPda a.authorityInfo.key)).checkpointId
  ledger : s.ledgers (.minerPda a.authorityInfo.key) = miner.ledger
  authority : miner.authority = a.authorityInfo.key
  executor : ∀ x, s.automations.get (.automationV2Pda a.authorityInfo.key) = some x →
    a.signerInfo.key = x.executor

/-- **A deployment prepares its bet, opening the accounts it needs, and places it.** -/
theorem deployBody_opens (clock : Clock) (env : Env) (args : DeployArgs) (a : DeployAccounts)
    (gold : Option (AccountInfo × AccountInfo)) (entropyAccounts : List AccountInfo) (cpi : Cpi)
    (s : State) {Q : State → Prop}
    (hplace : ∀ squares round round₁ pool miner s₁,
      Placing env clock args a s squares round round₁ pool miner s₁ →
      OpenedFor a.signerInfo.key a.authorityInfo.key s.lamports s₁.lamports →
      Ensures (placeBet args a (s.automations.get (.automationV2Pda a.authorityInfo.key)) squares
        round₁ pool miner s₁) Q) :
    Ensures (deployBody clock env args a gold entropyAccounts cpi s) Q := by
  have hrest : ∀ round pool, DeployChecked clock a s round pool → Ensures (do
        let r ← openRound clock env a entropyAccounts cpi round s
        let automation ← loadAutomation a r.2
        let squares ← deploySquares env args r.1 automation
        let q ← openMiner .invalidAccountData a.minerInfo a.authorityInfo.key a.signerInfo r.2
        let s ← openGold gold a q.2
        let miner ← resetMiner r.1 q.1
        placeBet args a automation squares r.1 pool miner s : Result State) Q := by
    intro round pool hchecked
    simp only [ensures_bind]
    refine Ensures.mono (openRound_spec _ _ _ _ _ _ _) ?_
    rintro ⟨round₁, _⟩ ⟨hround₁, b, v, rfl, hclock⟩
    refine Ensures.mono (loadAutomation_spec a _) ?_
    rintro _ ⟨rfl, hexecutor⟩
    rw [hchecked.automation] at hexecutor ⊢
    change Ensures (deploySquares env args round₁
      (s.automations.get (.automationV2Pda a.authorityInfo.key))) _
    have hround₁Id : round₁.id = round.id := by
      rw [show round₁ = { round with expiresAt := round₁.expiresAt } from hround₁]
    rw [deploySquares_congr env args hround₁Id]
    intro squares hsquares
    refine Ensures.mono (((openMiner_inHand hchecked.miner).and (openMiner_spec _ _ _ _ _)).and
      (openMiner_opened hchecked.miner)) ?_
    rintro ⟨m, _⟩ ⟨⟨⟨-, hauth, hm⟩, l, rfl, hl, -, -⟩, hopened⟩
    refine Ensures.mono ((openGold_spec gold a _).and (openGold_opened gold a _)) ?_
    rintro _ ⟨⟨⟨l', t, rfl, hl'⟩, hgold⟩, hopened'⟩
    refine Ensures.mono (resetMiner_spec round₁ m) ?_
    rintro m' ⟨hready, hzero, hid, hcheckpoint, hauth', hledger⟩
    have hpda : m.pda = .minerPda a.authorityInfo.key := by rw [Miner.pda, hauth]
    have hwager : s.wagers (.minerPda a.authorityInfo.key) = m.wager := by
      rw [← hpda]
      exact hm.2
    have hledger' : s.ledgers (.minerPda a.authorityInfo.key) = m.ledger := by
      rw [← hpda]
      exact hm.1
    refine hplace squares round round₁ pool m' _ ⟨hchecked, ?_, hsquares, ?_, hzero,
      hid.trans hround₁Id, ?_, ?_, hauth'.trans hauth, hexecutor⟩ (hopened.trans hopened')
    · refine ⟨⟨b, v, l', t, rfl, hl.trans hl'⟩, hchecked.open_, hclock, ?_, hround₁⟩
      have hbefore : GoldStep s { s with board := b, vars := v, lamports := l } 0 :=
        goldStep_of_same ⟨rfl, rfl⟩ rfl
      have h := hbefore.trans hgold
      rwa [Nat.add_zero] at h
    · rw [hwager, ← hround₁Id]
      exact hready
    · rw [hwager]
      exact hcheckpoint
    · rw [hledger', hledger]
  refine ensures_bind.2 (Ensures.mono (checkDeployAccounts_spec clock a s) ?_)
  rintro ⟨round, pool⟩ hchecked
  cases gold with
  | some gold => exact ensures_bind.2 (ensures_of_forall fun _ => hrest round pool hchecked)
  | none => exact hrest round pool hchecked

/-- **A deployment prepares its bet, and places it.** -/
theorem deployBody_places (clock : Clock) (env : Env) (args : DeployArgs) (a : DeployAccounts)
    (gold : Option (AccountInfo × AccountInfo)) (entropyAccounts : List AccountInfo) (cpi : Cpi)
    (s : State) {Q : State → Prop}
    (hplace : ∀ squares round round₁ pool miner s₁,
      Placing env clock args a s squares round round₁ pool miner s₁ →
      Ensures (placeBet args a (s.automations.get (.automationV2Pda a.authorityInfo.key)) squares
        round₁ pool miner s₁) Q) :
    Ensures (deployBody clock env args a gold entropyAccounts cpi s) Q :=
  deployBody_opens clock env args a gold entropyAccounts cpi s
    fun _ _ _ _ _ _ hplacing _ => hplace _ _ _ _ _ _ hplacing

/-- **A deployment bets on the current round and pays for it.** -/
theorem deployBody_spec (clock : Clock) (env : Env) (args : DeployArgs) (a : DeployAccounts)
    (gold : Option (AccountInfo × AccountInfo)) (entropyAccounts : List AccountInfo) (cpi : Cpi)
    (s : State) :
    Ensures (deployBody clock env args a gold entropyAccounts cpi s) fun s' =>
      ∃ round, s.rounds.get (.roundPda s.board.roundId) = some round ∧
        DeployedBy clock a.authorityInfo.key
          (args.betPooled (s.automations.get (.automationV2Pda a.authorityInfo.key)))
          (PlacesBet env args round (s.automations.get (.automationV2Pda a.authorityInfo.key)))
          s s' := by
  refine deployBody_places clock env args a gold entropyAccounts cpi s ?_
  intro squares round round₁ pool miner s₁ h
  have hroundKey : a.roundInfo.key = .roundPda s.board.roundId := by
    rw [← h.checked.roundId]
    exact (s.rounds.key_of_get _ _ h.checked.getRound).symm
  refine Ensures.mono (placeBet_spec clock args _ squares h.checked.signer h.checked.automation
    h.checked.getRound h.checked.roundId h.checked.getPool h.checked.poolId h.checked.member
    h.prepared h.ready h.zero h.minerId h.checkpointId h.ledger h.authority) ?_
  intro s' hdeployed
  refine ⟨round, by rw [← hroundKey, h.checked.getRound], ?_⟩
  rwa [placesBet_iff h.squares]

theorem deployBody_deployed (clock : Clock) (env : Env) (args : DeployArgs) (a : DeployAccounts)
    (gold : Option (AccountInfo × AccountInfo)) (entropyAccounts : List AccountInfo) (cpi : Cpi)
    (s : State) :
    Ensures (deployBody clock env args a gold entropyAccounts cpi s) (Deployed clock s) := by
  refine Ensures.mono (deployBody_spec clock env args a gold entropyAccounts cpi s) ?_
  rintro _ ⟨_, _, h⟩
  exact h.deployed

theorem processDeploy_spec (clock : Clock) (env : Env) (args : DeployArgs) (a : DeployAccounts)
    (entropyAccounts : List AccountInfo) (cpi : Cpi) (s : State) :
    Ensures (processDeploy clock env args a entropyAccounts cpi s) (Deployed clock s) := by
  simp only [processDeploy, ensures_bind, ensures_require]
  exact fun _ => deployBody_deployed clock env args a none entropyAccounts cpi s

end Body

end Godl
