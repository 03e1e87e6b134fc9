import Godl.Proof.GameSteps

/-!
# What a bet books

The loop over the squares bets the same amount on each square that it gets to.  The set of
these squares says everything: it decides what the miner, the round, the pool and the pool
member hold afterwards, and how often they count.

## Main definitions

* `Booking c start b placed` — the bet `b` is `start` with the squares in `placed` added.
* `deployLoop_books` — the loop over the squares books the squares that it gets to.
* `Booked` — what a deployment books.
* `Step.booked` — every deployment of a run does.
-/

namespace Godl

open Lib

/-- An amount on each square of a set. -/
def onSquares (placed : Finset Square) (n : ℕ) (sq : Square) : ℕ := if sq ∈ placed then n else 0

section OnSquares

variable {placed : Finset Square} {sq : Square} {n : ℕ}

theorem onSquares_empty (n : ℕ) : onSquares ∅ n = fun _ => 0 := by
  funext x
  simp [onSquares]

/-- One more square. -/
theorem onSquares_insert (n : ℕ) :
    onSquares (insert sq placed) n = Function.update (onSquares placed n) sq n := by
  funext x
  by_cases hx : x = sq
  · subst hx
    simp [onSquares]
  · simp [onSquares, hx]

theorem onSquares_of_notMem (h : sq ∉ placed) : onSquares placed n sq = 0 := if_neg h

/-- What was there, with an amount on each square of a set: one more square. -/
theorem update_add_onSquares (f : Square → ℕ) (h : sq ∉ placed) :
    Function.update (fun x => f x + onSquares placed n x) sq (f sq + onSquares placed n sq + n) =
      fun x => f x + onSquares (insert sq placed) n x := by
  funext x
  rw [onSquares_insert]
  by_cases hx : x = sq
  · subst hx
    simp [onSquares_of_notMem h]
  · simp [hx]

theorem sum_onSquares (placed : Finset Square) (n : ℕ) :
    ∑ sq, onSquares placed n sq = placed.card * n := by
  simp [onSquares]

end OnSquares

/-- The pool holds no more than the round, and the member holds nothing of the round. -/
structure Bet.Clean (start : Bet) : Prop where
  deployed : ∀ sq, start.poolRound.deployed sq ≤ start.round.deployed sq
  count : ∀ sq, start.poolRound.count sq ≤ start.round.count sq
  total : start.poolRound.totalDeployed ≤ start.round.totalDeployed
  member : ∀ p, start.poolMember = some p → p.roundId = start.round.id →
    p.deployed = (fun _ => 0) ∧ p.totalDeployed = 0

/-- The pool round with an amount on each square of a set. -/
def PoolRound.withBets (pool : PoolRound) (placed : Finset Square) (n : ℕ) : PoolRound :=
  { pool with
    deployed := fun sq => pool.deployed sq + onSquares placed n sq
    count := fun sq => pool.count sq + onSquares placed 1 sq
    totalDeployed := pool.totalDeployed + placed.card * n }

/-- The round with an amount on each square of a set. -/
def Round.withBets (round : Round) (placed : Finset Square) (n : ℕ) : Round :=
  { round with
    deployed := fun sq => round.deployed sq + onSquares placed n sq
    count := fun sq => round.count sq + onSquares placed 1 sq
    totalDeployed := round.totalDeployed + placed.card * n }

/-- The member that bet an amount on each square of a set. -/
def PoolMember.ofBets (authority : Pubkey) (roundId : ℕ) (placed : Finset Square) (n : ℕ) :
    PoolMember where
  authority := authority
  roundId := roundId
  deployed := onSquares placed n
  totalDeployed := placed.card * n

/-- The bet `b` is `start` with the squares in `placed` added. -/
structure Booking (c : DeployContext) (start b : Bet) (placed : Finset Square) : Prop where
  miner : b.miner.deployed = onSquares placed c.amount
  round : b.round = start.round.withBets placed c.amount
  total : b.totalAmount = placed.card * c.amount
  solo : c.isPooled = false ∨ placed = ∅ →
    b.poolRound = start.poolRound ∧ b.poolMember = start.poolMember
  pooled : c.isPooled = true → placed.Nonempty → start.Clean →
    b.poolRound = start.poolRound.withBets placed c.amount ∧
    b.poolMember = some (PoolMember.ofBets c.authority start.round.id placed c.amount)

section Loop

variable {c : DeployContext} {start b : Bet} {sq : Square} {placed : Finset Square}

/-- At the start nothing is placed. -/
theorem Booking.refl (hminer : start.miner.deployed = fun _ => 0)
    (hamount : start.totalAmount = 0) : Booking c start start ∅ := by
  refine ⟨?_, ?_, ?_, fun _ => ⟨rfl, rfl⟩, fun _ h => absurd h Finset.not_nonempty_empty⟩
  · rw [hminer, onSquares_empty]
  · simp [Round.withBets, onSquares_empty]
  · simp [hamount]

/-- The pool before the bet, also when nothing is placed yet. -/
theorem Booking.poolRound (h : Booking c start b placed) (hpooled : c.isPooled = true)
    (hclean : start.Clean) : b.poolRound = start.poolRound.withBets placed c.amount := by
  rcases placed.eq_empty_or_nonempty with rfl | hne
  · rw [(h.solo (.inr rfl)).1]
    simp [PoolRound.withBets, onSquares_empty]
  · exact (h.pooled hpooled hne hclean).1

/-- The member that is opened, made current. -/
theorem Booking.member (h : Booking c start b placed) (hpooled : c.isPooled = true)
    (hclean : start.Clean) :
    Ensures (openPoolMember c b) fun r =>
      (if r.1.roundId ≠ b.round.id then r.1.resetForRound b.round.id else r.1) =
        PoolMember.ofBets c.authority start.round.id placed c.amount := by
  have hid : b.round.id = start.round.id := by rw [h.round, Round.withBets]
  rw [hid]
  -- A member that holds nothing of this round is as good as a new one.
  have hfresh : ∀ p : PoolMember, p.authority = c.authority →
      (p.roundId = start.round.id → p.deployed = (fun _ => 0) ∧ p.totalDeployed = 0) →
      placed = ∅ → (if p.roundId ≠ start.round.id then p.resetForRound start.round.id else p) =
        PoolMember.ofBets c.authority start.round.id placed c.amount := by
    intro p hauth hp hempty
    rw [hempty, PoolMember.ofBets, onSquares_empty, ← hauth]
    by_cases hround : p.roundId = start.round.id
    · obtain ⟨hdeployed, htotal⟩ := hp hround
      rw [if_neg (not_not.2 hround), ← hround, ← hdeployed, Finset.card_empty, Nat.zero_mul,
        ← htotal]
    · rw [if_pos hround]
      simp [PoolMember.resetForRound]
  unfold openPoolMember
  split
  · next hnone =>
    simp only [ensures_bind, ensures_pure]
    refine ensures_of_forall fun _ =>
      hfresh ⟨c.authority, 0, fun _ => 0, 0⟩ rfl (fun _ => ⟨rfl, rfl⟩) ?_
    by_contra hne
    rw [(h.pooled hpooled (Finset.nonempty_iff_ne_empty.2 hne) hclean).2] at hnone
    cases hnone
  · next p hsome =>
    simp only [ensures_bind, ensures_require, ensures_pure]
    intro hauth
    rcases placed.eq_empty_or_nonempty with hempty | hne
    · have hstart := (h.solo (.inr hempty)).2
      rw [hsome] at hstart
      exact hfresh p hauth (hclean.member p hstart.symm) hempty
    · have hp := (h.pooled hpooled hne hclean).2
      rw [hsome, Option.some.injEq] at hp
      rw [hp, PoolMember.ofBets]
      simp

/-- **A bet on a square books the square.** -/
theorem deploySquare_books (h : Booking c start b placed) (hsq : sq ∉ placed) :
    Ensures (deploySquare c b sq) fun b' => Booking c start b' (insert sq placed) := by
  have hcard : (insert sq placed).card = placed.card + 1 := Finset.card_insert_of_notMem hsq
  have hdeployed : b.round.deployed = fun x => start.round.deployed x +
      onSquares placed c.amount x := by rw [h.round, Round.withBets]
  have hcount : b.round.count = fun x => start.round.count x + onSquares placed 1 x := by
    rw [h.round, Round.withBets]
  have htotal : b.round.totalDeployed = start.round.totalDeployed + placed.card * c.amount := by
    rw [h.round, Round.withBets]
  -- What the miner and the round hold afterwards.
  have hminer : Function.update b.miner.deployed sq c.amount =
      onSquares (insert sq placed) c.amount := by rw [h.miner, onSquares_insert]
  have hround : ({ b.round with
      deployed := Function.update b.round.deployed sq (b.round.deployed sq + c.amount)
      totalDeployed := b.round.totalDeployed + c.amount
      count := Function.update b.round.count sq (b.round.count sq + 1) } : Round) =
      start.round.withBets (insert sq placed) c.amount := by
    rw [hdeployed, hcount, htotal, update_add_onSquares _ hsq, update_add_onSquares _ hsq, h.round,
      Round.withBets, Round.withBets, hcard, Nat.add_mul, Nat.one_mul, Nat.add_assoc]
  have hamount : b.totalAmount + c.amount = (insert sq placed).card * c.amount := by
    rw [h.total, hcard, Nat.add_mul, Nat.one_mul]
  have hne : insert sq placed ≠ ∅ := Finset.insert_ne_empty _ _
  simp only [deploySquare, ensures_bind, ensures_addU64, ensures_ite, ensures_pure]
  intro hfits htfits hcfits
  refine ⟨fun hpooled => ?_, fun hsolo _ => ?_⟩
  · simp only [deployPooled, ensures_bind, ensures_pure]
    intro r hr _
    refine ⟨hminer, hround, hamount, fun h => ?_, fun _ _ hclean => ?_⟩
    · rw [hpooled] at h
      simp [hne] at h
    have hmember := (h.member hpooled hclean).elim hr
    have hpool := h.poolRound hpooled hclean
    dsimp only at hmember ⊢
    rw [hmember, hpool]
    have hpoolDeployed := hclean.deployed sq
    have hpoolCount := hclean.count sq
    have hpoolTotal := hclean.total
    rw [hdeployed] at hfits
    rw [hcount] at hcfits
    rw [htotal] at htfits
    dsimp only at hfits hcfits
    constructor
    · -- The pool holds no more than the round, so its sums fit as well.
      have hzero : (PoolMember.ofBets c.authority start.round.id placed c.amount).deployed sq = 0 :=
        onSquares_of_notMem hsq
      simp only [PoolRound.recordDeploy, PoolRound.withBets, hzero, decide_true, if_true]
      rw [saturatingAddU64_of_lt (by omega), saturatingAddU64_of_lt (by omega),
        saturatingAddU64_of_lt (by omega), update_add_onSquares _ hsq, update_add_onSquares _ hsq,
        hcard, Nat.add_mul, Nat.one_mul, Nat.add_assoc]
    · have hfree : onSquares placed c.amount sq = 0 := onSquares_of_notMem hsq
      simp only [PoolMember.recordDeploy, PoolMember.ofBets]
      rw [saturatingAddU64_of_lt (by omega), saturatingAddU64_of_lt (by omega), hfree,
        Nat.zero_add, onSquares_insert, hcard, Nat.add_mul, Nat.one_mul]
  · refine ⟨hminer, hround, hamount, fun _ => ?_, fun hpooled => absurd hpooled hsolo⟩
    exact h.solo (.inl (by simpa using hsolo))

/-- **The loop books the squares that it gets to.** -/
theorem deployLoop_books (squares : Square → Bool) (l : List Square) (hl : l.Nodup)
    (hfree : ∀ sq ∈ l, sq ∉ placed) (h : Booking c start b placed) :
    Ensures (deployLoop c squares l b) fun b' => ∃ placed', Booking c start b' placed' ∧
      placed ⊆ placed' ∧ ∀ sq ∈ placed', sq ∈ placed ∨ squares sq = true := by
  induction l generalizing b placed with
  | nil => exact ensures_ok.2 ⟨placed, h, subset_refl _, fun _ hsq => .inl hsq⟩
  | cons sq rest ih =>
    obtain ⟨hsq, hrest⟩ := List.nodup_cons.1 hl
    obtain ⟨hsqFree, hrestFree⟩ := List.forall_mem_cons.1 hfree
    have hskip := ih hrest hrestFree h
    rw [deployLoop]
    split
    · exact hskip
    · next hsel =>
      split
      · exact hskip
      · simp only [ensures_bind, ensures_ite, ensures_pure]
        refine Ensures.mono (deploySquare_books h hsqFree) fun b' hb' => ?_
        have hsubset : placed ⊆ insert sq placed := Finset.subset_insert _ _
        have hselected : squares sq = true := by simpa using hsel
        have hfrom : ∀ x ∈ insert sq placed, x ∈ placed ∨ squares x = true := by
          intro x hx
          rcases Finset.mem_insert.1 hx with rfl | hx
          · exact .inr hselected
          · exact .inl hx
        refine ensures_of_forall fun _ => ⟨fun _ => ⟨_, hb', hsubset, hfrom⟩, fun _ => ?_⟩
        have hnext : ∀ x ∈ rest, x ∉ insert sq placed := by
          intro x hx hmem
          rcases Finset.mem_insert.1 hmem with rfl | hmem
          · exact hsq hx
          · exact hrestFree x hx hmem
        refine Ensures.mono (ih hrest hnext hb') ?_
        rintro b₂ ⟨placed', hb₂, hsub, hsel'⟩
        refine ⟨placed', hb₂, hsubset.trans hsub, fun x hx => ?_⟩
        rcases hsel' x hx with hmem | hx
        · exact hfrom x hmem
        · exact .inr hx

end Loop

/-! ## What a deployment books -/

/-- Before a bet of `authority` on a round: the pool holds no more than the round, and the
member holds nothing of it. -/
structure State.Clean (s : State) (authority : Pubkey) (round : Round) (pool : PoolRound) :
    Prop where
  deployed : ∀ sq, pool.deployed sq ≤ round.deployed sq
  count : ∀ sq, pool.count sq ≤ round.count sq
  total : pool.totalDeployed ≤ round.totalDeployed
  member : (s.memberships (.poolMemberPda authority)).roundId = round.id →
    s.members (.poolMemberPda authority) = (⟨round.id, fun _ => 0⟩, 0)

/-- A deployment of `authority` books an amount on each square of a set: with the miner, with
the current round and, through the pool, with its pool round and the pool member. -/
structure Booked (s s' : State) (authority : Pubkey) (isPooled : Bool) (amount : ℕ)
    (placed : Finset Square) : Prop where
  wager : (s'.wagers (.minerPda authority)).deployed = onSquares placed amount
  round : ∀ round, s.rounds.get (.roundPda s.board.roundId) = some round → ∃ expiresAt,
    s'.rounds.get (.roundPda s.board.roundId) =
      some { round.withBets placed amount with expiresAt := expiresAt }
  solo : isPooled = false ∨ placed = ∅ → s'.members = s.members ∧
    s'.poolRounds.get (.poolRoundPda s.board.roundId) =
      s.poolRounds.get (.poolRoundPda s.board.roundId)
  pooled : isPooled = true → placed.Nonempty → ∀ round pool,
    s.rounds.get (.roundPda s.board.roundId) = some round →
    s.poolRounds.get (.poolRoundPda s.board.roundId) = some pool → s.Clean authority round pool →
    s'.poolRounds.get (.poolRoundPda s.board.roundId) = some (pool.withBets placed amount) ∧
    s'.members = Function.update s.members (.poolMemberPda authority)
      (⟨s.board.roundId, onSquares placed amount⟩, placed.card * amount) ∧
    placed.card * amount ≤ lamportsPerSol

section Booked

variable {env : Env} {clock : Clock} {args : DeployArgs} {a : DeployAccounts} {s s₁ s' s'' : State}
  {squares : Square → Bool} {round round₁ : Round} {pool : PoolRound} {miner : Miner}
  {authority : Pubkey} {isPooled : Bool} {amount : ℕ} {placed : Finset Square}

theorem Booked.quiet (h : Booked s s' authority isPooled amount placed) (hq : Quiet s' s'') :
    Booked s s'' authority isPooled amount placed := by
  obtain ⟨-, hrounds, hpoolRounds, hwagers, hmembers⟩ := hq.game
  refine ⟨?_, ?_, ?_, ?_⟩
  · rw [hwagers]
    exact h.wager
  · rw [hrounds]
    exact h.round
  · rw [hmembers, hpoolRounds]
    exact h.solo
  · rw [hmembers, hpoolRounds]
    exact h.pooled

/-- The bet that a deployment starts from. -/
def DeployAccounts.startBet (a : DeployAccounts) (s₁ : State) (round₁ : Round) (pool : PoolRound)
    (miner : Miner) : Bet :=
  ⟨s₁, round₁, pool, miner, s₁.poolMembers.get a.poolMemberInfo.key, 0⟩

/-- The keys under which a deployment finds the current round and its pool round. -/
theorem DeployChecked.keys (h : DeployChecked clock a s round pool) :
    a.roundInfo.key = .roundPda s.board.roundId ∧
      a.poolRoundInfo.key = .poolRoundPda s.board.roundId := by
  have hround : Round.pda round = _ := s.rounds.key_of_get _ _ h.getRound
  have hpool : PoolRound.pda pool = _ := s.poolRounds.key_of_get _ _ h.getPool
  rw [Round.pda, h.roundId] at hround
  rw [PoolRound.pda, h.poolId, h.roundId] at hpool
  exact ⟨hround.symm, hpool.symm⟩

/-- The member that a deployment finds is the one of its authority. -/
theorem Placing.member (h : Placing env clock args a s squares round round₁ pool miner s₁) :
    s₁.poolMembers.get a.poolMemberInfo.key =
        s.poolMembers.get (.poolMemberPda a.authorityInfo.key) ∧
      ∀ p, s₁.poolMembers.get a.poolMemberInfo.key = some p →
        p.authority = a.authorityInfo.key := by
  obtain ⟨_, _, _, _, rfl, -⟩ := h.prepared.state
  rw [h.checked.member]
  refine ⟨rfl, fun p hp => ?_⟩
  have hkey : Pubkey.poolMemberPda p.authority = _ := s.poolMembers.key_of_get _ _ hp
  injection hkey

/-- A state without traces of the authority in the round starts a clean bet. -/
theorem Placing.clean (h : Placing env clock args a s squares round round₁ pool miner s₁)
    (hclean : s.Clean a.authorityInfo.key round pool) :
    (a.startBet s₁ round₁ pool miner).Clean := by
  have hround := h.prepared.round
  refine ⟨?_, ?_, ?_, fun p hp hid => ?_⟩
  · intro sq
    show pool.deployed sq ≤ round₁.deployed sq
    rw [hround]
    exact hclean.deployed sq
  · intro sq
    show pool.count sq ≤ round₁.count sq
    rw [hround]
    exact hclean.count sq
  · show pool.totalDeployed ≤ round₁.totalDeployed
    rw [hround]
    exact hclean.total
  · have hget : s.poolMembers.get (.poolMemberPda a.authorityInfo.key) = some p :=
      h.member.1.symm.trans hp
    have hmember : s.members (.poolMemberPda a.authorityInfo.key) =
        (p.membership, p.totalDeployed) := Store.view_of_get hget
    have hidRound : p.roundId = round.id := by
      rw [hid]
      show round₁.id = round.id
      rw [hround]
    have hzero := hclean.member (by rw [← State.fst_members, hmember]; exact hidRound)
    rw [hmember, Prod.mk.injEq, PoolMember.membership, PoolMember.Membership.mk.injEq] at hzero
    exact ⟨hzero.1.2, hzero.2⟩

/-- Saving a bet without a pool member leaves the pool members alone. -/
theorem saveBet_members_none {b : Bet} (h : b.poolMember = none) :
    (saveBet b).poolMembers = b.state.poolMembers := by
  simp only [saveBet, h]

/-- Saving a bet writes its pool member back. -/
theorem saveBet_members_some {b : Bet} {p : PoolMember} (h : b.poolMember = some p) :
    (saveBet b).poolMembers = b.state.poolMembers.put p := by
  simp only [saveBet, h]

/-- **A bet that was placed is booked when it is saved.** -/
theorem booked_of_saved {c : DeployContext} {b : Bet} {m : Miner} {l : Pubkey → ℕ}
    (h : Placing env clock args a s squares round round₁ pool miner s₁)
    (hc : c.authority = a.authorityInfo.key)
    (hgrown : BetGrown c (a.startBet s₁ round₁ pool miner) b)
    (hbooking : Booking c (a.startBet s₁ round₁ pool miner) b placed)
    (hmauth : m.authority = b.miner.authority) (hmwager : m.wager = b.miner.wager)
    (hcap : c.isPooled = true → placed.Nonempty → ∀ p, b.poolMember = some p →
      p.totalDeployed ≤ lamportsPerSol) :
    Booked s { saveBet { b with miner := m } with lamports := l } a.authorityInfo.key c.isPooled
      c.amount placed := by
  obtain ⟨l₁, hstate, -⟩ := hgrown.state
  obtain ⟨bd, v, l₀, t, hs₁, -⟩ := h.prepared.state
  obtain ⟨hroundKey, hpoolKey⟩ := h.checked.keys
  have hmemberStore : b.state.poolMembers = s.poolMembers := by
    rw [hstate, DeployAccounts.startBet, hs₁]
  have hbauth : m.authority = a.authorityInfo.key := by
    rw [hmauth, hgrown.miner]
    exact h.authority
  have hpda : m.pda = .minerPda a.authorityInfo.key := by rw [Miner.pda, hbauth]
  have hround₁ := h.prepared.round
  have hroundGet := h.checked.getRound
  have hpoolGet := h.checked.getPool
  rw [hroundKey] at hroundGet
  rw [hpoolKey] at hpoolGet
  have hroundPda : b.round.pda = .roundPda s.board.roundId := by
    rw [Round.pda, hbooking.round, ← h.checked.roundId]
    show Pubkey.roundPda round₁.id = _
    rw [hround₁]
  have hpoolPda : b.poolRound.pda = .poolRoundPda s.board.roundId := by
    rw [PoolRound.pda, hgrown.poolRound, ← h.checked.roundId, ← h.checked.poolId]
    rfl
  have hpoolAfter : (b.state.poolRounds.put b.poolRound).get (.poolRoundPda s.board.roundId) =
      some b.poolRound := by rw [← hpoolPda, Store.get_put_self]
  refine ⟨?_, ?_, ?_, ?_⟩
  · show ((b.state.miners.put m).view _ Miner.wager _).deployed = _
    rw [Store.view_put, hpda, Function.update_self, hmwager]
    exact hbooking.miner
  · intro r hr
    rw [hroundGet] at hr
    cases hr
    refine ⟨round₁.expiresAt, ?_⟩
    show (b.state.rounds.put b.round).get _ = _
    rw [← hroundPda, Store.get_put_self, hbooking.round]
    show some (round₁.withBets _ _) = _
    rw [Round.withBets, hround₁]
    rfl
  · intro hsolo
    obtain ⟨hpool, hmember⟩ := hbooking.solo hsolo
    refine ⟨?_, ?_⟩
    · show Store.view _ _ (saveBet { b with miner := m }).poolMembers = _
      rcases hb : b.poolMember with _ | p
      · rw [← hb, saveBet_members_none (b := { b with miner := m }) hb, hmemberStore]
        rfl
      · rw [← hb, saveBet_members_some (b := { b with miner := m }) hb, hmemberStore]
        rw [hb] at hmember
        have hget : s.poolMembers.get (.poolMemberPda a.authorityInfo.key) = some p :=
          h.member.1.symm.trans hmember.symm
        have hkey : p.pda = .poolMemberPda a.authorityInfo.key := s.poolMembers.key_of_get _ _ hget
        refine Store.view_put_of_eq ?_
        rw [hkey]
        exact Store.view_of_get hget
    · refine hpoolAfter.trans ?_
      rw [hpool, hpoolGet]
      rfl
  · intro hpooled hne r p hr hp hclean
    rw [hroundGet] at hr
    rw [hpoolGet] at hp
    cases hr
    cases hp
    obtain ⟨hpool, hmember⟩ := hbooking.pooled hpooled hne (h.clean hclean)
    refine ⟨?_, ?_, ?_⟩
    · refine hpoolAfter.trans ?_
      rw [hpool]
      rfl
    · show Store.view _ _ (saveBet { b with miner := m }).poolMembers = _
      rw [saveBet_members_some (b := { b with miner := m }) hmember, hmemberStore, hc,
        Store.view_put]
      have hid : (a.startBet s₁ round₁ pool miner).round.id = s.board.roundId := by
        rw [← h.checked.roundId]
        show round₁.id = _
        rw [hround₁]
      rw [hid]
      rfl
    · exact hcap hpooled hne _ hmember

/-- What a bet through the pool leaves with the member is at most one SOL. -/
theorem finishBet_cap (c : DeployContext) (minerInfo : AccountInfo) (b : Bet) :
    Ensures (finishBet c minerInfo b) fun _ => c.isPooled = true → ∀ p, b.poolMember = some p →
      p.totalDeployed ≤ lamportsPerSol := by
  simp only [finishBet, ensures_bind, ensures_addU64, ensures_ite, ensures_pure,
    ensures_fromOption, ensures_require]
  have hcap : ∀ q, b.poolMember = some q → q.totalDeployed ≤ lamportsPerSol →
      c.isPooled = true → ∀ p, b.poolMember = some p → p.totalDeployed ≤ lamportsPerSol := by
    intro q hq hle _ p hp
    rw [hq] at hp
    cases hp
    exact hle
  refine fun _ => ⟨fun _ => ensures_of_forall fun _ => ⟨fun _ => hcap, fun hsolo hp => ?_⟩,
    fun _ => ⟨fun _ => hcap, fun hsolo hp => absurd hp hsolo⟩⟩
  exact absurd hp hsolo

/-- A deployment with these squares gets to place a bet: some square is selected, and an
automation can pay for all squares and the fee. -/
def GetsToPlace (automation : Option AutomationV2) (squares : Square → Bool) : Prop :=
  (∃ sq, squares sq = true) ∧
    ∀ a, automation = some a → a.amount * squareList.countP squares + a.fee ≤ a.balance

/-- **What placing a bet books.** -/
theorem placeBet_books (h : Placing env clock args a s squares round round₁ pool miner s₁)
    (automation : Option AutomationV2) :
    Ensures (placeBet args a automation squares round₁ pool miner s₁) fun s' => ∃ placed,
      Booked s s' a.authorityInfo.key (args.betPooled automation) (args.betAmount automation)
        placed ∧ (placed.Nonempty → GetsToPlace automation squares) := by
  set start : Bet := a.startBet s₁ round₁ pool miner with hstart
  have howner : ∀ p, start.poolMember = some p → p.authority = a.authorityInfo.key := h.member.2
  -- A bet that cannot be afforded is saved as it started: nothing is booked.
  have hnone : ∀ s', Quiet (saveBet start) s' → ∃ placed,
      Booked s s' a.authorityInfo.key (args.betPooled automation) (args.betAmount automation)
        placed ∧ (placed.Nonempty → GetsToPlace automation squares) := by
    intro s' hquiet
    have hbooked : Booked s { saveBet { start with miner := miner } with lamports := s₁.lamports }
        a.authorityInfo.key (args.betPooled automation) (args.betAmount automation) ∅ :=
      booked_of_saved (c := ⟨args.betAmount automation, args.betPooled automation, automation,
        a.authorityInfo.key, a.signerInfo, a.poolMemberInfo⟩) h rfl
        (BetGrown.refl h.zero rfl howner) (Booking.refl h.zero rfl) rfl rfl
        fun _ hne => absurd hne Finset.not_nonempty_empty
    exact ⟨∅, hbooked.quiet hquiet, fun hne => absurd hne Finset.not_nonempty_empty⟩
  have hplaced : ∀ c : DeployContext, c.authority = a.authorityInfo.key →
      c.isPooled = args.betPooled automation → c.amount = args.betAmount automation →
      (∀ a, automation = some a → a.amount * squareList.countP squares + a.fee ≤ a.balance) →
      Ensures (do
        let b ← deployLoop c squares squareList start
        let s ← finishBet c a.minerInfo b
        payBet a b.totalAmount automation s) fun s' => ∃ placed,
          Booked s s' a.authorityInfo.key (args.betPooled automation)
            (args.betAmount automation) placed ∧
          (placed.Nonempty → GetsToPlace automation squares) := by
    intro c hc hpooled hamount hafford
    simp only [ensures_bind]
    refine Ensures.mono ((deployLoop_spec (c := c) squares squareList
      (BetGrown.refl h.zero rfl (by rw [hc]; exact howner))).and
      (deployLoop_books squares squareList (List.nodup_finRange 25)
        (fun _ _ => Finset.notMem_empty _) (Booking.refl h.zero rfl))) fun b hb => ?_
    obtain ⟨hgrown, placed, hbooking, -, hselected⟩ := hb
    refine Ensures.mono ((finishBet_spec _ _ b).and (finishBet_cap _ _ b)) ?_
    rintro _ ⟨⟨m, l, rfl, -, hmauth, hmwager, -⟩, hcap⟩
    refine Ensures.mono (payBet_spec b.totalAmount automation _ h.checked.signer
      h.checked.automation) ?_
    rintro s' ⟨hquiet, -, -⟩
    have hbooked := booked_of_saved (l := l) h hc hgrown hbooking hmauth hmwager
      fun hp _ => hcap hp
    rw [hpooled, hamount] at hbooked
    refine ⟨placed, hbooked.quiet hquiet, ?_⟩
    rintro ⟨sq, hsq⟩
    refine ⟨⟨sq, ?_⟩, hafford⟩
    rcases hselected sq hsq with hmem | hsel
    · exact absurd hmem (Finset.notMem_empty _)
    · exact hsel
  cases automation with
  | some automation =>
    simp only [placeBet, ensures_bind, ensures_ite]
    refine Ensures.mono (canAfford_spec _ _ automation) fun affordable haffordable =>
      ⟨fun hafford => ?_, fun _ => ?_⟩
    · rw [squaresToDeploy_of_zero squares h.zero] at haffordable
      have hfunded := haffordable.1 hafford
      have hall := hplaced ⟨automation.amount, automation.getIsPooled, some automation,
        a.authorityInfo.key, a.signerInfo, a.poolMemberInfo⟩ rfl rfl rfl (by simpa using hfunded)
      simp only [ensures_bind] at hall
      exact hall
    · exact ensures_pure.2 (hnone _
        (closeAutomation_quiet automation a.authorityInfo.key (saveBet start)).1)
  | none =>
    have hall := hplaced ⟨args.amount, args.isPooled, none, a.authorityInfo.key, a.signerInfo,
      a.poolMemberInfo⟩ rfl rfl rfl (by simp)
    simp only [ensures_bind] at hall
    simp only [placeBet, pure_bind, if_true, ensures_bind]
    exact hall

/-- A deployment books what it bets, and pays attention to nothing else. -/
theorem deployCall_books (env : Env) (clock : Clock) {ix : GodlInstruction} {args : DeployArgs}
    (hargs : ix.deployArgs = some args) (accounts : List AccountInfo) (cpi : Cpi) (s : State) :
    Ensures (processInstruction env clock ix accounts cpi s) fun s' =>
      ∃ a, deployAccounts accounts = some a ∧ ∃ placed squares round,
        Booked s s' a.authorityInfo.key (args.betPooled (s.automationOf a))
          (args.betAmount (s.automationOf a)) placed ∧
        s.rounds.get (.roundPda s.board.roundId) = some round ∧
        deploySquares env args round (s.automationOf a) = .ok squares ∧
        (placed.Nonempty → GetsToPlace (s.automationOf a) squares) := by
  refine deployCall_body env clock hargs accounts cpi s fun a gold entropy _ =>
    deployBody_places clock env args a gold entropy cpi s ?_
  intro squares round round₁ pool miner s₁ h
  refine Ensures.mono (placeBet_books h (s.automationOf a)) ?_
  rintro s' ⟨placed, hbooked, hplaces⟩
  have hround := h.checked.getRound
  rw [h.checked.keys.1] at hround
  exact ⟨placed, squares, round, hbooked, hround, h.squares, hplaces⟩

end Booked

end Godl
