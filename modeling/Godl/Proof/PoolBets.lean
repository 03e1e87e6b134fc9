import Godl.Proof.Latch

/-!
# Bets through the pool

What a pool member holds for the current round is what its miner bet through the pool in
this very round: nothing is left over from older rounds, and a miner that switches to
playing for itself leaves no trace.

## Main definitions

* `PoolBet` — a deployment through the pool.
* `State.PoolTracked` — the members' shares tell who bet through the pool.
* `State.PoolTracked.step`, `State.PoolTracked.run` — they always do.
-/

namespace Godl

open Lib

/-- A deployment of `authority` in round `r`, through the pool, with something on `sq`. -/
def PoolBet (authority : Pubkey) (sq : Square) (r : ℕ) (x : Transition State Label) : Prop :=
  ∃ clock ix accounts cpi args a, x.label = .call clock ix accounts cpi ∧
    ix.deployArgs = some args ∧ deployAccounts accounts = some a ∧
    a.authorityInfo.key = authority ∧ args.betPooled (x.before.automationOf a) = true ∧
    x.before.board.roundId = r ∧ 0 < (x.after.wagers (.minerPda authority)).deployed sq

/-- The current round has no top miner yet, and the shares in it are the bets through the
pool since `h` began. -/
structure State.PoolTracked (s : State) (h : History) : Prop where
  topMiner : ∃ round, s.rounds.get (.roundPda s.board.roundId) = some round ∧
    round.topMiner = Pubkey.default
  ahead : ∀ authority, s.board.roundId < (s.memberships (.poolMemberPda authority)).roundId →
    (s.memberships (.poolMemberPda authority)).deployed = fun _ => 0
  past : ∀ x ∈ h, x.before.board.roundId ≤ s.board.roundId
  bets : ∀ authority sq, 0 < s.poolShare s.board.roundId sq authority ↔
    ∃ x ∈ h, PoolBet authority sq s.board.roundId x

section Tracked

variable {env : Env} {allowed : GodlInstruction → Prop} {s s' : State} {l : Label} {h : History}

theorem GodlInstruction.kind_of_deployArgs {ix : GodlInstruction} {args : DeployArgs}
    (h : ix.deployArgs = some args) : ix.kind = .deploy := by
  cases ix <;> first
    | rfl
    | cases h

theorem PoolBet.kind {authority : Pubkey} {sq : Square} {r : ℕ} {x : Transition State Label}
    (h : PoolBet authority sq r x) : x.label.kind = some .deploy := by
  obtain ⟨_, ix, _, _, _, _, hlabel, hargs, -⟩ := h
  rw [hlabel]
  exact congrArg some (GodlInstruction.kind_of_deployArgs hargs)

/-- A step that is no deployment and stays in the round changes nothing here. -/
theorem State.PoolTracked.same (htracked : s.PoolTracked h)
    (hkind : l.kind ≠ some .deploy) (hboard : s'.board.roundId = s.board.roundId)
    (hround : s'.rounds.get (.roundPda s.board.roundId) =
      s.rounds.get (.roundPda s.board.roundId))
    (hmembers : s'.memberships = s.memberships) : s'.PoolTracked (⟨s, l, s'⟩ :: h) := by
  have hnone : ∀ authority sq r, ¬ PoolBet authority sq r ⟨s, l, s'⟩ :=
    fun _ _ _ hbet => hkind hbet.kind
  refine ⟨?_, ?_, ?_, fun authority sq => ?_⟩
  · rw [hboard, hround]
    exact htracked.topMiner
  · rw [hboard, hmembers]
    exact htracked.ahead
  · rw [hboard]
    exact List.forall_mem_cons.2 ⟨le_refl _, htracked.past⟩
  · have hbets := htracked.bets authority sq
    rw [State.poolShare] at hbets
    rw [State.poolShare, hboard, hmembers, hbets]
    simp only [List.mem_cons, exists_eq_or_imp, hnone, false_or]

/-- **A deployment adds its bets, when it goes through the pool.** -/
theorem State.PoolTracked.deployed (htracked : s.PoolTracked h) {clock : Clock}
    {ix : GodlInstruction} {args : DeployArgs} {accounts : List AccountInfo} {cpi : Cpi}
    {a : DeployAccounts} {places : Prop} (hargs : ix.deployArgs = some args)
    (haccounts : deployAccounts accounts = some a)
    (hdeployed : DeployedBy clock a.authorityInfo.key (args.betPooled (s.automationOf a)) places
      s s') :
    s'.PoolTracked (⟨s, .call clock ix accounts cpi, s'⟩ :: h) := by
  obtain ⟨round, round', pool, pool', wager, member, hwagered, -, -⟩ := hdeployed
  have hroundId := hwagered.roundId
  have hwager : s'.wagers (.minerPda a.authorityInfo.key) = wager := by
    rw [hwagered.wagers, Function.update_self]
  -- What the call itself adds.
  have hcall : ∀ authority sq,
      PoolBet authority sq s.board.roundId ⟨s, .call clock ix accounts cpi, s'⟩ ↔
        authority = a.authorityInfo.key ∧ args.betPooled (s.automationOf a) = true ∧
          0 < wager.deployed sq := by
    intro authority sq
    constructor
    · rintro ⟨_, _, _, _, args', a', hlabel, hargs', haccounts', rfl, hpooled, -, hpos⟩
      cases hlabel
      rw [hargs] at hargs'
      cases hargs'
      rw [haccounts] at haccounts'
      cases haccounts'
      exact ⟨rfl, hpooled, hwager ▸ hpos⟩
    · rintro ⟨rfl, hpooled, hpos⟩
      exact ⟨clock, ix, accounts, cpi, args, a, rfl, hargs, haccounts, rfl, hpooled, rfl,
        by rw [hwager]; exact hpos⟩
  refine ⟨?_, fun authority => ?_, ?_, fun authority sq => ?_⟩
  · refine ⟨round', by rw [hroundId, hwagered.getRound_after], ?_⟩
    obtain ⟨round₁, hround₁, htop⟩ := htracked.topMiner
    rw [hwagered.getRound] at hround₁
    cases hround₁
    rw [hwagered.frame]
    exact htop
  · rw [hroundId, hwagered.memberships]
    by_cases hk : authority = a.authorityInfo.key
    · subst hk
      rw [Function.update_self]
      rcases hwagered.kept with hkept | hid
      · rw [hkept]
        exact htracked.ahead _
      · rw [hid]
        exact fun hlt => absurd hlt (lt_irrefl _)
    · rw [Function.update_of_ne (by simpa using hk)]
      exact htracked.ahead authority
  · rw [hroundId]
    exact List.forall_mem_cons.2 ⟨le_refl _, htracked.past⟩
  · have hbets := htracked.bets authority sq
    rw [State.poolShare] at hbets
    simp only [List.mem_cons, exists_eq_or_imp]
    rw [hroundId, hcall, ← hbets, State.poolShare, hwagered.memberships]
    by_cases hk : authority = a.authorityInfo.key
    · subst hk
      rw [Function.update_self, hwagered.shared sq]
      simp only [true_and]
      exact Or.comm
    · rw [Function.update_of_ne (by simpa using hk)]
      simp only [hk, false_and, false_or]

/-- **The shares are the bets through the pool, after every step.** -/
theorem State.PoolTracked.step (htracked : s.PoolTracked h) (hsetup : s.opened .treasury = true)
    (hstep : Step env allowed s l s') : s'.PoolTracked (⟨s, l, s'⟩ :: h) := by
  have hgame := hstep.effect.game hsetup
  cases hgame with
  | still hkind hsame =>
    refine htracked.same (fun hdeploy => hkind _ hdeploy trivial) ?_ ?_ hsame.memberships
    · rw [hsame.board]
    · rw [hsame.rounds]
  | checkpoint hkind hcheckpointed =>
    obtain ⟨hboard, hrounds⟩ := hcheckpointed.current
    refine htracked.same (by simp [hkind]) ?_ hrounds hcheckpointed.pool.2
    rw [hboard]
  | @deploy clock ix accounts cpi hkind _ =>
    obtain ⟨args, hargs⟩ := GodlInstruction.exists_deployArgs hkind
    cases hstep with
    | call hallowed hok =>
      obtain ⟨a, round, haccounts, -, hdeployed⟩ :=
        (deployCall_spec env clock hargs accounts cpi s).elim hok
      exact htracked.deployed hargs haccounts hdeployed
  | @reset _ _ _ _ _ a _ _ _ hkind hreset =>
    have hmembers : s'.memberships = s.memberships := by
      rw [State.memberships, State.memberships, hreset.poolMembers]
    have hboard : s'.board.roundId = s.board.roundId + 1 := by rw [hreset.board]
    refine ⟨⟨Round.fresh (s.board.roundId + 1) a.signerInfo.key, ?_, rfl⟩, fun authority => ?_, ?_,
      fun authority sq => ?_⟩
    · rw [hboard, hreset.roundsAfter, if_neg (by simp), if_pos rfl]
    · rw [hboard, hmembers]
      exact fun hlt => htracked.ahead authority (lt_trans (Nat.lt_succ_self _) hlt)
    · rw [hboard]
      exact List.forall_mem_cons.2 ⟨Nat.le_succ _, fun x hx =>
        (htracked.past x hx).trans (Nat.le_succ _)⟩
    · -- Nobody has bet in the next round.
      rw [hboard, State.poolShare, hmembers, PoolMember.Membership.share]
      constructor
      · intro hpos
        split at hpos
        · next hid =>
          rw [htracked.ahead authority (hid ▸ Nat.lt_succ_self _)] at hpos
          exact absurd hpos (lt_irrefl 0)
        · exact absurd hpos (lt_irrefl 0)
      · rintro ⟨x, hx, _, _, _, _, _, _, -, -, -, -, -, hid, -⟩
        rcases List.mem_cons.1 hx with rfl | hx
        · exact absurd hid (Nat.succ_ne_self _).symm
        · have := htracked.past x hx
          omega
  | @close _ _ _ _ closed hkind hclosed =>
    have hmembers : s'.memberships = s.memberships := by
      rw [State.memberships, State.memberships, hclosed.poolMembers]
    have hpast := hclosed.past
    refine htracked.same (by simp [hkind]) (by rw [hclosed.board]) ?_ hmembers
    rw [hclosed.rounds, Store.get_erase, if_neg]
    simp only [Pubkey.roundPda.injEq]
    omega

end Tracked

theorem State.PoolTracked.run {env : Env} {allowed : GodlInstruction → Prop} {s t : State}
    {h : History} (hstart : s.PoolTracked []) (hsetup : s.opened .treasury = true)
    (hrun : Run (Step env allowed) s h t) : t.PoolTracked h := by
  have hboth : t.opened .treasury = true ∧ t.PoolTracked h := by
    refine hrun.induct (P := fun h t => t.opened .treasury = true ∧ t.PoolTracked h)
      ⟨hsetup, hstart⟩ ?_
    rintro h t l u ⟨hopened, htracked⟩ hstep
    exact ⟨hstep.effect.opened hopened hopened, htracked.step hopened hstep⟩
  exact hboth.2

end Godl
