import Godl.Proof.GameSteps
import Godl.Script

/-!
# Every bet is settled once

A miner that bet on a round keeps its bet until a checkpoint settles it, which no
checkpoint does while the round is played; after that the round is done with.  The
guard is spread over two handlers: a deployment asks that the last round be settled, and
a checkpoint asks that it be pending and over.

## Main definitions

* `State.WagersInPlay` — no miner is ahead of the board, or done with the round it plays.
* `Bets`, `Settles` — a deployment places a bet, a checkpoint settles it.
* `bet_settled_once` — what happens to a bet.
-/

namespace Godl

open Lib

/-- The program is set up, and every miner is where the board lets it be: none is ahead of
the current round, and none that plays it is done with it. -/
structure State.WagersInPlay (s : State) : Prop where
  setup : s.opened .treasury = true
  current : s.rounds.get (.roundPda s.board.roundId) ≠ none
  played : ∀ k, (s.wagers k).roundId ≤ s.board.roundId
  pending : ∀ k, (s.wagers k).roundId = s.board.roundId → s.board.roundId ≠ 0 →
    (s.wagers k).checkpointId ≠ s.board.roundId

/-- A deployment of the miner at `k` leaves it with a bet on round `r`. -/
def Bets (k : Pubkey) (r : ℕ) (x : Transition State Label) : Prop :=
  x.label.kind = some .deploy ∧ x.after.wagers k ≠ x.before.wagers k ∧
    (x.after.wagers k).roundId = r ∧ ∃ sq, (x.after.wagers k).deployed sq ≠ 0

/-- A checkpoint settles round `r` for the miner at `k`. -/
def Settles (k : Pubkey) (r : ℕ) (x : Transition State Label) : Prop :=
  (∃ legacy, x.label.kind = some (.checkpoint legacy)) ∧
    (x.before.wagers k).checkpointId ≠ r ∧ (x.after.wagers k).checkpointId = r

/-- What happens to a bet of the miner at `k` on round `r` in the steps `h` after it: until
it is settled the miner keeps what it deployed and where; the round is not settled while it
is played; and once it is settled, no checkpoint touches the miner for its sake again. -/
structure SettledOnce (k : Pubkey) (r : ℕ) (bet : Miner.Wager) (h : History) : Prop where
  kept : ∀ h₂ x h₁, h = h₂ ++ x :: h₁ → (∀ y ∈ h₁, ¬ Settles k r y) →
    (x.after.wagers k).roundId = bet.roundId ∧ (x.after.wagers k).deployed = bet.deployed ∧
      (x.after.wagers k).cumulative = bet.cumulative
  ended : ∀ x ∈ h, Settles k r x → x.before.board.roundId ≠ r
  once : ∀ h₂ x h₁, h = h₂ ++ x :: h₁ → (∃ y ∈ h₁, Settles k r y) →
    (∃ legacy, x.label.kind = some (.checkpoint legacy)) → (x.before.wagers k).roundId = r →
    x.after.miners.get k = x.before.miners.get k

section Step

variable {allowed : GodlInstruction → Prop} {s s' : State} {l : Label} {k : Pubkey} {r : ℕ}
  {w : Miner.Wager}

/-- There is always a current round. -/
theorem GameStep.current (h : GameStep s s' l)
    (hcurrent : s.rounds.get (.roundPda s.board.roundId) ≠ none) :
    s'.rounds.get (.roundPda s'.board.roundId) ≠ none := by
  cases h with
  | still _ hsame => rwa [hsame.board, hsame.rounds]
  | checkpoint _ hcheckpointed =>
    rcases hcheckpointed with ⟨rfl⟩ | ⟨_, -, -, -, rfl⟩ | ⟨_, round, _, _, _, _, hcredited⟩
    · exact hcurrent
    · exact hcurrent
    · have hpast := hcredited.past
      rw [hcredited.board, hcredited.rounds, Store.get_put_of_ne _ ?_]
      · exact hcurrent
      · rw [hcredited.frozen]
        simpa [Round.pda] using hpast.symm
  | deploy _ hdeployed =>
    obtain ⟨_, round, round', _, _, _, _, _, hwagered, -⟩ := hdeployed
    rw [hwagered.roundId, hwagered.getRound_after]
    simp
  | reset _ hreset =>
    rw [hreset.board, hreset.roundsAfter, if_neg (by simp), if_pos rfl]
    exact Option.some_ne_none _
  | @close _ _ _ _ round _ hclosed =>
    have hpast := hclosed.past
    rw [hclosed.board, hclosed.rounds, Store.get_erase, if_neg]
    · exact hcurrent
    · simp only [Pubkey.roundPda.injEq]
      omega

/-- **Miners stay where the board lets them be.** -/
theorem State.WagersInPlay.step (h : s.WagersInPlay) (hstep : StepEffect allowed s s' l) :
    s'.WagersInPlay := by
  have hgame := hstep.game h.setup
  have hle := hgame.roundId_le
  refine ⟨hstep.opened h.setup h.setup, hgame.current h.current, fun k => ?_, fun k => ?_⟩
  · have hplayed := h.played k
    rcases hgame.wager k with ⟨hkept⟩ | ⟨-, -, -, hsettled⟩ | ⟨-, -, hroundId, -⟩
    · rw [hkept]
      omega
    · rw [hsettled]
      exact hplayed.trans hle
    · omega
  · have hplayed := h.played k
    have hpending := h.pending k
    have hroundId := hgame.roundId
    rcases hgame.wager k with ⟨hkept⟩ | ⟨hkind, -, hover, hsettled⟩ |
      ⟨hkind, hready, hbet, hcheckpoint⟩
    · rw [hkept]
      intro hid hpos
      split at hroundId
      · omega
      · rw [Nat.add_zero] at hroundId
        rw [hroundId] at hid hpos ⊢
        exact hpending hid hpos
    · have hpast : (s.wagers k).roundId ≠ s.board.roundId := hover.resolve_right h.current
      rw [hkind, if_neg (by simp), Nat.add_zero] at hroundId
      rw [hsettled, hroundId]
      exact fun hid => absurd hid hpast
    · rw [hkind, if_neg (by simp), Nat.add_zero] at hroundId
      rw [hcheckpoint, hroundId]
      intro _ hpos
      rcases hready with ⟨hnew, hdone⟩ | ⟨hid, -⟩
      · rw [hdone]
        exact hnew
      · exact hpending hid hpos

/-- **A bet that is not settled is kept or settled**, and settled only when its round is
over. -/
theorem State.WagersInPlay.unsettled (h : s.WagersInPlay) (hgame : GameStep s s' l)
    (hbet : s.wagers k = w) (hid : w.roundId = r) (hpending : w.checkpointId ≠ r)
    (hdeployed : ∃ sq, w.deployed sq ≠ 0) :
    (s'.wagers k = w ∧ ¬ Settles k r ⟨s, l, s'⟩) ∨
      (s'.wagers k = { w with checkpointId := r } ∧ Settles k r ⟨s, l, s'⟩ ∧
        s.board.roundId ≠ r) := by
  rcases hgame.wager k with ⟨hkept⟩ | ⟨hkind, -, hover, hsettled⟩ | ⟨-, hready, -, -⟩
  · rw [hbet] at hkept
    refine .inl ⟨hkept, fun hsettles => hpending ?_⟩
    rw [← hkept]
    exact hsettles.2.2
  · have hpast := hover.resolve_right h.current
    rw [hbet, hid] at hpast hsettled
    refine .inr ⟨hsettled, ⟨⟨_, hkind⟩, ?_, ?_⟩, hpast.symm⟩
    · show (s.wagers k).checkpointId ≠ r
      rwa [hbet]
    · show (s'.wagers k).checkpointId = r
      rw [hsettled]
  · -- A deployment would find the miner with its bet in the way.
    rw [hbet] at hready
    rcases hready with ⟨-, hdone⟩ | ⟨-, hnone⟩
    · exact absurd (hdone.trans hid) hpending
    · obtain ⟨sq, hsq⟩ := hdeployed
      rw [hnone] at hsq
      exact absurd rfl hsq

/-- The miner at `k` is done with round `r`. -/
def DoneWith (s : State) (k : Pubkey) (r : ℕ) : Prop :=
  r < s.board.roundId ∧
    (((s.wagers k).roundId = r ∧ (s.wagers k).checkpointId = r) ∨ r < (s.wagers k).roundId)

/-- **A miner that is done with a round stays done with it.** -/
theorem DoneWith.step (h : DoneWith s k r) (hgame : GameStep s s' l) : DoneWith s' k r := by
  obtain ⟨hpast, hdone⟩ := h
  refine ⟨lt_of_lt_of_le hpast hgame.roundId_le, ?_⟩
  rcases hgame.wager k with ⟨hkept⟩ | ⟨-, hpending, -, hsettled⟩ | ⟨-, -, hroundId, -⟩
  · rwa [hkept]
  · rw [hsettled]
    rcases hdone with ⟨hid, hcheckpoint⟩ | hlater
    · exact absurd (hcheckpoint.trans hid.symm) hpending
    · exact .inr hlater
  · rw [hroundId]
    exact .inr hpast

end Step

/-- Miners are where the board lets them be when the program is set up. -/
theorem processInitialize_wagersInPlay (admin buryAuthority feeCollector : Pubkey)
    (godlPerRound : ℕ) (signerInfo configInfo treasuryInfo boardInfo roundInfo systemProgram :
    AccountInfo) {s : State} (hnew : ∀ k, (s.wagers k).roundId = 0) :
    Ensures (processInitialize admin buryAuthority feeCollector godlPerRound signerInfo configInfo
      treasuryInfo boardInfo roundInfo systemProgram s) State.WagersInPlay := by
  simp only [processInitialize, checkFresh, ensures_bind, ensures_require, ensures_pure]
  intro _ _ _ _ _ _ _ _ _ _ _ _ _ _ _ _
  refine Ensures.mono (State.createAccount_spec _ _ _ _) ?_
  rintro _ ⟨-, _, rfl, -⟩
  refine Ensures.mono (State.createAccount_spec _ _ _ _) ?_
  rintro _ ⟨-, _, rfl, -⟩
  refine Ensures.mono (State.createAccount_spec _ _ _ _) ?_
  rintro _ ⟨-, _, rfl, -⟩
  refine Ensures.mono (State.createAccount_spec _ _ _ _) ?_
  rintro _ ⟨-, _, rfl, -⟩
  refine ⟨by simp, ?_, fun k => (hnew k).le, fun _ _ hpos => absurd rfl hpos⟩
  have h := Store.get_put_self s.rounds (Round.fresh 0 signerInfo.key)
  show (s.rounds.put (Round.fresh 0 signerInfo.key)).get (.roundPda 0) ≠ none
  rw [show Pubkey.roundPda 0 = (Round.fresh 0 signerInfo.key).pda from rfl, h]
  exact Option.some_ne_none _

/-! ## Runs -/

section Runs

variable {env : Env} {allowed : GodlInstruction → Prop} {s t : State} {h : History} {k : Pubkey}
  {r : ℕ} {w : Miner.Wager}

theorem State.WagersInPlay.run (hstart : s.WagersInPlay)
    (hrun : Run (Step env allowed) s h t) : t.WagersInPlay :=
  hrun.invariant hstart fun _ _ _ ht hstep => ht.step hstep.effect

/-- One more step after a bet. -/
theorem SettledOnce.cons {x : Transition State Label} (honce : SettledOnce k r w h)
    (hkept : (∀ y ∈ h, ¬ Settles k r y) → (x.after.wagers k).roundId = w.roundId ∧
      (x.after.wagers k).deployed = w.deployed ∧ (x.after.wagers k).cumulative = w.cumulative)
    (hover : Settles k r x → x.before.board.roundId ≠ r)
    (hdone : (∃ y ∈ h, Settles k r y) → (∃ legacy, x.label.kind = some (.checkpoint legacy)) →
      (x.before.wagers k).roundId = r → x.after.miners.get k = x.before.miners.get k) :
    SettledOnce k r w (x :: h) := by
  refine ⟨fun h₂ y h₁ heq => ?_, ?_, fun h₂ y h₁ heq => ?_⟩
  · rcases List.cons_eq_append_iff.1 heq with ⟨-, hnew⟩ | ⟨h₂', -, hold⟩
    · cases hnew
      exact hkept
    · exact honce.kept h₂' y h₁ hold
  · intro y hy
    rcases List.mem_cons.1 hy with rfl | hy
    · exact hover
    · exact honce.ended y hy
  · rcases List.cons_eq_append_iff.1 heq with ⟨-, hnew⟩ | ⟨h₂', -, hold⟩
    · cases hnew
      exact hdone
    · exact honce.once h₂' y h₁ hold

/-- The steps after a bet: it is there until it is settled. -/
theorem settledOnce_of_run (hstart : s.WagersInPlay) (hbet : s.wagers k = w)
    (hid : w.roundId = r) (hpending : w.checkpointId ≠ r) (hdeployed : ∃ sq, w.deployed sq ≠ 0)
    (hcurrent : r ≤ s.board.roundId) (hrun : Run (Step env allowed) s h t) :
    t.WagersInPlay ∧ r ≤ t.board.roundId ∧ SettledOnce k r w h ∧
      ((t.wagers k = w ∧ ∀ x ∈ h, ¬ Settles k r x) ∨
        (DoneWith t k r ∧ ∃ x ∈ h, Settles k r x)) := by
  refine hrun.induct (P := fun h t => t.WagersInPlay ∧ r ≤ t.board.roundId ∧
    SettledOnce k r w h ∧ ((t.wagers k = w ∧ ∀ x ∈ h, ¬ Settles k r x) ∨
      (DoneWith t k r ∧ ∃ x ∈ h, Settles k r x))) ?_ ?_
  · refine ⟨hstart, hcurrent, ⟨?_, ?_, ?_⟩, .inl ⟨hbet, ?_⟩⟩ <;> simp
  · rintro h t l u ⟨hplay, hle, honce, hphase⟩ hstep
    have hgame := hstep.effect.game hplay.setup
    refine ⟨hplay.step hstep.effect, hle.trans hgame.roundId_le, ?_⟩
    rcases hphase with ⟨hkept, hnone⟩ | ⟨hdone, hsome⟩
    · have hnosettle : ¬ ∃ x ∈ h, Settles k r x := by
        rintro ⟨x, hx, hsettles⟩
        exact hnone x hx hsettles
      rcases hplay.unsettled hgame hkept hid hpending hdeployed with
        ⟨hsame, hnot⟩ | ⟨hsettled, hsettles, hpast⟩
      · refine ⟨honce.cons (fun _ => ?_) (fun hsettles => absurd hsettles hnot)
          (fun hsome => absurd hsome hnosettle), .inl ⟨hsame, ?_⟩⟩
        · show (u.wagers k).roundId = _ ∧ (u.wagers k).deployed = _ ∧ (u.wagers k).cumulative = _
          rw [hsame]
          exact ⟨rfl, rfl, rfl⟩
        · exact List.forall_mem_cons.2 ⟨hnot, hnone⟩
      · refine ⟨honce.cons (fun _ => ?_) (fun _ => hpast)
          (fun hsome => absurd hsome hnosettle), .inr ⟨⟨?_, .inl ⟨?_, ?_⟩⟩, ?_⟩⟩
        · show (u.wagers k).roundId = _ ∧ (u.wagers k).deployed = _ ∧ (u.wagers k).cumulative = _
          rw [hsettled]
          exact ⟨rfl, rfl, rfl⟩
        · have hlt : r < t.board.roundId := lt_of_le_of_ne hle hpast.symm
          exact lt_of_lt_of_le hlt hgame.roundId_le
        · rw [hsettled]
          exact hid
        · rw [hsettled]
        · exact ⟨_, List.mem_cons_self .., hsettles⟩
    · obtain ⟨y, hy, hsettles⟩ := hsome
      refine ⟨honce.cons (fun hnone => absurd hsettles (hnone y hy)) (fun _ => ?_) ?_,
        .inr ⟨hdone.step hgame, y, List.mem_cons_of_mem _ hy, hsettles⟩⟩
      · exact (ne_of_lt hdone.1).symm
      · rintro - ⟨legacy, hcheckpoint⟩ hround
        refine hgame.settledMiner hcheckpoint ?_
        rcases hdone.2 with ⟨hsame, hcheckpointed⟩ | hlater
        · rw [hcheckpointed, hsame]
        · exact absurd hround (ne_of_lt hlater).symm

/-- A deployment bets on the current round, and the miner has not settled that. -/
theorem State.WagersInPlay.bets {l : Label} (hplay : s.WagersInPlay) (hgame : GameStep s t l)
    (hbets : Bets k r ⟨s, l, t⟩) (hpos : r ≠ 0) :
    r = s.board.roundId ∧ t.board.roundId = r ∧ (t.wagers k).checkpointId ≠ r := by
  obtain ⟨hkind, hchanged, hid, -⟩ := hbets
  have hroundId := hgame.roundId
  rw [show l.kind = some .deploy from hkind, if_neg (by simp), Nat.add_zero] at hroundId
  dsimp only at hchanged hid
  rcases hgame.wager k with ⟨hkept⟩ | ⟨hkind', -⟩ | ⟨-, hready, hbet, hcheckpoint⟩
  · exact absurd hkept hchanged
  · rw [show l.kind = some .deploy from hkind] at hkind'
    cases hkind'
  · have hcurrent : r = s.board.roundId := hid.symm.trans hbet
    refine ⟨hcurrent, hroundId.trans hcurrent.symm, ?_⟩
    rw [hcheckpoint, hcurrent]
    rcases hready with ⟨hnew, hdone⟩ | ⟨hsame, -⟩
    · rw [hdone]
      exact hnew
    · exact hplay.pending k hsame (hcurrent ▸ hpos)

/-- A bet is settled once in whatever follows it. -/
theorem State.WagersInPlay.settledOnce {l : Label} {u : State} (hplay : s.WagersInPlay)
    (hstep : Step env allowed s l t) (hbets : Bets k r ⟨s, l, t⟩) (hpos : 1 ≤ r)
    (hafter : Run (Step env allowed) t h u) : SettledOnce k r (t.wagers k) h := by
  have hgame := hstep.effect.game hplay.setup
  obtain ⟨-, hcurrent, hpending⟩ := hplay.bets hgame hbets (by omega)
  exact (settledOnce_of_run (hplay.step hstep.effect) rfl hbets.2.2.1 hpending hbets.2.2.2
    hcurrent.ge hafter).2.2.1

/-- **Every bet is settled exactly once.**  After a deployment that leaves a miner with a bet
on round `r`, whatever anyone calls, the miner keeps its bet until a checkpoint settles it;
no checkpoint does while round `r` is the current one; and afterwards none credits or
forfeits anything for that round again. -/
theorem bet_settled_once {h₁ h₂ : History} {x : Transition State Label}
    (hplay : s.WagersInPlay) (hrun : Run (Step env allowed) s (h₂ ++ x :: h₁) t)
    (hbets : Bets k r x) (hpos : 1 ≤ r) : SettledOnce k r (x.after.wagers k) h₂ := by
  obtain ⟨hbefore, hstep, hafter⟩ := hrun.split
  exact (hplay.run hbefore).settledOnce hstep hbets hpos hafter

/-- Every bet is settled once from the setup on, where nobody has played before it. -/
theorem settledOnce_of_setup {h₁ h₂ : History} {x : Transition State Label} {clock : Clock}
    {admin buryAuthority feeCollector : Pubkey} {godlPerRound : ℕ} {accounts : List AccountInfo}
    {cpi : Cpi} {s₀ : State} (hnew : ∀ k, (s₀.wagers k).roundId = 0)
    (hsetup : processInstruction env clock
      (.initializeProgram admin buryAuthority feeCollector godlPerRound) accounts cpi s₀ = .ok s)
    (hrun : Run (Step env allowed) s (h₂ ++ x :: h₁) t) (hbets : Bets k r x) (hpos : 1 ≤ r) :
    SettledOnce k r (x.after.wagers k) h₂ := by
  have hplay : s.WagersInPlay := by
    simp only [processInstruction] at hsetup
    split at hsetup
    · exact (processInitialize_wagersInPlay _ _ _ _ _ _ _ _ _ _ hnew).elim hsetup
    · cases hsetup
  obtain ⟨hbefore, hstep, hafter⟩ := hrun.split
  exact (hplay.run hbefore).settledOnce hstep hbets hpos hafter

end Runs

/-- Nobody has played at a fresh table. -/
theorem wagersInPlay_table (roundId : ℕ) (value : Hash) :
    (State.table roundId value).WagersInPlay where
  setup := rfl
  current := by
    show (State.table roundId value).rounds.get (.roundPda roundId) ≠ none
    rw [State.table_round]
    exact Option.some_ne_none _
  played _ := Nat.zero_le _
  pending _ hid hpos := absurd hid.symm hpos

/-- The bet of player 7 in such a round. -/
theorem bet_settled_once_round : ∃ (h h' : History) (x : Transition State Label) (s : State),
    Run (Step .plain anyInstruction) (State.table 1 25#256) (h' ++ x :: h) s ∧ h'.length = 6 ∧
    (s.wagers (.minerPda (.key 7))).checkpointId = 1 ∧
    SettledOnce (.minerPda (.key 7)) 1 (x.after.wagers (.minerPda (.key 7))) h' := by
  obtain ⟨h, t, t', h', u, hrun, hlabels, hbefore, hafter, hlast⟩ :=
    exists_step_of_perform .plain anyInstruction (State.table 1 25#256) [] openingBet
      roundScript (fun s => (s.wagers (.minerPda (.key 7))).roundId = 0)
      (fun s => (s.wagers (.minerPda (.key 7))).roundId = 1 ∧
        (s.wagers (.minerPda (.key 7))).deployed 0 = 1000)
      (fun s => (s.wagers (.minerPda (.key 7))).checkpointId = 1)
      (fun _ _ => trivial) (by decide +kernel) (by decide +kernel) (by decide +kernel)
  simp only [decide_eq_true_eq] at hbefore hafter hlast
  have hbets : Bets (.minerPda (.key 7)) 1 ⟨t, openingBet.label, t'⟩ := by
    refine ⟨rfl, fun heq => ?_, hafter.1, 0, ?_⟩
    · dsimp only at heq
      rw [← heq, hafter.1] at hbefore
      cases hbefore
    · dsimp only
      rw [hafter.2]
      decide
  exact ⟨h, h', _, u, hrun, by simpa [roundScript] using congrArg List.length hlabels, hlast,
    bet_settled_once (wagersInPlay_table 1 _) hrun hbets (le_refl 1)⟩

end Godl
