import Godl.Proof.GameSteps
import Godl.Script

/-!
# The life of a round

A round is played, reset, paid out and closed, in this order.  Its phases are encoded by
sentinels that four handlers read: a round that waits has no slot hash, a clock that
stands still shows the last slot, and a round pays until it expires.

## Main definitions

* `State.RoundsInPlay` — the current round waits for its hash, and none is ahead of it.
* `Resets`, `Credits`, `Closes` — what can happen to a round.
* `Lifecycle` — the order in which it happens.
* `round_lifecycle` — every run keeps to it.
-/

namespace Godl

open Lib

/-- The program is set up, the current round waits for its slot hash, and no round is ahead
of it. -/
structure State.RoundsInPlay (s : State) : Prop where
  setup : s.opened .treasury = true
  current : ∃ round, s.rounds.get (.roundPda s.board.roundId) = some round ∧ round.slotHash = 0
  ahead : ∀ id, s.board.roundId < id → s.rounds.get (.roundPda id) = none

/-- Round `r` is reset. -/
def Resets (r : ℕ) (x : Transition State Label) : Prop :=
  x.label.kind = some .reset ∧ x.before.board.roundId = r

/-- A checkpoint credits the miner at `k` with a reward for round `r`. -/
def Credits (k : Pubkey) (r : ℕ) (x : Transition State Label) : Prop :=
  (∃ legacy, x.label.kind = some (.checkpoint legacy)) ∧
    ∃ m m', x.before.miners.get k = some m ∧ x.after.miners.get k = some m' ∧ m.roundId = r ∧
      (m'.rewardsSol ≠ m.rewardsSol ∨ m'.rewardsGodl ≠ m.rewardsGodl)

/-- Round `r` is closed. -/
def Closes (r : ℕ) (x : Transition State Label) : Prop :=
  x.label.kind = some .close ∧ x.before.rounds.get (.roundPda r) ≠ none ∧
    x.after.rounds.get (.roundPda r) = none

/-- From `slot` on some checkpoint would still credit a reward for round `r`. -/
def Claimable (env : Env) (r slot : ℕ) (s : State) : Prop :=
  ∃ clock ix accounts cpi s' k, slot ≤ clock.slot ∧
    processInstruction env clock ix accounts cpi s = .ok s' ∧
    Credits k r ⟨s, .call clock ix accounts cpi, s'⟩

/-- The steps `h` from `s` on keep to the life of a round: the board moves on by one round
with each reset, so that each is reset once; a clock that runs is not touched until then;
deployments are for the current round, before its clock runs out and while it has no hash; a
round that was reset is frozen; it pays after
its reset and before it expires; and it is closed when it has expired, after which nothing
is paid out of it. -/
structure Lifecycle (env : Env) (s : State) (h : History) : Prop where
  advances : ∀ x ∈ h, x.after.board.roundId =
    x.before.board.roundId + if x.label.kind = some .reset then 1 else 0
  resetOnce : h.Pairwise fun y x => ∀ r, Resets r x → ¬ Resets r y
  clockKept : ∀ x ∈ h, x.label.kind ≠ some .reset → x.before.board.endSlot ≠ u64Max →
    x.after.board = x.before.board
  deployed : ∀ x ∈ h, ∀ slot, x.label.kind = some .deploy → x.label.slot = some slot →
    slot < x.before.board.endSlot ∧ slot < x.after.board.endSlot ∧
    (∃ round, x.before.rounds.get (.roundPda x.before.board.roundId) = some round ∧
      round.slotHash = 0) ∧
    ∀ id, id ≠ x.before.board.roundId →
      x.after.rounds.get (.roundPda id) = x.before.rounds.get (.roundPda id)
  frozen : ∀ h₂ x h₁ r, h = h₂ ++ x :: h₁ → Resets r x → ∀ y ∈ h₂, ∀ round',
    y.after.rounds.get (.roundPda r) = some round' →
    ∃ round, x.after.rounds.get (.roundPda r) = some round ∧ round.Frozen round'
  credited : ∀ h₂ x h₁ k r slot, h = h₂ ++ x :: h₁ → Credits k r x → x.label.slot = some slot →
    (r < s.board.roundId ∨ ∃ y ∈ h₁, Resets r y) ∧
    ∃ round, x.before.rounds.get (.roundPda r) = some round ∧ round.slotHash ≠ 0 ∧
      slot < round.expiresAt
  closed : ∀ x ∈ h, ∀ r slot, Closes r x → x.label.slot = some slot →
    (∃ round, x.before.rounds.get (.roundPda r) = some round ∧ round.expiresAt < slot) ∧
    ¬ Claimable env r slot x.before
  gone : ∀ h₂ x h₁ r, h = h₂ ++ x :: h₁ → Closes r x → ∀ y ∈ h₂, ∀ k, ¬ Credits k r y

/-! ## Steps -/

section Step

variable {allowed : GodlInstruction → Prop} {s s' : State} {l : Label} {k : Pubkey} {r : ℕ}

/-- The current round always waits, and no round is ahead of it. -/
theorem State.RoundsInPlay.step (h : s.RoundsInPlay) (hstep : StepEffect allowed s s' l) :
    s'.RoundsInPlay := by
  have hgame := hstep.game h.setup
  have hopened := hstep.opened h.setup h.setup
  obtain ⟨current, hcurrent, hwaits⟩ := h.current
  cases hgame with
  | still _ hsame =>
    refine ⟨hopened, ⟨current, ?_, hwaits⟩, ?_⟩
    · rwa [hsame.board, hsame.rounds]
    · rw [hsame.board, hsame.rounds]
      exact h.ahead
  | checkpoint _ hcheckpointed =>
    rcases hcheckpointed with ⟨rfl⟩ | ⟨_, -, -, -, rfl⟩ | ⟨_, round, round', _, _, _, hcredited⟩
    · exact ⟨hopened, ⟨current, hcurrent, hwaits⟩, h.ahead⟩
    · exact ⟨hopened, ⟨current, hcurrent, hwaits⟩, h.ahead⟩
    · -- The round that pays is there, and is not the current one.
      have hpda : round'.pda = .roundPda round.id := by
        rw [hcredited.frozen]
        rfl
      have hold : ∀ id, id ≠ round.id →
          s'.rounds.get (.roundPda id) = s.rounds.get (.roundPda id) := by
        intro id hid
        rw [hcredited.rounds]
        refine Store.get_put_of_ne _ ?_
        rw [hpda]
        simpa using hid
      refine ⟨hopened, ⟨current, ?_, hwaits⟩, fun id hid => ?_⟩
      · rw [hcredited.board, hold _ hcredited.past.symm]
        exact hcurrent
      · rw [hcredited.board] at hid
        have hne : id ≠ round.id := by
          rintro rfl
          have hget := hcredited.getRound
          rw [h.ahead _ hid] at hget
          cases hget
        rw [hold id hne]
        exact h.ahead id hid
  | deploy _ hdeployed =>
    obtain ⟨_, round, round', _, _, _, _, _, hwagered, -⟩ := hdeployed
    have hsame : current = round := by
      have hget := hwagered.getRound
      rw [hcurrent] at hget
      exact Option.some.inj hget
    refine ⟨hopened, ⟨round', ?_, ?_⟩, fun id hid => ?_⟩
    · rw [hwagered.roundId, hwagered.getRound_after]
    · rw [hwagered.frame, ← hsame]
      exact hwaits
    · rw [hwagered.roundId] at hid
      rw [hwagered.getRound_of_ne (ne_of_gt hid)]
      exact h.ahead id hid
  | @reset _ _ _ _ _ a _ _ _ _ hreset =>
    refine ⟨hopened, ⟨Round.fresh (s.board.roundId + 1) a.signerInfo.key, ?_, rfl⟩,
      fun id hid => ?_⟩
    · rw [hreset.board, hreset.roundsAfter, if_neg (by simp), if_pos rfl]
    · rw [hreset.board] at hid
      dsimp only at hid
      rw [hreset.roundsAfter, if_neg (by omega), if_neg (by omega)]
      exact h.ahead id (by omega)
  | @close _ _ _ _ round _ hclosed =>
    have hpast := hclosed.past
    refine ⟨hopened, ⟨current, ?_, hwaits⟩, fun id hid => ?_⟩
    · rw [hclosed.board, hclosed.rounds, Store.get_erase, if_neg]
      · exact hcurrent
      · simp only [Pubkey.roundPda.injEq]
        omega
    · rw [hclosed.board] at hid
      rw [hclosed.rounds, Store.get_erase, h.ahead id hid, ite_self]

theorem Config.getRoundSlots_pos (c : Config) : 0 < c.getRoundSlots := by
  unfold Config.getRoundSlots
  split
  · decide
  · omega

/-- A clock that runs is kept until the reset. -/
theorem GameStep.clockKept (h : GameStep s s' l) (hkind : l.kind ≠ some .reset)
    (hruns : s.board.endSlot ≠ u64Max) : s'.board = s.board := by
  cases h with
  | still _ hsame => exact hsame.board
  | checkpoint _ hcheckpointed =>
    rcases hcheckpointed with ⟨rfl⟩ | ⟨_, -, -, -, rfl⟩ | ⟨_, _, _, _, _, _, hcredited⟩
    · rfl
    · rfl
    · exact hcredited.board
  | deploy _ hdeployed =>
    obtain ⟨_, _, _, _, _, _, _, _, hwagered, -⟩ := hdeployed
    rcases hwagered.clockwork with ⟨-, hboard, -⟩ | ⟨hstopped, -⟩
    · exact hboard
    · exact absurd hstopped hruns
  | reset hreset _ => exact absurd (congrArg some hreset) hkind
  | close _ hclosed => exact hclosed.board

/-- A deployment is early enough, and only writes to the current round. -/
theorem GameStep.deployed (h : GameStep s s' l) (hkind : l.kind = some .deploy) :
    (∀ slot, l.slot = some slot → slot < s.board.endSlot ∧ slot < s'.board.endSlot) ∧
      ∀ id, id ≠ s.board.roundId →
        s'.rounds.get (.roundPda id) = s.rounds.get (.roundPda id) := by
  cases h with
  | still hstill _ => exact absurd trivial (hstill _ hkind)
  | deploy _ hdeployed =>
    obtain ⟨_, round, round', _, _, _, _, _, hwagered, -⟩ := hdeployed
    refine ⟨?_, fun id hid => hwagered.getRound_of_ne hid⟩
    · rintro slot ⟨⟩
      refine ⟨hwagered.open_.2, ?_⟩
      rcases hwagered.clockwork with ⟨-, hboard, -⟩ | ⟨-, -, hboard, -⟩
      · rw [hboard]
        exact hwagered.open_.2
      · rw [hboard]
        exact Nat.lt_add_of_pos_right s.config.getRoundSlots_pos
  | checkpoint hother _ => simp [hother] at hkind
  | reset hother _ => simp [hother] at hkind
  | close hother _ => simp [hother] at hkind

/-- **A credit comes out of a round that is reset, over and not expired.** -/
theorem GameStep.credits (h : GameStep s s' l) (hcredits : Credits k r ⟨s, l, s'⟩) :
    r ≠ s.board.roundId ∧ ∃ round, s.rounds.get (.roundPda r) = some round ∧
      round.slotHash ≠ 0 ∧ ∀ slot, l.slot = some slot → slot < round.expiresAt := by
  obtain ⟨⟨legacy, hkind⟩, m, m', hm, hm', hid, hchanged⟩ := hcredits
  dsimp only at hkind hm hm'
  -- A miner that is written back with its rewards is not credited.
  have hsame : m'.rewardsSol = m.rewardsSol → m'.rewardsGodl = m.rewardsGodl → False := by
    intro hsol hgodl
    rcases hchanged with h | h
    · exact h hsol
    · exact h hgodl
  cases h with
  | still hstill _ => exact absurd trivial (hstill _ hkind)
  | deploy hother _ => simp [hother] at hkind
  | reset hother _ => simp [hother] at hkind
  | close hother _ => simp [hother] at hkind
  | checkpoint _ hcheckpointed =>
    rcases hcheckpointed with ⟨rfl⟩ | ⟨miner, hget, -, -, rfl⟩ |
      ⟨miner, round, round', _, _, _, hcredited⟩
    · rw [hm] at hm'
      cases hm'
      exact (hsame rfl rfl).elim
    · rw [forfeit_get] at hm'
      split at hm'
      · next hk =>
        subst hk
        rw [hget] at hm
        cases hm
        cases hm'
        exact (hsame rfl rfl).elim
      · rw [hm] at hm'
        cases hm'
        exact (hsame rfl rfl).elim
    · by_cases hk : k = .minerPda miner.authority
      · subst hk
        have hget := hcredited.getMiner
        rw [hm] at hget
        cases hget
        have hplayed := hcredited.played.trans hid
        subst hplayed
        refine ⟨hcredited.past, round, hcredited.getRound, hcredited.isReset, ?_⟩
        rintro slot ⟨⟩
        exact hcredited.live
      · obtain ⟨w, hminers, hauth, -⟩ := hcredited.credited
        rw [hminers, Store.get_put_of_ne _ (by rw [Miner.pda, hauth]; exact hk), hm] at hm'
        cases hm'
        exact (hsame rfl rfl).elim

/-- **A round is closed when it is over and expired.** -/
theorem GameStep.closes (h : GameStep s s' l) (hcloses : Closes r ⟨s, l, s'⟩) :
    r < s.board.roundId ∧ ∃ round, s.rounds.get (.roundPda r) = some round ∧
      ∀ slot, l.slot = some slot → round.expiresAt < slot := by
  obtain ⟨hkind, hthere, hgone⟩ := hcloses
  dsimp only at hkind hthere hgone
  cases h with
  | still hstill _ => exact absurd trivial (hstill _ hkind)
  | deploy hother _ => simp [hother] at hkind
  | reset hother _ => simp [hother] at hkind
  | checkpoint hother _ => simp [hother] at hkind
  | @close _ _ _ _ round _ hclosed =>
    rw [hclosed.rounds, Store.get_erase] at hgone
    split at hgone
    · next heq =>
      injection heq with heq
      subst heq
      refine ⟨hclosed.past, round, hclosed.getRound, ?_⟩
      rintro slot ⟨⟩
      exact hclosed.expired
    · exact absurd hgone hthere

end Step

/-! ## Runs -/

section Runs

variable {env : Env} {allowed : GodlInstruction → Prop} {s t : State} {h : History} {k : Pubkey}
  {r : ℕ}

theorem State.RoundsInPlay.run (hstart : s.RoundsInPlay)
    (hrun : Run (Step env allowed) s h t) : t.RoundsInPlay :=
  hrun.invariant hstart fun _ _ _ ht hstep => ht.step hstep.effect

theorem roundId_le_of_run (hstart : s.RoundsInPlay) (hrun : Run (Step env allowed) s h t) :
    s.board.roundId ≤ t.board.roundId := by
  have hinv := hrun.invariant (P := fun u => u.RoundsInPlay ∧ s.board.roundId ≤ u.board.roundId)
    ⟨hstart, le_refl _⟩ fun t l u ht hstep =>
      ⟨ht.1.step hstep.effect, ht.2.trans (hstep.effect.game ht.1.setup).roundId_le⟩
  exact hinv.2

/-- **A round that is over stays frozen along every run**, and once closed stays closed. -/
theorem pastRound_of_run (hstart : s.RoundsInPlay) (hpast : r < s.board.roundId)
    (hrun : Run (Step env allowed) s h t) {round' : Round}
    (hget : t.rounds.get (.roundPda r) = some round') :
    ∃ round, s.rounds.get (.roundPda r) = some round ∧ round.Frozen round' := by
  refine (hrun.invariant (P := fun u => u.RoundsInPlay ∧ r < u.board.roundId ∧
    ∀ round', u.rounds.get (.roundPda r) = some round' →
      ∃ round, s.rounds.get (.roundPda r) = some round ∧ round.Frozen round')
    ⟨hstart, hpast, fun round hround => ⟨round, hround, .refl round⟩⟩ ?_).2.2 round' hget
  rintro t l u ⟨hplay, hpast, hfrozen⟩ hstep
  have hgame := hstep.effect.game hplay.setup
  refine ⟨hplay.step hstep.effect, lt_of_lt_of_le hpast hgame.roundId_le, fun round' hget => ?_⟩
  rcases hgame.pastRound hpast with ⟨-, hafter⟩ | ⟨hbefore, hafter, hkept⟩ | ⟨-, -, hafter, -⟩
  · rw [hafter] at hget
    cases hget
  · rw [hafter] at hget
    cases hget
    obtain ⟨round, hround, hold⟩ := hfrozen _ hbefore
    exact ⟨round, hround, hold.trans hkept⟩
  · rw [hafter] at hget
    cases hget

/-- The rounds that were reset are those that the board has passed since the start. -/
theorem resets_of_run (hstart : s.RoundsInPlay) (hrun : Run (Step env allowed) s h t) :
    h.Pairwise (fun y x => ∀ r, Resets r x → ¬ Resets r y) ∧
      ∀ r, (s.board.roundId ≤ r ∧ r < t.board.roundId) ↔ ∃ x ∈ h, Resets r x := by
  refine (hrun.induct (P := fun h t => t.RoundsInPlay ∧ s.board.roundId ≤ t.board.roundId ∧
    h.Pairwise (fun y x => ∀ r, Resets r x → ¬ Resets r y) ∧
    ∀ r, (s.board.roundId ≤ r ∧ r < t.board.roundId) ↔ ∃ x ∈ h, Resets r x)
    ⟨hstart, le_refl _, .nil, fun r => by simp⟩ ?_).2.2
  rintro h t l u ⟨hplay, hle, honce, hiff⟩ hstep
  have hgame := hstep.effect.game hplay.setup
  have hroundId := hgame.roundId
  refine ⟨hplay.step hstep.effect, hle.trans hgame.roundId_le, ?_, fun r => ?_⟩
  · refine List.pairwise_cons.2 ⟨fun x hx r hreset hagain => ?_, honce⟩
    have hlt := ((hiff r).2 ⟨x, hx, hreset⟩).2
    have heq : t.board.roundId = r := hagain.2
    omega
  · rw [List.exists_mem_cons_iff, ← hiff r, Resets]
    split at hroundId
    · next hkind =>
      simp only [hkind, true_and]
      omega
    · next hkind =>
      simp only [hkind, false_and, false_or]
      omega

/-- **Every run keeps to the life of a round.** -/
theorem round_lifecycle (hplay : s.RoundsInPlay) (hrun : Run (Step env allowed) s h t) :
    Lifecycle env s h := by
  have hat : ∀ x ∈ h, x.before.RoundsInPlay ∧ GameStep x.before x.after x.label := by
    intro x hx
    obtain ⟨h₁, hbefore, hstep⟩ := hrun.of_mem hx
    have hplay' := hplay.run hbefore
    exact ⟨hplay', hstep.effect.game hplay'.setup⟩
  have hcloses : ∀ x ∈ h, ∀ r, Closes r x → r < x.before.board.roundId ∧
      ∃ round, x.before.rounds.get (.roundPda r) = some round ∧
        ∀ slot, x.label.slot = some slot → round.expiresAt < slot :=
    fun x hx r => (hat x hx).2.closes
  constructor
  case advances => exact fun x hx => (hat x hx).2.roundId
  case resetOnce => exact (resets_of_run hplay hrun).1
  case clockKept => exact fun x hx => (hat x hx).2.clockKept
  case deployed =>
    intro x hx slot hkind hslot
    obtain ⟨hopen, hothers⟩ := (hat x hx).2.deployed hkind
    exact ⟨(hopen slot hslot).1, (hopen slot hslot).2, (hat x hx).1.current, hothers⟩
  case frozen =>
    rintro h₂ x h₁ r rfl ⟨hkind, hround⟩ y hy round' hget
    obtain ⟨hbefore, hstep, hafter⟩ := hrun.split
    have hx := hat x (List.mem_append_right _ (List.mem_cons_self ..))
    have hpast : r < x.after.board.roundId := by
      rw [hx.2.roundId, if_pos hkind, hround]
      exact Nat.lt_succ_self r
    obtain ⟨a, b, rfl⟩ := List.append_of_mem hy
    obtain ⟨hbetween, hlast, -⟩ := hafter.split
    exact pastRound_of_run (hx.1.step hstep.effect) hpast (hbetween.step hlast) hget
  case credited =>
    rintro h₂ x h₁ k r slot rfl hcredits hslot
    have hx := hat x (List.mem_append_right _ (List.mem_cons_self ..))
    obtain ⟨hover, round, hget, hreset, hlive⟩ := hx.2.credits hcredits
    refine ⟨?_, round, hget, hreset, hlive slot hslot⟩
    -- The round is there and not current, so the board has passed it.
    have hpast : r < x.before.board.roundId := by
      by_contra hge
      have hnone := hx.1.ahead r (by omega)
      rw [hget] at hnone
      cases hnone
    by_cases hold : r < s.board.roundId
    · exact .inl hold
    · exact .inr (((resets_of_run hplay hrun.split.1).2 r).1 ⟨not_lt.1 hold, hpast⟩)
  case closed =>
    intro x hx r slot hclose hslot
    obtain ⟨-, round, hget, hexpired⟩ := hcloses x hx r hclose
    refine ⟨⟨round, hget, hexpired slot hslot⟩, ?_⟩
    rintro ⟨clock, ix, accounts, cpi, s', k, hle, hok, hcredits⟩
    have hstep : Step env anyInstruction x.before (.call clock ix accounts cpi) s' :=
      .call trivial hok
    have hgame := hstep.effect.game (hat x hx).1.setup
    obtain ⟨-, round', hget', -, hlive⟩ := hgame.credits hcredits
    rw [hget] at hget'
    cases hget'
    have := hexpired slot hslot
    have := hlive clock.slot rfl
    omega
  case gone =>
    rintro h₂ x h₁ r rfl hclose y hy k hcredits
    obtain ⟨hbefore, hstep, hafter⟩ := hrun.split
    have hx := hat x (List.mem_append_right _ (List.mem_cons_self ..))
    obtain ⟨hpast, -⟩ := hcloses x (List.mem_append_right _ (List.mem_cons_self ..)) r hclose
    have hy' := hat y (List.mem_append_left _ hy)
    obtain ⟨-, round, hget, -⟩ := hy'.2.credits hcredits
    obtain ⟨a, b, rfl⟩ := List.append_of_mem hy
    obtain ⟨hbetween, -, -⟩ := hafter.split
    have hpast' : r < x.after.board.roundId := lt_of_lt_of_le hpast hx.2.roundId_le
    obtain ⟨round', hthere, -⟩ :=
      pastRound_of_run (hx.1.step hstep.effect) hpast' hbetween hget
    rw [hclose.2.2] at hthere
    cases hthere

end Runs

/-- A fresh table is in play. -/
theorem roundsInPlay_table (roundId : ℕ) (value : Hash) :
    (State.table roundId value).RoundsInPlay := by
  refine ⟨rfl, ⟨_, State.table_round roundId _, rfl⟩, fun id hid => ?_⟩
  refine Store.get_put_of_ne _ ?_
  have hne : id ≠ roundId := (ne_of_lt hid).symm
  simpa [Round.fresh, Round.pda] using hne

/-- The life of round 1. -/
theorem round_lifecycle_script : ∃ (h : History) (s : State),
    Run (Step .plain anyInstruction) (State.table 1 25#256) h s ∧ h.length = 7 ∧
    s.rounds.get (.roundPda 1) = none ∧ Lifecycle .plain (State.table 1 25#256) h := by
  obtain ⟨h, s, hrun, hlabels, hclosed⟩ := exists_run_of_perform .plain anyInstruction
    (State.table 1 25#256) (openingBet :: roundScript)
    (fun s => s.rounds.get (.roundPda 1) = none) (fun _ _ => trivial) (by decide +kernel)
  exact ⟨h, s, hrun, by simpa [roundScript] using congrArg List.length hlabels,
    by simpa using hclosed, round_lifecycle (roundsInPlay_table 1 _) hrun⟩

end Godl
