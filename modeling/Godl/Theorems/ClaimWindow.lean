import Godl.Proof.Registry
import Godl.Proof.ResetTiming
import Godl.Theorems.Rounds

/-!
# The time to be paid

The deployment that starts the clock of a round fixes the slot in which the round expires,
a day after its clock runs out.  The intermission decides when the round can be reset, and is
read when that happens.  Between the reset and the expiry lies the time in which winners are
paid; an intermission of a whole day, which is accepted, leaves none.

## Main definitions

* `State.ClockExpires` — the current round expires a day after its clock runs out.
* `DueCheckpoint`, `Rewarded` — a checkpoint that is due, and one that pays.
* `State.ClaimWindow` — a reset leaves time to be paid.
* `State.NeverPays` — after a reset, nobody is.
* `claim_window_iff` — there is time exactly when the intermission is shorter than a day.
-/

namespace Godl

open Lib

/-- A clock that runs was started by a deployment, which fixed when the round expires. -/
def State.ClockExpires (s : State) : Prop :=
  s.board.endSlot ≠ u64Max → ∃ round, s.rounds.get (.roundPda s.board.roundId) = some round ∧
    round.expiresAt = s.board.endSlot + oneDaySlots ∧ s.board.endSlot + oneDaySlots < u64Bound

/-- Every round expires at least twelve hours after the first slot. -/
def State.ExpiresLate (s : State) : Prop := s.rounds.All fun r => twelveHoursSlots ≤ r.expiresAt

/-- The accounts of a checkpoint that both layouts share. -/
def checkpointAccounts : List AccountInfo → Option CheckpointAccounts
  | a :: b :: c :: d :: e :: f :: g :: h :: _ => some ⟨a, b, c, d, e, f, g, h⟩
  | _ => none

/-- A checkpoint, which is accepted, of a miner that has still to be paid for round `r`; the
account of that round is passed. -/
structure DueCheckpoint (env : Env) (clock : Clock) (r : ℕ) (a : CheckpointAccounts) (miner : Miner)
    (s s' : State) : Prop where
  call : ∃ legacy ix accounts cpi, ix.kind = .checkpoint legacy ∧
    checkpointAccounts accounts = some a ∧ processInstruction env clock ix accounts cpi s = .ok s'
  getMiner : s.miners.get a.minerInfo.key = some miner
  roundKey : a.roundInfo.key = .roundPda r
  played : miner.roundId = r
  pending : miner.checkpointId ≠ miner.roundId

/-- A checkpoint credits a miner with what it won. -/
def Rewarded (clock : Clock) (a : CheckpointAccounts) (miner : Miner) (s s' : State) : Prop :=
  ∃ legacy round round' poolMember rewardsSol rewardsGodl,
    Credited clock a legacy s s' miner round round' poolMember rewardsSol rewardsGodl

/-- A reset in `slot` leaves time to be paid: there are slots before the round expires, and
whatever happens in them, every checkpoint of a player in them credits what it won. -/
structure State.ClaimWindow (env : Env) (s : State) (round : Round) (slot : ℕ) : Prop where
  inTime : slot < round.expiresAt
  pays : ∀ s₁ h u clock a miner u', ResetsAt env slot s s₁ →
    Run (Step env anyInstruction) s₁ h u →
    (∀ x ∈ h, ∀ n, x.label.slot = some n → n < round.expiresAt) →
    clock.slot < round.expiresAt → DueCheckpoint env clock s.board.roundId a miner u u' →
    Rewarded clock a miner u u'

/-- Whenever the round is reset, and whatever happens then, every checkpoint of a player forfeits
what it won. -/
def State.NeverPays (env : Env) (s : State) : Prop :=
  ∀ slot s₁ h u clock a miner u', ResetsAt env slot s s₁ → Run (Step env anyInstruction) s₁ h u →
    slot ≤ clock.slot → DueCheckpoint env clock s.board.roundId a miner u u' → u' = forfeit miner u

/-! ## The settings -/

section Settings

variable {env : Env} {allowed : GodlInstruction → Prop} {s s' t : State} {l : Label} {h : History}

/-- The earliest reset of a round comes before it expires when the intermission is shorter than
a day. -/
theorem Config.earliestReset_lt {c : Config} {endSlot : ℕ}
    (hfits : endSlot + oneDaySlots < u64Bound) :
    c.earliestReset endSlot < endSlot + oneDaySlots ↔ c.getIntermissionSlots < oneDaySlots := by
  rw [Config.earliestReset, saturatingAddU64]
  simp only [u64Max, u64Bound] at *
  omega

/-- Accepted settings stay accepted. -/
theorem Config.Accepted.step (h : s.config.Accepted) (hstep : Step env allowed s l s') :
    s'.config.Accepted := by
  cases hstep with
  | world hworld =>
    rw [hworld.accounts]
    exact h
  | call _ hok =>
    have hregistry := (processInstruction_registry _ _ _ _ _ s).elim hok
    show s'.registry.config.Accepted
    generalize s'.registry = r at hregistry
    cases hregistry with
    | kept => exact h
    | locked => exact h
    | named => exact h
    | config c hwrites =>
      show c.Accepted
      rcases hwrites.slots with ⟨hround, hintermission⟩ | haccepted
      · constructor
        · rw [hround]
          exact h.roundSlots
        · rw [hintermission]
          exact h.intermissionSlots
      · exact haccepted

/-- **The settings are accepted ones along every run.** -/
theorem Config.Accepted.run (h : s.config.Accepted) (hrun : Run (Step env allowed) s h' t) :
    t.config.Accepted :=
  hrun.invariant (P := fun u => u.config.Accepted) h fun _ _ _ hu hstep => hu.step hstep

end Settings

/-! ## When a round expires -/

section Expiry

variable {env : Env} {allowed : GodlInstruction → Prop} {s s' t : State} {l : Label} {h : History}

/-- A verdict leaves the expiry alone. -/
theorem State.verdict_expiresAt (s : State) (round : Round) (topMiner : Pubkey) :
    (s.verdict round topMiner).round.expiresAt = round.expiresAt := by
  unfold State.verdict
  split
  · rfl
  · split
    · rfl
    · simp only [State.winnersVerdict, payMotherlode]
      split <;> rfl

/-- Only the deployment that starts the clock writes when the round expires. -/
theorem State.ClockExpires.step (h : s.ClockExpires) (hgame : GameStep s s' l) :
    s'.ClockExpires := by
  rw [State.ClockExpires] at h ⊢
  cases hgame with
  | still _ hsame =>
    rw [hsame.board, hsame.rounds]
    exact h
  | checkpoint _ hcheckpointed =>
    obtain ⟨hboard, hrounds⟩ := hcheckpointed.current
    rw [hboard, hrounds]
    exact h
  | deploy _ hdeployed =>
    obtain ⟨_, round, round', _, _, _, _, _, hwagered, -⟩ := hdeployed
    rw [hwagered.roundId, hwagered.getRound_after]
    intro hruns
    refine ⟨round', rfl, ?_⟩
    rcases hwagered.clockwork with ⟨hstarted, hboard, hexpires⟩ | ⟨-, hfits, hboard, hexpires⟩
    · obtain ⟨round₁, hround₁, hexpires₁, hfits⟩ := h hstarted
      rw [hwagered.getRound] at hround₁
      cases hround₁
      rw [hboard, hexpires]
      exact ⟨hexpires₁, hfits⟩
    · rw [hboard]
      exact ⟨hexpires, hfits⟩
  | reset _ hreset =>
    rw [hreset.board]
    exact fun hruns => absurd rfl hruns
  | close _ hclosed =>
    have hpast := hclosed.past
    rw [hclosed.board, hclosed.rounds, Store.get_erase, if_neg]
    · exact h
    · simp only [Pubkey.roundPda.injEq]
      omega

/-- **Rounds keep expiring late enough** for the late fee to be computed. -/
theorem State.ExpiresLate.step (h : s.ExpiresLate) (hgame : GameStep s s' l) :
    s'.ExpiresLate := by
  rw [State.ExpiresLate]
  cases hgame with
  | still _ hsame => rwa [hsame.rounds]
  | checkpoint _ hcheckpointed =>
    rcases hcheckpointed with ⟨rfl⟩ | ⟨_, -, -, -, rfl⟩ | ⟨_, round, _, _, _, _, hcredited⟩
    · exact h
    · exact h
    · rw [hcredited.rounds]
      refine h.put ?_
      rw [hcredited.frozen]
      exact h (.roundPda round.id) round hcredited.getRound
  | deploy _ hdeployed =>
    obtain ⟨_, round, round', _, _, _, _, _, hwagered, -⟩ := hdeployed
    rw [hwagered.rounds]
    refine h.put ?_
    rcases hwagered.clockwork with ⟨-, -, hexpires⟩ | ⟨-, -, -, hexpires⟩
    · rw [hexpires]
      exact h _ _ hwagered.getRound
    · have hle : twelveHoursSlots ≤ oneDaySlots := by decide
      rw [hexpires]
      omega
  | @reset _ _ _ _ _ _ round value topMiner _ hreset =>
    rw [hreset.rounds]
    refine (h.put ?_).put ?_
    · show twelveHoursSlots ≤ u64Max
      decide
    · rw [State.verdict_expiresAt]
      exact h (.roundPda s.board.roundId) round hreset.getRound
  | close _ hclosed =>
    rw [hclosed.rounds]
    exact h.erase _

/-- **What a run says about when rounds expire.** -/
theorem expiry_of_run (hplay : s.RoundsInPlay) (hexpires : s.ClockExpires) (hlate : s.ExpiresLate)
    (hrun : Run (Step env allowed) s h t) :
    t.RoundsInPlay ∧ t.ClockExpires ∧ t.ExpiresLate :=
  hrun.invariant (P := fun u => u.RoundsInPlay ∧ u.ClockExpires ∧ u.ExpiresLate)
    ⟨hplay, hexpires, hlate⟩ fun _ _ _ hu hstep =>
      have hgame := hstep.effect.game hu.1.setup
      ⟨hu.1.step hstep.effect, hu.2.1.step hgame, hu.2.2.step hgame⟩

end Expiry

/-! ## After the reset -/

section After

variable {env : Env} {allowed : GodlInstruction → Prop} {s s' t u u' : State} {l : Label}
  {h : History} {r : ℕ} {round : Round} {slot : ℕ} {clock : Clock} {a : CheckpointAccounts}
  {miner : Miner}

/-- A reset fixes the outcome of the round, which expires when it would have. -/
theorem ResetsAt.passed (h : ResetsAt env slot s s')
    (hround : s.rounds.get (.roundPda s.board.roundId) = some round) :
    s.board.roundId < s'.board.roundId ∧ ∃ round',
      s'.rounds.get (.roundPda s.board.roundId) = some round' ∧ round'.slotHash ≠ 0 ∧
        round'.expiresAt = round.expiresAt := by
  obtain ⟨_, _, _, _, value, topMiner, -, hreset⟩ := h.reset
  have hget := hreset.getRound
  rw [hround] at hget
  cases hget
  refine ⟨?_, (s.verdict { round with slotHash := value } topMiner).round, ?_, ?_, ?_⟩
  · rw [hreset.board]
    exact Nat.lt_succ_self _
  · rw [hreset.roundsAfter, if_pos rfl]
  · rw [State.verdict_slotHash]
    exact hreset.value_ne
  · rw [State.verdict_expiresAt]

/-- A reset is a step. -/
theorem ResetsAt.play (h : ResetsAt env slot s s') (hplay : s.RoundsInPlay) : s'.RoundsInPlay := by
  obtain ⟨_, ix, _, _, -, -, hok⟩ := h
  have hstep : Step env anyInstruction s _ s' := .call trivial hok
  exact hplay.step hstep.effect

/-- **A round that is over stays until it expires.** -/
theorem exists_pastRound_of_run (hplay : s.RoundsInPlay) (hpast : r < s.board.roundId)
    (hround : s.rounds.get (.roundPda r) = some round) (hrun : Run (Step env allowed) s h t)
    (hearly : ∀ x ∈ h, ∀ n, x.label.slot = some n → n < round.expiresAt) :
    ∃ round', t.rounds.get (.roundPda r) = some round' ∧ round.Frozen round' := by
  refine (hrun.keeps (P := fun u => u.RoundsInPlay ∧ r < u.board.roundId ∧
    ∃ round', u.rounds.get (.roundPda r) = some round' ∧ round.Frozen round')
    ⟨hplay, hpast, round, hround, .refl round⟩ ?_).2.2
  rintro x hx hstep ⟨hplay', hpast', round', hround', hfrozen⟩
  have hgame := hstep.effect.game hplay'.setup
  refine ⟨hplay'.step hstep.effect, lt_of_lt_of_le hpast' hgame.roundId_le, ?_⟩
  rcases hgame.pastRound hpast' with ⟨hbefore, -⟩ | ⟨hbefore, hafter, hkept⟩ |
    ⟨hkind, hbefore, -, hexpired⟩
  · rw [hround'] at hbefore
    cases hbefore
  · rw [hround'] at hbefore
    cases hbefore
    exact ⟨_, hafter, hfrozen.trans hkept⟩
  · -- It is closed by a call, which would come too early.
    rw [hround'] at hbefore
    cases hbefore
    cases hlabel : x.label with
    | world =>
      rw [hlabel] at hkind
      cases hkind
    | call clock ix accounts cpi =>
      have hslot : x.label.slot = some clock.slot := by rw [hlabel]; rfl
      have hclosed := hexpired _ hslot
      have hbound := hearly x hx _ hslot
      rw [hfrozen] at hclosed
      exact absurd hclosed (not_lt.2 hbound.le)

/-- Both layouts of a checkpoint run the common body, unless they refuse the call outright. -/
theorem exists_checkpointBody (env : Env) (clock : Clock) (cpi : Cpi) {ix : GodlInstruction}
    {legacy : Bool} {accounts : List AccountInfo} {a : CheckpointAccounts}
    (hkind : ix.kind = .checkpoint legacy) (haccounts : checkpointAccounts accounts = some a) :
    ∃ (gold : Option (AccountInfo × AccountInfo)) (accepted : Prop), ∀ s s',
      processInstruction env clock ix accounts cpi s = .ok s' ↔
        accepted ∧ checkpointBody clock a gold s = .ok s' := by
  have hwrong : ∀ s s' : State, wrongLength = .ok s' ↔
      False ∧ checkpointBody clock a none s = .ok s' :=
    fun s s' => iff_of_false (by rintro ⟨⟩) fun h => h.1
  cases ix <;> simp only [GodlInstruction.kind, reduceCtorEq] at hkind
  case checkpoint =>
    simp only [processInstruction]
    split
    · cases haccounts
      refine ⟨none, clock.unixTimestamp < legacyInstructionExpiryTs, fun s s' => ?_⟩
      rw [processCheckpoint, bind_eq_ok]
      simp only [require_eq_ok, exists_const]
    · exact ⟨none, False, hwrong⟩
  case checkpointWithMinerExtended =>
    simp only [processInstruction]
    split
    · cases haccounts
      exact ⟨_, True, fun s s' => (and_iff_right trivial).symm⟩
    · exact ⟨none, False, hwrong⟩

/-- A checkpoint that is due runs on the miner. -/
theorem DueCheckpoint.checkpointMiner (h : DueCheckpoint env clock r a miner u u') :
    a.signerInfo.isSigner = true ∧ ∃ gold, checkpointMiner clock a gold miner u = .ok u' := by
  obtain ⟨legacy, ix, accounts, cpi, hkind, haccounts, hok⟩ := h.call
  obtain ⟨gold, accepted, hbody⟩ := exists_checkpointBody env clock cpi hkind haccounts
  have hgold := ((hbody u u').1 hok).2
  obtain ⟨hsigner, miner', hminer, hmine⟩ := (checkpointBody_miner clock a gold u).elim hgold
  have hget := h.getMiner
  rw [hminer] at hget
  cases hget
  exact ⟨hsigner, gold, hmine⟩

/-- A checkpoint of a round that is over and reset pays or forfeits, by the clock alone. -/
theorem DueCheckpoint.outcome (h : DueCheckpoint env clock r a miner u u')
    (hround : u.rounds.get (.roundPda r) = some round) (hpast : r ≠ u.board.roundId)
    (hreset : round.slotHash ≠ 0) :
    (clock.slot < round.expiresAt → Rewarded clock a miner u u') ∧
      (round.expiresAt ≤ clock.slot → u' = forfeit miner u) := by
  obtain ⟨hsigner, gold, hok⟩ := h.checkpointMiner
  have hid := roundId_of_get hround
  have hget : u.rounds.get a.roundInfo.key = some round := by rw [h.roundKey, hround]
  obtain ⟨hlive, hexpired⟩ := (checkpointMiner_reset hsigner h.getMiner hget (hid ▸ hpast)
    (hid.trans h.played.symm) hreset h.pending).elim hok
  refine ⟨fun hslot => ?_, hexpired⟩
  obtain ⟨poolMember, round', sol, godl, hcredited⟩ := hlive hslot
  exact ⟨_, round, round', poolMember, sol, godl, hcredited⟩

/-- A checkpoint of a round that is closed forfeits. -/
theorem DueCheckpoint.forfeit_of_none (h : DueCheckpoint env clock r a miner u u')
    (hround : u.rounds.get (.roundPda r) = none) : u' = forfeit miner u := by
  obtain ⟨-, gold, hok⟩ := h.checkpointMiner
  have hforfeits : Ensures (Godl.checkpointMiner clock a gold miner u) fun v =>
      v = forfeit miner u := by
    rw [Godl.checkpointMiner, if_neg h.pending, ensures_ite]
    refine ⟨fun _ => ?_, fun _ => ?_⟩
    · rw [ensures_bind]
      exact ensures_of_forall fun _ => ensures_pure.2 rfl
    · rw [h.roundKey, State.load, hround]
      exact ensures_error.2 trivial
  exact hforfeits.elim hok

end After

/-! ## The time to be paid -/

section Window

variable {env : Env} {allowed : GodlInstruction → Prop} {s t : State} {h : History} {round : Round}
  {slot : ℕ}

/-- A reset before the round expires leaves time to be paid. -/
theorem State.RoundsInPlay.claimWindow (hplay : t.RoundsInPlay)
    (hround : t.rounds.get (.roundPda t.board.roundId) = some round)
    (hslot : slot < round.expiresAt) : t.ClaimWindow env round slot := by
  refine ⟨hslot, fun s₁ h u clock a miner u' hreset hrun hearly hclock hdue => ?_⟩
  obtain ⟨hpast, round₁, hround₁, hhash, hexpires⟩ := hreset.passed hround
  rw [← hexpires] at hearly hclock
  obtain ⟨round₂, hround₂, hfrozen⟩ :=
    exists_pastRound_of_run (hreset.play hplay) hpast hround₁ hrun hearly
  have hle := roundId_le_of_run (hreset.play hplay) hrun
  have hhash₂ : round₂.slotHash ≠ 0 := by
    rw [hfrozen]
    exact hhash
  refine (hdue.outcome hround₂ (by omega) hhash₂).1 ?_
  rw [hfrozen]
  exact hclock

/-- When the intermission ends after the round has expired, nobody is paid. -/
theorem State.RoundsInPlay.neverPays (hplay : t.RoundsInPlay)
    (hround : t.rounds.get (.roundPda t.board.roundId) = some round)
    (hlate : round.expiresAt ≤ t.config.earliestReset t.board.endSlot) : t.NeverPays env := by
  intro slot s₁ h u clock a miner u' hreset hrun hclock hdue
  have hearliest := hreset.earliestReset_le
  obtain ⟨hpast, round₁, hround₁, hhash, hexpires⟩ := hreset.passed hround
  have hle := roundId_le_of_run (hreset.play hplay) hrun
  cases hround₂ : u.rounds.get (.roundPda t.board.roundId) with
  | none => exact hdue.forfeit_of_none hround₂
  | some round₂ =>
    obtain ⟨round₃, hround₃, hfrozen⟩ :=
      pastRound_of_run (hreset.play hplay) hpast hrun hround₂
    rw [hround₁] at hround₃
    cases hround₃
    have hhash₂ : round₂.slotHash ≠ 0 := by
      rw [hfrozen]
      exact hhash
    refine (hdue.outcome hround₂ (by omega) hhash₂).2 ?_
    rw [hfrozen]
    show round₁.expiresAt ≤ clock.slot
    omega

/-- **There is time to be paid exactly when the intermission is shorter than a day.**  Along
every run the settings stay accepted ones.  In every state with a round that a deployment
opened, the first slot in which a reset is accepted leaves time to be paid if and only if the
intermission, as it is when the reset is made, is shorter than a day; when it is not, every
checkpoint of the round forfeits, whenever it is reset.  And the late fee of a checkpoint is
always defined. -/
theorem claim_window_iff (hplay : s.RoundsInPlay) (hfresh : s.board.endSlot = u64Max)
    (hlate : s.ExpiresLate) (hrun : Run (Step env allowed) s h t) :
    (s.config.Accepted → t.config.Accepted) ∧
    (t.board.endSlot ≠ u64Max → ∃ round,
      t.rounds.get (.roundPda t.board.roundId) = some round ∧
      (∀ slot, IsLeast {n | ∃ s', ResetsAt env n t s'} slot →
        (t.ClaimWindow env round slot ↔ t.config.getIntermissionSlots < oneDaySlots)) ∧
      (oneDaySlots ≤ t.config.getIntermissionSlots → t.NeverPays env)) ∧
    t.rounds.All fun round => subU64 overflow round.expiresAt twelveHoursSlots =
      .ok (round.expiresAt - twelveHoursSlots) := by
  obtain ⟨hplay', hexpires', hlate'⟩ :=
    expiry_of_run hplay (fun hruns => absurd hfresh hruns) hlate hrun
  refine ⟨fun haccepted => haccepted.run hrun, fun hruns => ?_, fun k round hround => ?_⟩
  · obtain ⟨round, hround, hexpires, hfits⟩ := hexpires' hruns
    have hiff := Config.earliestReset_lt (c := t.config) hfits
    rw [← hexpires] at hiff
    refine ⟨round, hround, fun slot hleast => ?_, fun hday => ?_⟩
    · have hfirst := isLeast_resetsAt ⟨slot, hleast.1⟩
      rw [hleast.unique hfirst, ← hiff]
      exact ⟨fun hwindow => hwindow.inTime, hplay'.claimWindow hround⟩
    · refine hplay'.neverPays hround (not_lt.1 fun hlt => ?_)
      exact absurd (hiff.1 hlt) (not_lt.2 hday)
  · exact subU64_of_le (hlate' k round hround)

end Window

/-- A fresh table expires late. -/
theorem expiresLate_table (roundId : ℕ) (value : Hash) :
    (State.table roundId value).ExpiresLate := by
  refine Store.All.put (Store.all_empty _) ?_
  show twelveHoursSlots ≤ u64Max
  decide

/-- A checkpoint of a player that has still to be paid for the round that it names. -/
theorem exists_dueCheckpoint {env : Env} {slot caller player r : ℕ} {poolRound poolMember : Pubkey}
    {s s' : State} {miner : Miner}
    (hok : processInstruction env ⟨slot, 0⟩ .checkpoint
      (Call.checkpoint slot caller player r poolRound poolMember).accounts ⟨none, none⟩ s = .ok s')
    (hminer : s.miners.get (.minerPda (.key player)) = some miner) (hplayed : miner.roundId = r)
    (hpending : miner.checkpointId ≠ r) : ∃ a, DueCheckpoint env ⟨slot, 0⟩ r a miner s s' :=
  ⟨_, ⟨true, _, _, _, rfl, rfl, hok⟩, hminer, rfl, hplayed, by rwa [hplayed]⟩

/-- With the default intermission of 25 slots, player 7 is paid in the first slot in which its
round can be reset. -/
theorem claim_window_iff_default : ∃ (h : History) (t s₁ u : State) (round : Round)
    (a : CheckpointAccounts) (miner : Miner),
    Run (Step .plain anyInstruction) (State.table 1 25#256) h t ∧
    IsLeast {n | ∃ s', ResetsAt .plain n t s'} 185 ∧ t.ClaimWindow .plain round 185 ∧
    ResetsAt .plain 185 t s₁ ∧ DueCheckpoint .plain ⟨185, 0⟩ t.board.roundId a miner s₁ u ∧
    Rewarded ⟨185, 0⟩ a miner s₁ u ∧
    ∃ m, u.miners.get (.minerPda (.key 7)) = some m ∧ 0 < m.rewardsSol := by
  obtain ⟨h, t, s₁, u, hrun, ht, hreset, hs₁, hcheckpoint, hu⟩ :=
    exists_calls_after .plain anyInstruction (State.table 1 25#256) [openingBet]
      (.reset 185 1 (.minerPda (.key 7)) (.poolMemberPda (.key 7)))
      (.checkpoint 185 9 7 1 (.poolRoundPda 1) (.poolMemberPda (.key 7)))
      (fun t => t.board = ⟨1, 10, 160⟩ ∧ t.config.intermissionSlots = 25)
      (fun t => (t.miners.get (.minerPda (.key 7))).any fun m =>
        m.roundId = 1 ∧ m.checkpointId = 0)
      (fun t => (t.miners.get (.minerPda (.key 7))).any fun m => 0 < m.rewardsSol)
      (fun _ _ => trivial) (by decide +kernel)
  simp only [decide_eq_true_eq] at ht
  obtain ⟨hboard, hintermission⟩ := ht
  obtain ⟨miner, hminer, hplayed⟩ := (Option.any_eq_true _ _).1 hs₁
  obtain ⟨m, hm, hpaid⟩ := (Option.any_eq_true _ _).1 hu
  simp only [decide_eq_true_eq] at hplayed hpaid
  have hresets : ResetsAt .plain 185 t s₁ := ⟨_, _, _, _, rfl, rfl, hreset⟩
  have hleast := isLeast_resetsAt ⟨185, s₁, hresets⟩
  have hslots : t.config.getIntermissionSlots = 25 := by
    rw [Config.getIntermissionSlots, hintermission]
    decide
  rw [Config.earliestReset, hslots, hboard] at hleast
  obtain ⟨-, hwindow, -⟩ :=
    claim_window_iff (roundsInPlay_table 1 _) rfl (expiresLate_table 1 _) hrun
  obtain ⟨round, hround, hiff, -⟩ := hwindow (by rw [hboard]; decide)
  have hclaim := (hiff 185 hleast).2 (by rw [hslots]; decide)
  have hid : t.board.roundId = 1 := by rw [hboard]
  obtain ⟨a, hdue⟩ := exists_dueCheckpoint hcheckpoint hminer hplayed.1 (by omega)
  rw [← hid] at hdue
  exact ⟨h, t, s₁, u, round, a, miner, hrun, hleast, hclaim, hresets, hdue,
    hclaim.pays s₁ [] s₁ _ _ _ _ hresets .start (fun _ hx => absurd hx List.not_mem_nil)
      (lt_of_le_of_lt (le_refl 185) hclaim.inTime) hdue, m, hm, hpaid⟩

/-- The admin sets the intermission to a whole day. -/
def dayLongIntermission : Call :=
  .plain 1 0 (.updateProtocolConfig roundSlotsDefault oneDaySlots)
    [.signer 3, .writable .configPda, .program systemProgramId]

/-- With an intermission of a day, which is accepted, a round that is reset as early as
possible has expired: a winner is checkpointed at once and gets nothing. -/
theorem no_claim_window : ∃ (h : History) (t s₁ u : State) (round : Round),
    Run (Step .plain anyInstruction) (State.table 1 25#256) h t ∧ t.config.Accepted ∧
    t.board.endSlot ≠ u64Max ∧ t.rounds.get (.roundPda t.board.roundId) = some round ∧
    IsLeast {n | ∃ s', ResetsAt .plain n t s'} 216160 ∧ ¬ 216160 < round.expiresAt ∧
    ResetsAt .plain 216160 t s₁ ∧
    (∃ a miner, DueCheckpoint .plain ⟨216160, 0⟩ t.board.roundId a miner s₁ u ∧
      miner.deployed 0 = 1000 ∧ u = forfeit miner s₁) ∧
    ∃ m, u.miners.get (.minerPda (.key 7)) = some m ∧ m.checkpointId = 1 ∧ m.rewardsSol = 0 := by
  obtain ⟨h, t, s₁, u, hrun, ht, hreset, hs₁, hcheckpoint, hu⟩ :=
    exists_calls_after .plain anyInstruction (State.table 1 25#256)
      [dayLongIntermission, openingBet]
      (.reset 216160 1 (.minerPda (.key 7)) (.poolMemberPda (.key 7)))
      (.checkpoint 216160 9 7 1 (.poolRoundPda 1) (.poolMemberPda (.key 7)))
      (fun t => t.board = ⟨1, 10, 160⟩ ∧ t.config.intermissionSlots = oneDaySlots)
      (fun t => (t.miners.get (.minerPda (.key 7))).any fun m =>
        m.roundId = 1 ∧ m.checkpointId = 0 ∧ m.deployed 0 = 1000)
      (fun t => (t.miners.get (.minerPda (.key 7))).any fun m =>
        m.checkpointId = 1 ∧ m.rewardsSol = 0)
      (fun _ _ => trivial) (by decide +kernel)
  simp only [decide_eq_true_eq] at ht
  obtain ⟨hboard, hintermission⟩ := ht
  obtain ⟨miner, hminer, hplayed⟩ := (Option.any_eq_true _ _).1 hs₁
  obtain ⟨m, hm, hlost⟩ := (Option.any_eq_true _ _).1 hu
  simp only [decide_eq_true_eq] at hplayed hlost
  have hresets : ResetsAt .plain 216160 t s₁ := ⟨_, _, _, _, rfl, rfl, hreset⟩
  have hearliest : t.config.earliestReset t.board.endSlot = 216160 := by
    rw [Config.earliestReset, Config.getIntermissionSlots, hintermission, hboard]
    decide
  have haccepted : (State.table 1 25#256).config.Accepted := Config.accepted_default rfl rfl
  obtain ⟨hplay, hexpires, -⟩ := expiry_of_run (roundsInPlay_table 1 _)
    (fun hruns => absurd rfl hruns) (expiresLate_table 1 _) hrun
  have hruns : t.board.endSlot ≠ u64Max := by
    rw [hboard]
    decide
  obtain ⟨round, hround, hexpiry, -⟩ := hexpires hruns
  have hexpired : round.expiresAt = 216160 := by
    rw [hexpiry, hboard]
    decide
  have hid : t.board.roundId = 1 := by rw [hboard]
  obtain ⟨a, hdue⟩ := exists_dueCheckpoint hcheckpoint hminer hplayed.1 (by omega)
  rw [← hid] at hdue
  have hleast := isLeast_resetsAt ⟨216160, s₁, hresets⟩
  rw [hearliest] at hleast
  refine ⟨h, t, s₁, u, round, hrun, haccepted.run hrun, hruns, hround, hleast, ?_, hresets,
    ⟨a, miner, hdue, hplayed.2.2, ?_⟩, m, hm, hlost⟩
  · rw [hexpired]
    exact lt_irrefl _
  · exact hplay.neverPays hround (by rw [hearliest, hexpired]) _ _ _ _ _ _ _ _ hresets .start
      (le_refl _) hdue

end Godl
