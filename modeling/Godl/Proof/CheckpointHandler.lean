import Godl.Program.Checkpoint
import Godl.Proof.LedgerHandlers

/-!
# Checkpoints

A checkpoint does nothing, or makes the miner forfeit its round, or credits it.  What it
credits is what `checkpointRewards` computes; the SOL leaves the round, the GODL becomes
unrefined.

## Main definitions

* `Checkpointed` — the three outcomes.
* `Credited` — the third one in detail.
-/

namespace Godl

open Lib

/-- The lamports of a round fall by `n`, and those of no other round fall. -/
def RoundPays (s s' : State) (k : Pubkey) (n : ℕ) : Prop :=
  ∀ j, IsRound j → s'.lamports j + (if j = k then n else 0) = s.lamports j

/-- A miner is credited with its reward in a round. -/
structure Credited (clock : Clock) (a : CheckpointAccounts) (legacy : Prop) (s s' : State)
    (miner : Miner) (round round' : Round) (poolMember : Option PoolMember)
    (rewardsSol rewardsGodl : ℕ) : Prop where
  getMiner : s.miners.get (.minerPda miner.authority) = some miner
  getRound : s.rounds.get (.roundPda round.id) = some round
  past : round.id ≠ s.board.roundId
  played : round.id = miner.roundId
  isReset : round.slotHash ≠ 0
  pending : miner.checkpointId ≠ miner.roundId
  live : clock.slot < round.expiresAt
  member : loadPoolMember a miner s = .ok poolMember
  rewards : checkpointRewards a round miner poolMember s =
    .ok (rewardsSol, rewardsGodl, round')
  credited : ∃ m, s'.miners = s.miners.put m ∧ m.authority = miner.authority ∧
    m.rewardsSol = miner.rewardsSol + rewardsSol ∧
    m.rewardsGodl = miner.rewardsGodl + rewardsGodl
  wagers : s'.wagers = Function.update s.wagers (.minerPda miner.authority)
    { miner.wager with checkpointId := miner.roundId }
  rounds : s'.rounds = s.rounds.put round'
  lamports : RoundPays s s' (.roundPda round.id) rewardsSol
  poolRounds : s'.poolRounds = s.poolRounds
  poolMembers : s'.poolMembers = s.poolMembers
  board : s'.board = s.board
  stakes : SameStakes s s'
  ledger : LedgerStep s s' rewardsGodl 0
  gold : ¬ legacy → GoldStep s s' 0
  legacyGold : legacy → SameGold s s' ∧
    ∃ x, s'.ledgers = Function.update s.ledgers (.minerPda miner.authority) x
  motherlode : s'.treasury.motherlode = s.treasury.motherlode
  opened : s'.opened = s.opened
  tokens : s'.tokens = s.tokens
  supply : s'.mintSupply = s.mintSupply

/-- The round of a miner is lost to it: the round is closed, or expired. -/
inductive Lost (clock : Clock) (s : State) (roundId : ℕ) : Prop
  | closed (none : s.rounds.get (.roundPda roundId) = none)
  | expired (round : Round) (get : s.rounds.get (.roundPda roundId) = some round)
      (past : roundId ≠ s.board.roundId) (isReset : round.slotHash ≠ 0)
      (expired : round.expiresAt ≤ clock.slot)

/-- The outcomes of a checkpoint. -/
inductive Checkpointed (clock : Clock) (a : CheckpointAccounts) (legacy : Prop) (s s' : State) :
    Prop
  | unchanged (same : s' = s)
  | forfeited (miner : Miner) (get : s.miners.get (.minerPda miner.authority) = some miner)
      (pending : miner.checkpointId ≠ miner.roundId) (lost : Lost clock s miner.roundId)
      (forfeit : s' = forfeit miner s)
  | credited (miner : Miner) (round round' : Round) (poolMember : Option PoolMember)
      (rewardsSol rewardsGodl : ℕ)
      (credited : Credited clock a legacy s s' miner round round' poolMember rewardsSol rewardsGodl)

/-! ## Forfeiting -/

section Forfeit

variable {s : State} {miner : Miner}

theorem forfeit_sameLedger (hget : s.miners.get (.minerPda miner.authority) = some miner) :
    SameLedger s (forfeit miner s) := by
  have hledger : s.ledgers (.minerPda miner.authority) =
      ({ miner with checkpointId := miner.roundId } : Miner).ledger := by
    rw [ledgers_of_get hget]
    rfl
  exact ⟨Store.view_put_of_eq hledger, rfl, rfl, rfl⟩

/-- A forfeit marks the wager as settled. -/
theorem forfeit_wagers (miner : Miner) (s : State) :
    (forfeit miner s).wagers = Function.update s.wagers (.minerPda miner.authority)
      { miner.wager with checkpointId := miner.roundId } :=
  Store.view_put _ _

/-- A forfeit only writes to its miner. -/
theorem forfeit_get (miner : Miner) (s : State) (k : Pubkey) :
    (forfeit miner s).miners.get k = if k = .minerPda miner.authority then
      some { miner with checkpointId := miner.roundId } else s.miners.get k :=
  Store.get_put _ _ _

end Forfeit

/-! ## Paying -/

/-- Moving nothing changes nothing. -/
theorem State.send_zero (s : State) (source dest : Pubkey) : s.send source dest 0 = .ok s := by
  have hl : Function.update (Function.update s.lamports source (s.lamports source - 0)) dest
      (Function.update s.lamports source (s.lamports source - 0) dest + 0) = s.lamports := by
    funext k
    simp
  simp only [State.send, State.moveLamports, require, Nat.zero_le, if_true, ok_bind, hl]
  rfl

/-- The SOL leaves the round and the fee the miner. -/
theorem payCheckpoint_eq (a : CheckpointAccounts) (m : Miner) (rewardsSol fee : ℕ) (s : State) :
    payCheckpoint a m rewardsSol fee s = (do
      let s ← s.send a.roundInfo.key a.minerInfo.key rewardsSol
      let s ← s.send a.minerInfo.key a.signerInfo.key fee
      require (minimumBalance minerSize + m.checkpointFee + (m.rewardsSol + rewardsSol) ≤
        s.lamports a.minerInfo.key) (.panic .minerInsufficientFunds)
      return s) := by
  rcases Nat.eq_zero_or_pos rewardsSol with rfl | hsol <;>
    rcases Nat.eq_zero_or_pos fee with rfl | hfee <;>
    simp [payCheckpoint, State.send_zero, ok_bind, *]

theorem RoundPays.refl (s : State) (k : Pubkey) : RoundPays s s k 0 := by
  intro j _
  split <;> rfl

/-- Lamports leave the round for the miner, and a fee leaves the miner. -/
theorem payCheckpoint_spec {a : CheckpointAccounts} {miner : Miner} {rewardsSol fee : ℕ}
    {s : State} {authority : Pubkey} (hsigner : a.signerInfo.isSigner = true)
    (hminer : a.minerInfo.key = .minerPda authority) :
    Ensures (payCheckpoint a miner rewardsSol fee s) fun s' =>
      ∃ l, s' = { s with lamports := l } ∧ RoundPays s s' a.roundInfo.key rewardsSol := by
  have hkeypair := a.signerInfo.isKeypair_of_isSigner hsigner
  -- Neither the miner nor the signer is a round.
  have hminer' : ∀ j, IsRound j → j ≠ a.minerInfo.key := by
    rintro j ⟨id, rfl⟩ h
    rw [hminer] at h
    cases h
  have hsigner' : ∀ j, IsRound j → j ≠ a.signerInfo.key := by
    rintro j ⟨id, rfl⟩ h
    rw [← h] at hkeypair
    cases hkeypair
  have hfee : ∀ s₁ : State, Ensures (if 0 < fee then s₁.send a.minerInfo.key a.signerInfo.key fee
      else pure s₁) fun s' => ∃ l, s' = { s₁ with lamports := l } ∧
        ∀ j, IsRound j → l j = s₁.lamports j := by
    intro s₁
    rw [ensures_ite]
    refine ⟨fun _ => ?_, fun _ => ensures_pure.2 ⟨s₁.lamports, rfl, fun _ _ => rfl⟩⟩
    refine Ensures.mono (State.send_spec s₁ _ _ _) ?_
    rintro _ ⟨l, rfl, hl⟩
    refine ⟨l, rfl, fun j hj => ?_⟩
    have h := hl.balance j
    rwa [if_neg (hminer' j hj), if_neg (hsigner' j hj), Nat.add_zero, Nat.add_zero] at h
  simp only [payCheckpoint, ensures_bind, ensures_ite, ensures_pure, ensures_require] at hfee ⊢
  refine ⟨fun _ => ?_, fun hzero => ?_⟩
  · refine Ensures.mono (State.send_spec s _ _ _) ?_
    rintro _ ⟨l, rfl, hl⟩
    have hpaid : RoundPays s { s with lamports := l } a.roundInfo.key rewardsSol := by
      intro j hj
      have h := hl.balance j
      rwa [if_neg (hminer' j hj), Nat.add_zero] at h
    refine ⟨fun hpos => ?_, fun _ _ => ⟨l, rfl, hpaid⟩⟩
    refine Ensures.mono ((hfee { s with lamports := l }).1 hpos) ?_
    rintro _ ⟨l', rfl, hl'⟩ _
    refine ⟨l', rfl, fun j hj => ?_⟩
    show l' j + _ = _
    rw [hl' j hj]
    exact hpaid j hj
  · rw [Nat.eq_zero_of_not_pos hzero]
    refine ⟨fun hpos => ?_, fun _ _ => ⟨s.lamports, rfl, RoundPays.refl s _⟩⟩
    refine Ensures.mono ((hfee s).1 hpos) ?_
    rintro _ ⟨l', rfl, hl'⟩ _
    refine ⟨l', rfl, fun j hj => ?_⟩
    show l' j + _ = _
    rw [hl' j hj]
    split <;> rfl

/-! ## Settling the gold -/

/-- Unless it is to be created, an extended account is only looked up. -/
theorem loadOrCreateMinerExtended_false (minerExtendedInfo : AccountInfo) (authority : Pubkey)
    (payer : AccountInfo) (s : State) :
    Ensures (loadOrCreateMinerExtended minerExtendedInfo authority payer false s) fun p =>
      p.2 = s := by
  simp only [loadOrCreateMinerExtended, ensures_bind, ensures_require, ensures_ite, ensures_pure,
    ensures_fromOption]
  exact fun _ _ => ⟨fun _ => ⟨fun h => absurd h (by decide), fun _ => trivial⟩,
    fun _ _ _ _ => trivial⟩

/-- With gold accounts the extended account is settled; without them nothing happens. -/
theorem settleGold_spec {gold : Option (AccountInfo × AccountInfo)} {signerInfo : AccountInfo}
    {miner : Miner} {rewardsGodl : ℕ} {s : State}
    (hminer : s.unrefined miner.authority = miner.rewardsGodl) :
    Ensures (settleGold gold signerInfo miner rewardsGodl s) fun s' =>
      (gold = none → s' = s) ∧ (gold ≠ none → GoldSettled miner.authority s s') ∧
      ∃ t, s' = { s with minersExtended := t } := by
  unfold settleGold
  split
  · exact ensures_pure.2 ⟨fun _ => rfl, fun h => absurd rfl h, s.minersExtended, rfl⟩
  · simp only [ensures_bind, ensures_require]
    refine Ensures.mono ((loadOrCreateMinerExtended_spec _ _ _ _ _).and
      (loadOrCreateMinerExtended_false _ _ _ _)) ?_
    rintro ⟨extended, s₁⟩ ⟨⟨hopen, -⟩, hsame⟩ _
    change s₁ = s at hsame
    subst hsame
    refine Ensures.mono (syncGoldRewards_spec hopen.get hminer) fun s₂ hsettle => ?_
    have hsettled := goldSettled_of_opened hopen (Grew.refl _ _) rfl hsettle
    exact ⟨fun h => by simp at h, fun _ => hsettled, hsettle.change⟩

/-! ## Crediting -/

/-- The fee is taken out of what the miner set aside; nothing else about it changes. -/
theorem botFee_spec (clock : Clock) (round : Round) (miner : Miner) :
    Ensures (botFee clock round miner) fun r => ∃ c, r.2 = { miner with checkpointFee := c } := by
  simp only [botFee, ensures_bind, ensures_subU64, ensures_ite, ensures_pure]
  exact fun _ => ⟨fun _ => ⟨0, rfl⟩, fun _ => ⟨miner.checkpointFee, rfl⟩⟩

/-- The reward does not depend on the fee that was set aside. -/
theorem checkpointRewards_fee (a : CheckpointAccounts) (round : Round) (miner : Miner) (c : ℕ)
    (poolMember : Option PoolMember) (s : State) :
    checkpointRewards a round { miner with checkpointFee := c } poolMember s =
      checkpointRewards a round miner poolMember s := rfl

/-- The reward is computed from what the round and the pool hold: it leaves the identity of
the round alone. -/
theorem checkpointRewards_id (a : CheckpointAccounts) (round : Round) (miner : Miner)
    (poolMember : Option PoolMember) (s : State) :
    Ensures (checkpointRewards a round miner poolMember s) fun r =>
      ∃ top, r.2.2 = { round with topMiner := top } := by
  have hgodl : ∀ r ws, Ensures (winnerGodl a round miner poolMember r ws s) fun p =>
      ∃ top, p.2 = { round with topMiner := top } := by
    intro r ws
    simp only [winnerGodl, ensures_ite, ensures_bind, ensures_pure]
    refine ⟨fun _ => ⟨_, rfl⟩, fun _ => ⟨fun _ => ensures_of_forall fun _ => ⟨_, rfl⟩, fun _ => ?_⟩⟩
    exact ensures_of_forall fun _ => ⟨fun _ => ⟨_, rfl⟩, fun _ => ⟨_, rfl⟩⟩
  unfold checkpointRewards
  split
  · simp only [ensures_ite, ensures_bind, ensures_require, ensures_addU64, ensures_pure]
    refine ⟨fun _ _ => ensures_of_forall fun _ => ?_, fun _ => ⟨_, rfl⟩⟩
    exact Ensures.mono (hgodl _ _) fun p hp _ => hp
  · simp only [ensures_bind, ensures_require, ensures_pure]
    exact fun _ => ensures_of_forall fun _ => ⟨_, rfl⟩

section Credit

variable {clock : Clock} {a : CheckpointAccounts} {gold : Option (AccountInfo × AccountInfo)}
  {round : Round} {miner : Miner} {poolMember : Option PoolMember} {s : State}

/-- What `creditRound` leaves behind. -/
theorem creditRound_spec (hsigner : a.signerInfo.isSigner = true)
    (hminer : s.miners.get a.minerInfo.key = some miner)
    (hround : s.rounds.get a.roundInfo.key = some round)
    (hpast : round.id ≠ s.board.roundId) (hplayed : round.id = miner.roundId)
    (hreset : round.slotHash ≠ 0) (hpending : miner.checkpointId ≠ miner.roundId)
    (hlive : clock.slot < round.expiresAt) (hmember : loadPoolMember a miner s = .ok poolMember) :
    Ensures (creditRound clock a gold round miner poolMember s) fun s' =>
      ∃ round' sol godl, Credited clock a (gold = none) s s' miner round round' poolMember sol
        godl := by
  have hminerKey : a.minerInfo.key = .minerPda miner.authority :=
    (s.miners.key_of_get _ _ hminer).symm
  have hroundKey : a.roundInfo.key = .roundPda round.id := (s.rounds.key_of_get _ _ hround).symm
  unfold creditRound
  rw [ensures_bind]
  refine Ensures.mono (botFee_spec clock round miner) ?_
  rintro ⟨fee, m₁⟩ ⟨c, rfl⟩
  dsimp only
  rw [checkpointRewards_fee, ensures_bind]
  cases hrewards : checkpointRewards a round miner poolMember s with
  | error e => exact ensures_error.2 trivial
  | ok r =>
    obtain ⟨sol, godl, round'⟩ := r
    obtain ⟨top, rfl⟩ := (checkpointRewards_id a round miner poolMember s).elim hrewards
    rw [ensures_ok]
    simp only [ensures_bind]
    refine Ensures.mono (Miner.updateRewards_spec _ _) fun m₂ hm₂ => ?_
    have hauth : m₂.authority = miner.authority := hm₂.authority
    have hunits : s.unrefined m₂.authority = m₂.rewardsGodl := by
      rw [hm₂.rewardsGodl, hauth, unrefined_of_get hminer]
    refine Ensures.mono (settleGold_spec hunits) ?_
    rintro s₂ ⟨hnone, hsome, t₂, rfl⟩
    simp only [creditMiner, ensures_bind, ensures_addU64, ensures_pure]
    intro _ _ _ _ _
    refine Ensures.mono (payCheckpoint_spec hsigner hminerKey) ?_
    rintro _ ⟨l, rfl, hpays⟩
    -- The miner as it is written back.
    set credited : Miner := { m₂ with
      checkpointId := round.id
      rewardsGodl := m₂.rewardsGodl + godl
      lifetimeRewardsGodl := m₂.lifetimeRewardsGodl + godl
      rewardsSol := m₂.rewardsSol + sol
      lifetimeRewardsSol := m₂.lifetimeRewardsSol + sol } with hcredited
    have hpda : credited.pda = .minerPda miner.authority := congrArg Pubkey.minerPda hauth
    have hminer' : s.miners.get (.minerPda miner.authority) = some miner := by
      rw [← hminerKey]
      exact hminer
    have hwager : credited.wager = { miner.wager with checkpointId := miner.roundId } := by
      have h : m₂.wager = miner.wager := hm₂.wager
      rw [← h, hcredited, ← hplayed]
      rfl
    have hledgers : (s.miners.put credited).view ⟨⟨0, 0, 0⟩, 0⟩ Miner.ledger =
        Function.update s.ledgers (.minerPda miner.authority) credited.ledger := by
      rw [← hpda]
      exact Store.view_put s.miners credited
    refine ⟨{ round with topMiner := top }, sol, godl, ?_⟩
    constructor
    case getMiner => exact hminer'
    case getRound => rw [← hroundKey]; exact hround
    case past => exact hpast
    case played => exact hplayed
    case isReset => exact hreset
    case pending => exact hpending
    case live => exact hlive
    case member => exact hmember
    case rewards => exact hrewards
    case credited =>
      exact ⟨credited, rfl, hauth, congrArg (· + sol) hm₂.rewardsSol,
        congrArg (· + godl) hm₂.rewardsGodl⟩
    case wagers =>
      rw [← hpda, ← hwager]
      exact Store.view_put s.miners credited
    case rounds => rfl
    case lamports => rw [← hroundKey]; exact hpays
    case poolRounds => rfl
    case poolMembers => rfl
    case board => rfl
    case stakes => exact ⟨rfl, rfl, rfl, rfl⟩
    case ledger =>
      have hold : s.ledgers (.minerPda miner.authority) = miner.ledger := ledgers_of_get hminer'
      have hstep : LedgerStep s { s with
          miners := s.miners.put credited
          treasury := { s.treasury with
            totalUnclaimed := s.treasury.totalUnclaimed + godl } } godl 0 :=
        credit_step (m := { miner with checkpointFee := c }) hold hm₂ rfl rfl hpda rfl
      exact hstep.same ⟨rfl, rfl, rfl, rfl⟩
    case gold =>
      intro hgold
      refine (hsome hgold).goldStep _ (x := credited.ledger) rfl rfl ?_
      rw [hauth]
      exact hledgers
    case legacyGold =>
      intro hgold
      have hsame : t₂ = s.minersExtended := congrArg State.minersExtended (hnone hgold)
      exact ⟨⟨hsame, rfl⟩, credited.ledger, hledgers⟩
    case motherlode => rfl
    case opened => rfl
    case tokens => rfl
    case supply => rfl

/-- **A checkpoint of a round that is over and reset** credits the miner before the round
expires, and makes it forfeit from then on. -/
theorem checkpointMiner_reset (hsigner : a.signerInfo.isSigner = true)
    (hminer : s.miners.get a.minerInfo.key = some miner)
    (hround : s.rounds.get a.roundInfo.key = some round)
    (hpast : round.id ≠ s.board.roundId) (hplayed : round.id = miner.roundId)
    (hreset : round.slotHash ≠ 0) (hpending : miner.checkpointId ≠ miner.roundId) :
    Ensures (checkpointMiner clock a gold miner s) fun s' =>
      (clock.slot < round.expiresAt → ∃ poolMember round' sol godl,
        Credited clock a (gold = none) s s' miner round round' poolMember sol godl) ∧
      (round.expiresAt ≤ clock.slot → s' = forfeit miner s) := by
  have hopen : ¬ (round.id = s.board.roundId ∨ round.id ≠ miner.roundId ∨ round.slotHash = 0) := by
    rintro (h | h | h)
    · exact hpast h
    · exact h hplayed
    · exact hreset h
  have hdata : ¬ s.dataIsEmpty a.roundInfo.key = true := by
    intro hempty
    have hnone := (State.noData hempty).rounds
    rw [hround] at hnone
    cases hnone
  rw [checkpointMiner, if_neg hpending, if_neg hdata, State.load, hround, fromOption, ok_bind,
    if_neg hopen, ensures_bind]
  intro poolMember hmember
  rw [ensures_ite]
  refine ⟨fun hexpired => ensures_pure.2 ⟨fun hlive => absurd hexpired (not_le.2 hlive),
    fun _ => rfl⟩, fun hlive => ?_⟩
  refine Ensures.mono (creditRound_spec hsigner hminer hround hpast hplayed hreset hpending
    (not_le.1 hlive) hmember) ?_
  rintro s' ⟨round', sol, godl, hcredited⟩
  exact ⟨fun _ => ⟨poolMember, round', sol, godl, hcredited⟩, fun hexpired => absurd hexpired hlive⟩

/-- The outcomes of a checkpoint, once its accounts are checked. -/
theorem checkpointMiner_spec (hsigner : a.signerInfo.isSigner = true)
    (hminer : s.miners.get a.minerInfo.key = some miner) :
    Ensures (checkpointMiner clock a gold miner s) (Checkpointed clock a (gold = none) s) := by
  have hget : s.miners.get (.minerPda miner.authority) = some miner := by
    rw [← hminer, ← s.miners.key_of_get _ _ hminer]
    rfl
  by_cases hpending : miner.checkpointId = miner.roundId
  · rw [checkpointMiner, if_pos hpending]
    exact ensures_pure.2 (.unchanged rfl)
  by_cases hempty : s.dataIsEmpty a.roundInfo.key = true
  · rw [checkpointMiner, if_neg hpending, if_pos hempty]
    simp only [ensures_bind, ensures_require, ensures_pure]
    intro hkey
    rw [hkey] at hempty
    exact .forfeited miner hget hpending (.closed (State.noData hempty).rounds) rfl
  cases hround : s.rounds.get a.roundInfo.key with
  | none =>
    rw [checkpointMiner, if_neg hpending, if_neg hempty, State.load, hround]
    exact ensures_error.2 trivial
  | some round =>
    by_cases hopen : round.id = s.board.roundId ∨ round.id ≠ miner.roundId ∨ round.slotHash = 0
    · rw [checkpointMiner, if_neg hpending, if_neg hempty, State.load, hround, fromOption, ok_bind,
        if_pos hopen]
      exact ensures_pure.2 (.unchanged rfl)
    obtain ⟨hpast, hplayed, hreset⟩ := not_or.1 hopen |>.imp_right not_or.1
    rw [not_not] at hplayed
    refine Ensures.mono (checkpointMiner_reset hsigner hminer hround hpast hplayed hreset
      hpending) ?_
    rintro s' ⟨hlive, hexpired⟩
    rcases lt_or_ge clock.slot round.expiresAt with hslot | hslot
    · obtain ⟨poolMember, round', sol, godl, h⟩ := hlive hslot
      exact .credited miner round round' poolMember sol godl h
    · have hgetRound : s.rounds.get (.roundPda miner.roundId) = some round := by
        rw [← hround, ← s.rounds.key_of_get _ _ hround, Round.pda, hplayed]
      exact .forfeited miner hget hpending
        (.expired round hgetRound (hplayed ▸ hpast) hreset hslot) (hexpired hslot)

/-- A checkpoint settles the miner that it names. -/
theorem checkpointBody_miner (clock : Clock) (a : CheckpointAccounts)
    (gold : Option (AccountInfo × AccountInfo)) (s : State) :
    Ensures (checkpointBody clock a gold s) fun s' => a.signerInfo.isSigner = true ∧
      ∃ miner, s.miners.get a.minerInfo.key = some miner ∧
        checkpointMiner clock a gold miner s = .ok s' := by
  simp only [checkpointBody, ensures_bind, ensures_require, ensures_fromOption]
  intro hsigner _ miner hminer _ _
  split
  · simp only [ensures_bind, ensures_require]
    exact fun _ _ _ s' hs' => ⟨hsigner, miner, hminer, hs'⟩
  · exact fun s' hs' => ⟨hsigner, miner, hminer, hs'⟩

/-- **The outcomes of a checkpoint.** -/
theorem checkpointBody_spec (clock : Clock) (a : CheckpointAccounts)
    (gold : Option (AccountInfo × AccountInfo)) (s : State) :
    Ensures (checkpointBody clock a gold s) (Checkpointed clock a (gold = none) s) := by
  refine Ensures.mono (checkpointBody_miner clock a gold s) ?_
  rintro s' ⟨hsigner, miner, hminer, hok⟩
  exact (checkpointMiner_spec hsigner hminer).elim hok

theorem processCheckpoint_spec (clock : Clock) (a : CheckpointAccounts) (s : State) :
    Ensures (processCheckpoint clock a s) fun s' =>
      clock.unixTimestamp < legacyInstructionExpiryTs ∧ Checkpointed clock a True s s' := by
  simp only [processCheckpoint, ensures_bind, ensures_require]
  intro hexpiry
  refine Ensures.mono (checkpointBody_spec clock a none s) fun s' h => ⟨hexpiry, ?_⟩
  simpa using h

theorem processCheckpointWithMinerExtended_spec (clock : Clock) (a : CheckpointAccounts)
    (goldVaultInfo minerExtendedInfo : AccountInfo) (s : State) :
    Ensures (processCheckpointWithMinerExtended clock a goldVaultInfo minerExtendedInfo s)
      (Checkpointed clock a False s) := by
  have h := checkpointBody_spec clock a (some (goldVaultInfo, minerExtendedInfo)) s
  simpa [processCheckpointWithMinerExtended] using h

end Credit

end Godl
