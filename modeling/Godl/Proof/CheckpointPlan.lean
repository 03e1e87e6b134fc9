import Godl.Proof.Change

/-!
# What a checkpoint plans

The change that a checkpoint makes is computed from the miner's own accounts, from its round and
from what no checkpoint writes.  The checkpoint goes through exactly when there are funds for the
change, and then applies it.

## Main definitions

* `GoldPlan` — how the extended account is settled.
* `Planned` — the change that a checkpoint makes.
* `checkpointBody_eq_ok` — a checkpoint applies the change that it plans.
-/

namespace Godl

open Lib

/-- The miner is recorded as the top miner: it won alone. -/
def Round.recorded (round : Round) (miner : Miner) : Option Pubkey :=
  match round.rng with
  | some r =>
      if round.Solo ∧ 0 < miner.deployed (winningSquare r) ∧ Hits miner.cumulative miner.deployed
          (round.topMinerSample r (winningSquare r)) (winningSquare r) then
        some miner.authority
      else none
  | none => none

/-- The extended account as a checkpoint settles it. -/
inductive GoldPlan (gold : Option (AccountInfo × AccountInfo)) (miner : Miner) (rewardsGodl : ℕ)
    (s : State) : Option MinerExtended → Prop
  | legacy (h : gold = none) : GoldPlan gold miner rewardsGodl s none
  | missing {vaultInfo extendedInfo : AccountInfo} (h : gold = some (vaultInfo, extendedInfo))
      (writable : extendedInfo.isWritable = true)
      (key : extendedInfo.key = .minerExtendedPda miner.authority)
      (empty : s.dataIsEmpty extendedInfo.key = true)
      (nothing : miner.rewardsGodl = 0 ∧ rewardsGodl = 0) : GoldPlan gold miner rewardsGodl s none
  | settled {vaultInfo extendedInfo : AccountInfo} {e e' : MinerExtended}
      (h : gold = some (vaultInfo, extendedInfo)) (writable : extendedInfo.isWritable = true)
      (key : extendedInfo.key = .minerExtendedPda miner.authority)
      (data : s.dataIsEmpty extendedInfo.key = false)
      (get : s.minersExtended.get extendedInfo.key = some e)
      (authority : e.authority = miner.authority)
      (update : e.updateRewards s.goldVault miner.rewardsGodl = .ok e') :
      GoldPlan gold miner rewardsGodl s (some e')

/-- The accounts of a checkpoint are the right ones. -/
structure CheckpointReady (a : CheckpointAccounts) (gold : Option (AccountInfo × AccountInfo))
    (miner : Miner) (s : State) : Prop where
  signer : a.signerInfo.isSigner = true
  board : a.boardInfo.key = Singleton.board.pda ∧ s.opened .board = true
  getMiner : s.miners.get a.minerInfo.key = some miner
  treasury : a.treasuryInfo.key = Singleton.treasury.pda ∧ s.opened .treasury = true
  system : a.systemProgram.key = systemProgramId ∧ a.systemProgram.executable = true
  gold : ∀ vaultInfo extendedInfo, gold = some (vaultInfo, extendedInfo) →
    vaultInfo.key = .goldVaultPda ∧ s.opened .goldVault = true ∧
      extendedInfo.key = .minerExtendedPda miner.authority

/-- A round that a checkpoint waits for. -/
abbrev Round.Waits (round : Round) (s : State) (miner : Miner) : Prop :=
  round.id = s.board.roundId ∨ round.id ≠ miner.roundId ∨ round.slotHash = 0

/-- The miner is credited, after its fee and its rewards are settled. -/
def Change.credit (miner : Miner) (round : Round) (m : Miner) (extended : Option MinerExtended)
    (sol godl fee : ℕ) (payee : Pubkey) : Change where
  miner := { m with
    checkpointId := round.id
    rewardsGodl := m.rewardsGodl + godl
    lifetimeRewardsGodl := m.lifetimeRewardsGodl + godl
    rewardsSol := m.rewardsSol + sol
    lifetimeRewardsSol := m.lifetimeRewardsSol + sol }
  extended := extended
  top := round.recorded miner
  sol := sol
  godl := some godl
  fee := fee
  rest := minimumBalance minerSize + m.checkpointFee + (m.rewardsSol + sol)
  payee := payee

/-- The change that a checkpoint makes. -/
inductive Planned (clock : Clock) (a : CheckpointAccounts)
    (gold : Option (AccountInfo × AccountInfo)) (miner : Miner) (s : State) : Change → Prop
  | settled (h : miner.checkpointId = miner.roundId) :
      Planned clock a gold miner s (.only miner a.signerInfo.key)
  | waits {round : Round} (pending : miner.checkpointId ≠ miner.roundId)
      (get : s.rounds.get a.roundInfo.key = some round) (waits : round.Waits s miner) :
      Planned clock a gold miner s (.only miner a.signerInfo.key)
  | closed (pending : miner.checkpointId ≠ miner.roundId)
      (empty : s.dataIsEmpty a.roundInfo.key = true)
      (key : a.roundInfo.key = .roundPda miner.roundId) :
      Planned clock a gold miner s
        (.only { miner with checkpointId := miner.roundId } a.signerInfo.key)
  | expired {round : Round} {poolMember : Option PoolMember}
      (pending : miner.checkpointId ≠ miner.roundId)
      (get : s.rounds.get a.roundInfo.key = some round) (passed : ¬ round.Waits s miner)
      (member : loadPoolMember a miner s = .ok poolMember) (late : round.expiresAt ≤ clock.slot) :
      Planned clock a gold miner s
        (.only { miner with checkpointId := miner.roundId } a.signerInfo.key)
  | credited {round : Round} {poolMember : Option PoolMember} {fee sol godl : ℕ} {m m' : Miner}
      {extended : Option MinerExtended} (pending : miner.checkpointId ≠ miner.roundId)
      (get : s.rounds.get a.roundInfo.key = some round) (passed : ¬ round.Waits s miner)
      (member : loadPoolMember a miner s = .ok poolMember) (live : clock.slot < round.expiresAt)
      (takes : botFee clock round miner = .ok (fee, m))
      (rewards : checkpointRewards a round miner poolMember s = .ok (sol, godl,
        { round with topMiner := (round.recorded miner).getD round.topMiner }))
      (update : m.updateRewards s.treasury = .ok m') (settle : GoldPlan gold m' godl s extended)
      (fits : m'.rewardsGodl + godl < u64Bound ∧ m'.lifetimeRewardsGodl + godl < u64Bound ∧
        m'.rewardsSol + sol < u64Bound ∧ m'.lifetimeRewardsSol + sol < u64Bound) :
      Planned clock a gold miner s (.credit miner round m' extended sol godl fee a.signerInfo.key)

section Plan

variable {clock : Clock} {a : CheckpointAccounts} {gold : Option (AccountInfo × AccountInfo)}
  {signerInfo : AccountInfo} {miner m : Miner} {round : Round} {poolMember : Option PoolMember}
  {sol godl fee n : ℕ} {s u : State} {c : Change}

/-! ## Settling the gold -/

/-- **The extended account is written as planned.** -/
theorem settleGold_eq_ok : settleGold gold signerInfo miner godl s = .ok u ↔
    ∃ e, GoldPlan gold miner godl s e ∧
      { s with minersExtended := writeExtended e s.minersExtended } = u := by
  constructor
  · intro h
    cases hgold : gold with
    | none =>
      rw [hgold, settleGold, pure_eq_ok] at h
      exact ⟨none, .legacy rfl, h⟩
    | some p =>
      obtain ⟨vaultInfo, extendedInfo⟩ := p
      rw [hgold] at h
      simp only [settleGold, loadOrCreateMinerExtended, bind_eq_ok, require_eq_ok] at h
      obtain ⟨⟨extended, s₁⟩, ⟨-, hwritable, -, hkey, hload⟩, -, hsome, hsync⟩ := h
      dsimp only at hsome hsync
      by_cases hempty : s.dataIsEmpty extendedInfo.key = true
      · rw [if_pos hempty, if_neg Bool.false_ne_true, pure_eq_ok] at hload
        cases hload
        simp only [syncGoldRewards, bind_eq_ok, require_eq_ok, pure_eq_ok] at hsync
        obtain ⟨-, -, rfl⟩ := hsync
        exact ⟨none, .missing rfl hwritable hkey hempty (hsome.resolve_left (by simp)), rfl⟩
      · rw [if_neg hempty] at hload
        simp only [bind_eq_ok, require_eq_ok, fromOption_eq_ok, pure_eq_ok] at hload
        obtain ⟨e, hget, -, hauth, heq⟩ := hload
        cases heq
        simp only [syncGoldRewards, bind_eq_ok, require_eq_ok, pure_eq_ok] at hsync
        obtain ⟨-, -, e', hupdate, rfl⟩ := hsync
        exact ⟨some e', .settled rfl hwritable hkey (Bool.not_eq_true _ ▸ hempty) hget hauth
          hupdate, rfl⟩
  · rintro ⟨e, hplan, rfl⟩
    cases hplan with
    | legacy h =>
      rw [h]
      rfl
    | @missing vaultInfo extendedInfo h hwritable hkey hempty hnothing =>
      rw [h]
      simp only [settleGold, loadOrCreateMinerExtended, bind_eq_ok, require_eq_ok]
      refine ⟨(none, s), ⟨(), hwritable, (), hkey, ?_⟩, (), .inr hnothing, ?_⟩
      · rw [if_pos hempty, if_neg Bool.false_ne_true]
        rfl
      · simp only [syncGoldRewards, bind_eq_ok, require_eq_ok]
        exact ⟨(), hnothing.1, rfl⟩
    | @settled vaultInfo extendedInfo e e' h hwritable hkey hdata hget hauth hupdate =>
      rw [h]
      simp only [settleGold, loadOrCreateMinerExtended, bind_eq_ok, require_eq_ok]
      refine ⟨(some e, s), ⟨(), hwritable, (), hkey, ?_⟩, (), .inl rfl, ?_⟩
      · rw [if_neg (by simp [hdata])]
        simp only [bind_eq_ok, require_eq_ok, fromOption_eq_ok]
        exact ⟨e, hget, (), hauth, rfl⟩
      · simp only [syncGoldRewards, bind_eq_ok, require_eq_ok]
        exact ⟨(), hauth, e', hupdate, rfl⟩

/-! ## Paying -/

/-- The lamports after both payments. -/
theorem Change.pay_eq (c : Change) (hkeypair : c.payee.isKeypair = true) :
    ((s.moveLamports (.roundPda c.miner.roundId) c.miner.pda c.sol).moveLamports c.miner.pda
      c.payee c.fee).lamports = c.pay s.lamports := by
  have hne : Pubkey.roundPda c.miner.roundId ≠ c.miner.pda := ne_minerPda (.inr ⟨_, rfl⟩) _
  have hne' : c.payee ≠ c.miner.pda := ne_minerPda (.inl hkeypair) _
  have hne'' : c.payee ≠ .roundPda c.miner.roundId := by
    intro heq
    rw [heq] at hkeypair
    cases hkeypair
  funext j
  simp only [State.moveLamports, Change.pay, Change.gain, Change.loss]
  rcases eq_or_ne j c.miner.pda with rfl | hminer
  · simp [hne.symm, hne'.symm]
  rcases eq_or_ne j (.roundPda c.miner.roundId) with rfl | hround
  · simp [hne, hne''.symm]
  rcases eq_or_ne j c.payee with rfl | hpayee
  · simp [hminer, hround]
  · simp [hminer, hround, hpayee]

/-- **A checkpoint pays what it planned**, when there are funds for it. -/
theorem payCheckpoint_eq_ok (hminer : a.minerInfo.key = c.miner.pda)
    (hround : a.roundInfo.key = .roundPda c.miner.roundId) (hpayee : a.signerInfo.key = c.payee)
    (hkeypair : c.payee.isKeypair = true)
    (hrest : c.rest = minimumBalance minerSize + m.checkpointFee + (m.rewardsSol + c.sol)) :
    payCheckpoint a m c.sol c.fee s = .ok u ↔
      c.sol ≤ s.lamports (.roundPda c.miner.roundId) ∧
      c.rest + c.fee ≤ s.lamports c.miner.pda + c.sol ∧
      { s with lamports := c.pay s.lamports } = u := by
  have hlamports : (s.moveLamports (.roundPda c.miner.roundId) c.miner.pda c.sol).lamports
      c.miner.pda = s.lamports c.miner.pda + c.sol := by
    simp [State.moveLamports, (ne_minerPda (.inr ⟨c.miner.roundId, rfl⟩) c.miner).symm]
  have hpay := c.pay_eq (s := s) hkeypair
  have hleftover : c.pay s.lamports c.miner.pda = s.lamports c.miner.pda + c.sol - c.fee := by
    have hne : c.miner.pda ≠ .roundPda c.miner.roundId := (ne_minerPda (.inr ⟨_, rfl⟩) _).symm
    have hne' : c.miner.pda ≠ c.payee := (ne_minerPda (.inl hkeypair) _).symm
    simp [Change.pay, Change.gain, Change.loss, hne, hne']
  have hstate : (s.moveLamports (.roundPda c.miner.roundId) c.miner.pda c.sol).moveLamports
      c.miner.pda c.payee c.fee = { s with lamports := c.pay s.lamports } := by
    rw [← hpay]
    rfl
  simp only [payCheckpoint_eq, State.send, bind_eq_ok, require_eq_ok, pure_eq_ok, hminer, hround,
    hpayee, ← hrest]
  constructor
  · rintro ⟨_, ⟨-, hsol, rfl⟩, _, ⟨-, hfee, rfl⟩, -, hleft, rfl⟩
    rw [hpay, hleftover] at hleft
    rw [hlamports] at hfee
    exact ⟨hsol, by omega, hstate.symm⟩
  · rintro ⟨hsol, hleft, rfl⟩
    refine ⟨_, ⟨(), hsol, rfl⟩, _, ⟨(), ?_, rfl⟩, (), ?_, hstate⟩
    · rw [hlamports]
      omega
    · rw [hpay, hleftover]
      omega

/-! ## Crediting -/

/-- **Only a top miner that won alone is recorded.** -/
theorem winnerGodl_recorded {r : BitVec 64} {ws : Square} :
    Ensures (winnerGodl a round miner poolMember r ws s) fun p => p.2 = { round with
      topMiner := (if round.Solo ∧ Hits miner.cumulative miner.deployed
        (round.topMinerSample r ws) ws then some miner.authority else none).getD
          round.topMiner } := by
  by_cases hsplit : round.topMiner = splitAddress
  · rw [winnerGodl, if_pos hsplit, if_neg fun h : _ ∧ _ => h.1.1 hsplit]
    exact ensures_pure.2 rfl
  by_cases hpool : round.topMiner = poolAddress
  · rw [winnerGodl, if_neg hsplit, if_pos hpool, if_neg fun h : _ ∧ _ => h.1.2 hpool, ensures_bind]
    exact ensures_of_forall fun _ => ensures_pure.2 rfl
  · rw [winnerGodl, if_neg hsplit, if_neg hpool]
    refine Ensures.bind (isTopMiner_spec round miner r ws) fun top htop => ?_
    rw [ensures_ite]
    refine ⟨fun h => ?_, fun h => ?_⟩
    · rw [ensures_pure, if_pos ⟨⟨hsplit, hpool⟩, htop.1 h⟩]
      rfl
    · rw [ensures_pure, if_neg fun hhit : _ ∧ _ => h (htop.2 hhit.2)]
      rfl

theorem checkpointRewards_recorded (a : CheckpointAccounts) (round : Round) (miner : Miner)
    (poolMember : Option PoolMember) (s : State) :
    Ensures (checkpointRewards a round miner poolMember s) fun p =>
      p.2.2 = { round with topMiner := (round.recorded miner).getD round.topMiner } := by
  unfold checkpointRewards Round.recorded
  cases round.rng with
  | none =>
    simp only [ensures_bind, ensures_require, ensures_pure]
    exact fun _ => ensures_of_forall fun _ => rfl
  | some r =>
    dsimp only
    by_cases hwon : 0 < miner.deployed (Round.winningSquare r)
    · rw [if_pos hwon]
      simp only [ensures_bind, ensures_require, hwon, true_and]
      refine fun _ => ensures_of_forall fun _ => Ensures.mono winnerGodl_recorded ?_
      rintro ⟨_, round'⟩ hround'
      rw [ensures_addU64]
      exact fun _ => ensures_pure.2 hround'
    · rw [if_neg hwon, ensures_pure, if_neg fun h : _ ∧ _ => hwon h.2.1]
      rfl

/-- What is booked has to fit. -/
theorem creditMiner_eq_ok : creditMiner round m sol godl s = .ok u ↔
    (m.rewardsGodl + godl < u64Bound ∧ m.lifetimeRewardsGodl + godl < u64Bound ∧
      m.rewardsSol + sol < u64Bound ∧ m.lifetimeRewardsSol + sol < u64Bound) ∧
    s.treasury.totalUnclaimed + godl < u64Bound ∧
    { s with
      rounds := s.rounds.put round
      miners := s.miners.put { m with
        checkpointId := round.id
        rewardsGodl := m.rewardsGodl + godl
        lifetimeRewardsGodl := m.lifetimeRewardsGodl + godl
        rewardsSol := m.rewardsSol + sol
        lifetimeRewardsSol := m.lifetimeRewardsSol + sol }
      treasury := { s.treasury with totalUnclaimed := s.treasury.totalUnclaimed + godl } } = u := by
  simp only [creditMiner, bind_eq_ok, addU64_eq_ok, pure_eq_ok]
  constructor
  · rintro ⟨_, ⟨h₁, rfl⟩, _, ⟨h₂, rfl⟩, _, ⟨h₃, rfl⟩, _, ⟨h₄, rfl⟩, _, ⟨h₅, rfl⟩, rfl⟩
    exact ⟨⟨h₁, h₂, h₃, h₄⟩, h₅, rfl⟩
  · rintro ⟨⟨h₁, h₂, h₃, h₄⟩, h₅, rfl⟩
    exact ⟨_, ⟨h₁, rfl⟩, _, ⟨h₂, rfl⟩, _, ⟨h₃, rfl⟩, _, ⟨h₄, rfl⟩, _, ⟨h₅, rfl⟩, rfl⟩

/-- Recording the top miner writes the round. -/
theorem recordTop_of_get {id : ℕ} {rounds : Store Pubkey Round Round.pda}
    (h : rounds.get (.roundPda id) = some round) (top : Option Pubkey) :
    recordTop id top rounds = rounds.put { round with topMiner := top.getD round.topMiner } := by
  have hpda : Round.pda { round with topMiner := top.getD round.topMiner } = .roundPda id :=
    (rounds.key_of_get _ _ h : Round.pda round = _)
  refine Store.ext_get (funext fun j => ?_)
  rw [get_recordTop, Store.get_put, hpda]
  split
  · next hj =>
    rw [hj, h]
    rfl
  · exact Option.map_id'

/-- **A credit is applied as planned.** -/
theorem creditRound_eq_ok (hsigner : a.signerInfo.isSigner = true)
    (hminer : a.minerInfo.key = .minerPda miner.authority)
    (hround : s.rounds.get a.roundInfo.key = some round) (hplayed : round.id = miner.roundId) :
    creditRound clock a gold round miner poolMember s = .ok u ↔ ∃ fee m sol godl m' extended,
      botFee clock round miner = .ok (fee, m) ∧
      checkpointRewards a round miner poolMember s = .ok (sol, godl,
        { round with topMiner := (round.recorded miner).getD round.topMiner }) ∧
      m.updateRewards s.treasury = .ok m' ∧ GoldPlan gold m' godl s extended ∧
      (m'.rewardsGodl + godl < u64Bound ∧ m'.lifetimeRewardsGodl + godl < u64Bound ∧
        m'.rewardsSol + sol < u64Bound ∧ m'.lifetimeRewardsSol + sol < u64Bound) ∧
      (Change.credit miner round m' extended sol godl fee a.signerInfo.key).Fits s ∧
      (Change.credit miner round m' extended sol godl fee a.signerInfo.key).apply s = u := by
  have hroundKey : a.roundInfo.key = .roundPda round.id := (s.rounds.key_of_get _ _ hround).symm
  -- Booking and paying are the change, once the extended account is written.
  have happly : ∀ fee m sol godl m' extended, botFee clock round miner = .ok (fee, m) →
      m.updateRewards s.treasury = .ok m' →
      ((creditMiner { round with topMiner := (round.recorded miner).getD round.topMiner } m' sol
          godl { s with minersExtended := writeExtended extended s.minersExtended } >>= fun s₁ =>
            payCheckpoint a m' sol fee s₁) = .ok u ↔
        (m'.rewardsGodl + godl < u64Bound ∧ m'.lifetimeRewardsGodl + godl < u64Bound ∧
          m'.rewardsSol + sol < u64Bound ∧ m'.lifetimeRewardsSol + sol < u64Bound) ∧
        (Change.credit miner round m' extended sol godl fee a.signerInfo.key).Fits s ∧
        (Change.credit miner round m' extended sol godl fee a.signerInfo.key).apply s = u) := by
    intro fee m sol godl m' extended htakes hupdate
    obtain ⟨_, hm⟩ := (botFee_spec clock round miner).elim htakes
    dsimp only at hm
    subst hm
    have hsettled := (Miner.updateRewards_spec _ _).elim hupdate
    have hid : m'.roundId = round.id :=
      (congrArg Miner.Wager.roundId hsettled.wager).trans hplayed.symm
    set c := Change.credit miner round m' extended sol godl fee a.signerInfo.key with hc
    have hpay : ∀ s₁, payCheckpoint a m' sol fee s₁ = .ok u ↔
        c.sol ≤ s₁.lamports (.roundPda c.miner.roundId) ∧
        c.rest + c.fee ≤ s₁.lamports c.miner.pda + c.sol ∧
        { s₁ with lamports := c.pay s₁.lamports } = u := by
      intro s₁
      refine payCheckpoint_eq_ok (c := c) ?_ ?_ rfl ?_ rfl
      · rw [hminer]
        exact congrArg Pubkey.minerPda hsettled.authority.symm
      · rw [hroundKey]
        exact congrArg Pubkey.roundPda hid.symm
      · exact a.signerInfo.isKeypair_of_isSigner hsigner
    have hrecorded : recordTop c.miner.roundId c.top s.rounds = s.rounds.put
        { round with topMiner := (round.recorded miner).getD round.topMiner } := by
      refine recordTop_of_get ?_ _
      rw [← hround, hroundKey]
      exact congrArg (fun id => s.rounds.get (.roundPda id)) hid
    simp only [bind_eq_ok, creditMiner_eq_ok, hpay]
    constructor
    · rintro ⟨_, ⟨hbounds, hbooked, rfl⟩, hsol, hleft, rfl⟩
      refine ⟨hbounds, ⟨?_, hsol, hleft⟩, ?_⟩
      · rintro n ⟨⟩
        exact hbooked
      · rw [Change.apply, hrecorded]
        rfl
    · rintro ⟨hbounds, hfits, rfl⟩
      refine ⟨_, ⟨hbounds, hfits.booked godl rfl, rfl⟩, hfits.round, hfits.rest, ?_⟩
      rw [Change.apply, hrecorded]
      rfl
  constructor
  · intro h
    simp only [creditRound, bind_eq_ok] at h
    obtain ⟨⟨fee, m⟩, htakes, ⟨sol, godl, round'⟩, hrewards, m', hupdate, _, hsettle, s₂, hcredit,
      hpay⟩ := h
    obtain ⟨_, hm⟩ := (botFee_spec clock round miner).elim htakes
    dsimp only at hm hrewards hupdate hsettle hcredit hpay
    rw [hm, checkpointRewards_fee] at hrewards
    have hround' := (checkpointRewards_recorded a round miner poolMember s).elim hrewards
    dsimp only at hround'
    subst hround'
    obtain ⟨extended, hplan, rfl⟩ := settleGold_eq_ok.1 hsettle
    exact ⟨fee, m, sol, godl, m', extended, htakes, hrewards, hupdate, hplan,
      (happly fee m sol godl m' extended htakes hupdate).1 (bind_eq_ok.2 ⟨s₂, hcredit, hpay⟩)⟩
  · rintro ⟨fee, m, sol, godl, m', extended, htakes, hrewards, hupdate, hplan, happlied⟩
    obtain ⟨_, hm⟩ := (botFee_spec clock round miner).elim htakes
    dsimp only at hm
    have hcredit := (happly fee m sol godl m' extended htakes hupdate).2 happlied
    rw [hm] at htakes hupdate
    rw [creditRound, htakes, ok_bind]
    dsimp only
    rw [checkpointRewards_fee, hrewards, ok_bind]
    dsimp only
    rw [hupdate, ok_bind, settleGold_eq_ok.2 ⟨extended, hplan, rfl⟩, ok_bind]
    exact hcredit

/-! ## The whole checkpoint -/

/-- The accounts are checked before anything is planned. -/
theorem checkpointBody_ready : checkpointBody clock a gold s = .ok u ↔
    ∃ miner, CheckpointReady a gold miner s ∧ checkpointMiner clock a gold miner s = .ok u := by
  simp only [checkpointBody, bind_eq_ok, require_eq_ok, fromOption_eq_ok]
  constructor
  · rintro ⟨-, hsigner, -, hboard, miner, hminer, -, htreasury, -, hsystem, hgold⟩
    cases gold with
    | none => exact ⟨miner, ⟨hsigner, hboard, hminer, htreasury, hsystem, by simp⟩, hgold⟩
    | some p =>
      obtain ⟨vaultInfo, extendedInfo⟩ := p
      simp only [bind_eq_ok, require_eq_ok] at hgold
      obtain ⟨-, ⟨-, hvault, -, hopened⟩, -, hextended, hok⟩ := hgold
      refine ⟨miner, ⟨hsigner, hboard, hminer, htreasury, hsystem, ?_⟩, hok⟩
      rintro _ _ ⟨⟩
      exact ⟨hvault, hopened, hextended⟩
  · rintro ⟨miner, hready, hok⟩
    refine ⟨(), hready.signer, (), hready.board, miner, hready.getMiner, (), hready.treasury, (),
      hready.system, ?_⟩
    cases gold with
    | none => exact hok
    | some p =>
      obtain ⟨vaultInfo, extendedInfo⟩ := p
      obtain ⟨hvault, hopened, hextended⟩ := hready.gold _ _ rfl
      simp only [bind_eq_ok, require_eq_ok]
      exact ⟨(), ⟨(), hvault, hvault, hopened⟩, (), hextended, hok⟩

/-- Nothing but the miner changes. -/
theorem apply_only (m : Miner) (payee : Pubkey) (s : State) :
    (Change.only m payee).apply s = { s with miners := s.miners.put m } := by
  have hpay : (Change.only m payee).pay s.lamports = s.lamports := by
    funext j
    simp only [Change.pay, Change.gain, Change.loss]
    split_ifs <;> rfl
  rw [Change.apply, hpay]
  rfl

theorem fits_only (m : Miner) (payee : Pubkey) (s : State) : (Change.only m payee).Fits s :=
  ⟨by simp [Change.only], Nat.zero_le _, Nat.zero_le _⟩

theorem apply_only_self (hminer : s.miners.get miner.pda = some miner) (payee : Pubkey) :
    (Change.only miner payee).apply s = s := by
  rw [apply_only, Store.put_of_get hminer]

/-- **A checkpoint applies what it plans.** -/
theorem checkpointBody_eq_ok : checkpointBody clock a gold s = .ok u ↔ ∃ miner c,
    CheckpointReady a gold miner s ∧ Planned clock a gold miner s c ∧ c.Fits s ∧
      c.apply s = u := by
  rw [checkpointBody_ready]
  constructor
  · rintro ⟨miner, hready, hok⟩
    have hkey : a.minerInfo.key = miner.pda := (s.miners.key_of_get _ _ hready.getMiner).symm
    have hminer : s.miners.get miner.pda = some miner := hkey ▸ hready.getMiner
    have hsame := apply_only_self hminer a.signerInfo.key
    by_cases hpending : miner.checkpointId = miner.roundId
    · rw [checkpointMiner, if_pos hpending, pure_eq_ok] at hok
      exact ⟨miner, _, hready, .settled hpending, fits_only _ _ _, hsame.trans hok⟩
    by_cases hempty : s.dataIsEmpty a.roundInfo.key = true
    · rw [checkpointMiner, if_neg hpending, if_pos hempty] at hok
      simp only [bind_eq_ok, require_eq_ok, pure_eq_ok] at hok
      obtain ⟨-, hroundKey, hforfeit⟩ := hok
      exact ⟨miner, _, hready, .closed hpending hempty hroundKey, fits_only _ _ _,
        (apply_only _ _ _).trans hforfeit⟩
    rw [checkpointMiner, if_neg hpending, if_neg hempty] at hok
    simp only [bind_eq_ok, fromOption_eq_ok] at hok
    obtain ⟨round, hround, hok⟩ := hok
    by_cases hwaits : round.Waits s miner
    · rw [if_pos hwaits, pure_eq_ok] at hok
      exact ⟨miner, _, hready, .waits hpending hround hwaits, fits_only _ _ _, hsame.trans hok⟩
    rw [if_neg hwaits, bind_eq_ok] at hok
    obtain ⟨poolMember, hmember, hok⟩ := hok
    by_cases hlate : round.expiresAt ≤ clock.slot
    · rw [if_pos hlate, pure_eq_ok] at hok
      exact ⟨miner, _, hready, .expired hpending hround hwaits hmember hlate, fits_only _ _ _,
        (apply_only _ _ _).trans hok⟩
    · have hplayed : round.id = miner.roundId := by
        by_contra hne
        exact hwaits (.inr (.inl hne))
      rw [if_neg hlate, creditRound_eq_ok hready.signer hkey hround hplayed] at hok
      obtain ⟨fee, m, sol, godl, m', extended, htakes, hrewards, hupdate, hplan, hbounds, hfits,
        hu⟩ := hok
      exact ⟨miner, _, hready, .credited hpending hround hwaits hmember (not_le.1 hlate) htakes
        hrewards hupdate hplan hbounds, hfits, hu⟩
  · rintro ⟨miner, c, hready, hplanned, hfits, rfl⟩
    refine ⟨miner, hready, ?_⟩
    have hkey : a.minerInfo.key = miner.pda := (s.miners.key_of_get _ _ hready.getMiner).symm
    have hminer : s.miners.get miner.pda = some miner := hkey ▸ hready.getMiner
    have hdata : ∀ {round}, s.rounds.get a.roundInfo.key = some round →
        ¬ s.dataIsEmpty a.roundInfo.key = true := by
      intro round hround hempty
      rw [(State.noData hempty).rounds] at hround
      cases hround
    cases hplanned with
    | settled hsettled =>
      rw [checkpointMiner, if_pos hsettled, apply_only_self hminer]
      rfl
    | waits hpending hround hwaits =>
      rw [checkpointMiner, if_neg hpending, if_neg (hdata hround), State.load, hround,
        apply_only_self hminer]
      exact if_pos hwaits
    | closed hpending hempty hroundKey =>
      rw [checkpointMiner, if_neg hpending, if_pos hempty, apply_only]
      exact bind_eq_ok.2 ⟨(), require_eq_ok.2 hroundKey, rfl⟩
    | expired hpending hround hwaits hmember hlate =>
      rw [checkpointMiner, if_neg hpending, if_neg (hdata hround), State.load, hround, fromOption,
        ok_bind, if_neg hwaits, hmember, ok_bind, if_pos hlate, apply_only]
      rfl
    | @credited round poolMember fee sol godl m m' extended hpending hround hwaits hmember hlive
        htakes hrewards hupdate hplan hbounds =>
      have hplayed : round.id = miner.roundId := by
        by_contra hne
        exact hwaits (.inr (.inl hne))
      rw [checkpointMiner, if_neg hpending, if_neg (hdata hround), State.load, hround, fromOption,
        ok_bind, if_neg hwaits, hmember, ok_bind, if_neg (not_le.2 hlive),
        creditRound_eq_ok hready.signer hkey hround hplayed]
      exact ⟨fee, m, sol, godl, m', extended, htakes, hrewards, hupdate, hplan, hbounds, hfits, rfl⟩

end Plan

end Godl
