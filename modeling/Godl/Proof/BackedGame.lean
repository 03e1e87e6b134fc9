import Godl.Proof.BackedHandlers
import Godl.Proof.CheckpointHandler
import Godl.Proof.DeployHandler
import Godl.Proof.ResetHandler

/-!
# The lamports of the game

Checkpoints pay miners out of rounds, deployments pay into the current round, and a reset
pays the treasury and the SOL motherlode.  What they book they move.

## Main definitions

* `processInstruction_backed` — every instruction keeps every ledger backed.
* `checkpointBody_avoidsFunds` — the final assertion of a checkpoint holds.
-/

namespace Godl

open Lib

variable {s : State} {δ : Pubkey → ℤ}

/-! ## Checkpoints -/

/-- The late fee is no longer due to the miner. -/
theorem botFee_due (clock : Clock) (round : Round) (m : Miner) :
    Ensures (botFee clock round m) fun p => p.2.pda = m.pda ∧ p.2.due + p.1 = m.due := by
  simp only [botFee, ensures_bind, ensures_subU64, ensures_ite, ensures_pure]
  refine fun _ => ⟨fun _ => ⟨rfl, ?_⟩, fun _ => ⟨trivial, Nat.add_zero _⟩⟩
  simp only [Miner.due]
  omega

theorem settleGold_sound {s₀ s : State} (hs : Sound s₀ s)
    (gold : Option (AccountInfo × AccountInfo)) (signerInfo : AccountInfo) (m : Miner)
    (rewardsGodl : ℕ) : Holds (Sound s₀) (settleGold gold signerInfo m rewardsGodl s) := by
  unfold settleGold
  split
  · exact holds_pure hs
  · refine holds_bind (loadOrCreateMinerExtended_sound hs _ _ _ _) fun p hp => ?_
    exact holds_any fun _ => syncGoldRewards_sound hp _ _

theorem due_putMiner_self (s : State) {m : Miner} {k : Pubkey} (hkey : m.pda = k) :
    ({ s with miners := s.miners.put m } : State).due k = m.due := by
  rw [State.due_putMiner, hkey, Function.update_self]

/-- What is credited in SOL is due to the miner. -/
theorem creditMiner_covers (h : s.Covers δ) (round : Round) {m : Miner} {k : Pubkey}
    (hkey : m.pda = k) (rewardsSol rewardsGodl : ℕ) :
    Ensures (creditMiner round m rewardsSol rewardsGodl s) fun s' =>
      s'.Covers (δ - gain k (m.due + rewardsSol - s.due k)) ∧ s'.due k = m.due + rewardsSol := by
  simp only [creditMiner, ensures_bind, ensures_addU64, ensures_pure]
  intro _ _ _ _ _
  generalize hcredited : ({ m with
    checkpointId := round.id
    rewardsGodl := m.rewardsGodl + rewardsGodl
    lifetimeRewardsGodl := m.lifetimeRewardsGodl + rewardsGodl
    rewardsSol := m.rewardsSol + rewardsSol
    lifetimeRewardsSol := m.lifetimeRewardsSol + rewardsSol } : Miner) = m'
  have hkey' : m'.pda = k := by
    rw [← hcredited, ← hkey]
    rfl
  have hdue : m'.due = m.due + rewardsSol := by
    rw [← hcredited]
    simp only [Miner.due]
    omega
  have hs : Sound s { s with treasury := { s.treasury with
      totalUnclaimed := s.treasury.totalUnclaimed + rewardsGodl } } :=
    (Sound.refl s).treasury rfl
  refine ⟨Covered.mono ((h.sound hs).putMiner hkey' rfl) fun j _ => ?_,
    (due_putMiner_self _ hkey').trans hdue⟩
  rw [hs.1, hdue]
  simp only [gain, Pi.sub_apply]
  split_ifs <;> omega

/-- The miner receives what it is credited and pays the fee. -/
theorem sentRewards_covers {a : CheckpointAccounts} {rewardsSol fee : ℕ}
    (h : s.Covers (gain a.minerInfo.key (fee - rewardsSol)))
    (hround : ¬ KeepsLedger a.roundInfo.key) :
    Ensures (s.send a.roundInfo.key a.minerInfo.key rewardsSol) fun s₁ =>
      Ensures (s₁.send a.minerInfo.key a.signerInfo.key fee) fun s₂ =>
        s₂.Backed ∧ s₂.due = s.due := by
  refine Ensures.mono (State.send_spec _ _ _ _) ?_
  rintro _ ⟨l₁, rfl, hl₁⟩
  refine Ensures.mono (State.send_spec _ _ _ _) ?_
  rintro _ ⟨l₂, rfl, hl₂⟩
  refine ⟨((h.received hround hl₁).moved hl₂).backed fun k => ?_, rfl⟩
  simp only [gain, Pi.sub_apply, Pi.add_apply]
  split_ifs <;> omega

/-- The final assertion of a checkpoint. -/
def ProgramError.IsFundsPanic (e : ProgramError) : Prop := e = .panic .minerInsufficientFunds

theorem payCheckpoint_backed {a : CheckpointAccounts} {m : Miner} {rewardsSol fee : ℕ}
    (h : s.Covers (gain a.minerInfo.key (fee - rewardsSol)))
    (hround : ¬ KeepsLedger a.roundInfo.key) :
    Ensures (payCheckpoint a m rewardsSol fee s) State.Backed := by
  rw [payCheckpoint_eq]
  simp only [ensures_bind, ensures_require, ensures_pure]
  refine Ensures.mono (sentRewards_covers h hround) fun s₁ hs₁ => ?_
  exact Ensures.mono hs₁ fun s₂ hs₂ _ => hs₂.1

/-- The lamports are there, since the miner is due no more than it is credited. -/
theorem payCheckpoint_avoids {a : CheckpointAccounts} {m : Miner} {rewardsSol fee : ℕ}
    (h : s.Covers (gain a.minerInfo.key (fee - rewardsSol)))
    (hround : ¬ KeepsLedger a.roundInfo.key) (hdue : s.due a.minerInfo.key = m.due + rewardsSol) :
    Avoids ProgramError.IsFundsPanic (payCheckpoint a m rewardsSol fee s) := by
  have hsend : ∀ (s : State) (source dest : Pubkey) (n : ℕ),
      Avoids ProgramError.IsFundsPanic (s.send source dest n) := by
    simp [State.send, ProgramError.IsFundsPanic]
  rw [payCheckpoint_eq]
  simp only [avoids_bind, avoids_require, avoids_pure, hsend, true_and]
  refine Ensures.mono (sentRewards_covers h hround) fun s₁ hs₁ => ?_
  refine Ensures.mono hs₁ fun s₂ hs₂ => ⟨fun hlow => ?_, fun _ _ => trivial⟩
  obtain ⟨hbacked, hdue₂⟩ := hs₂
  have hcovered := hbacked a.minerInfo.key
  rw [hdue₂, hdue, Miner.due] at hcovered
  omega

theorem checkpointRewards_avoidsFunds (a : CheckpointAccounts) (round : Round) (m : Miner)
    (poolMember : Option PoolMember) (s : State) :
    Avoids ProgramError.IsFundsPanic (checkpointRewards a round m poolMember s) := by
  have hpool : ∀ ws, Avoids ProgramError.IsFundsPanic (poolShare a round m poolMember ws s) := by
    intro ws
    unfold poolShare
    split <;> simp [ProgramError.IsFundsPanic]
  unfold checkpointRewards
  split <;> simp [winnerSol, winnerGodl, isTopMiner, hpool, ProgramError.IsFundsPanic]

theorem settleGold_avoidsFunds (gold : Option (AccountInfo × AccountInfo))
    (signerInfo : AccountInfo) (m : Miner) (rewardsGodl : ℕ) (s : State) :
    Avoids ProgramError.IsFundsPanic (settleGold gold signerInfo m rewardsGodl s) := by
  have hsync : ∀ extended s₁,
      Avoids ProgramError.IsFundsPanic (syncGoldRewards extended m s₁) := by
    intro extended s₁
    cases extended <;>
      simp [syncGoldRewards, MinerExtended.updateRewards, ProgramError.IsFundsPanic]
  unfold settleGold
  split <;> simp [loadOrCreateMinerExtended, hsync, ensures_of_forall, ProgramError.IsFundsPanic]

/-- **A checkpoint moves what it books, and its final assertion holds.** -/
theorem creditRound_backed (hs : s.Backed) (clock : Clock) {a : CheckpointAccounts}
    (gold : Option (AccountInfo × AccountInfo)) (round : Round) {m : Miner}
    (hm : s.miners.get a.minerInfo.key = some m) (hround : ¬ KeepsLedger a.roundInfo.key)
    (poolMember : Option PoolMember) :
    Ensures (creditRound clock a gold round m poolMember s) State.Backed ∧
      Avoids ProgramError.IsFundsPanic (creditRound clock a gold round m poolMember s) := by
  have hsettle : ∀ (m₂ : Miner) (fee sol godl : ℕ) (round' : Round), m₂.pda = m.pda →
      m₂.due + fee = m.due → Ensures (settleGold gold a.signerInfo m₂ godl s) fun s₁ =>
        Ensures (creditMiner round' m₂ sol godl s₁) fun s₂ =>
          s₂.Covers (gain a.minerInfo.key (fee - sol)) ∧
            s₂.due a.minerInfo.key = m₂.due + sol := by
    intro m₂ fee sol godl round' hpda hfee
    refine Ensures.mono (settleGold_sound (Sound.refl s) gold a.signerInfo m₂ godl) ?_
    intro s₁ (hs₁ : Sound s s₁)
    have hkey : m₂.pda = a.minerInfo.key := hpda.trans (s.miners.key_of_get _ m hm)
    have hdue : s₁.due a.minerInfo.key = m.due := (congrFun hs₁.1 _).trans (due_miner hm)
    refine Ensures.mono (creditMiner_covers (hs₁.backed hs).covers round' hkey sol godl) ?_
    rintro s₂ ⟨hs₂, hdue₂⟩
    refine ⟨hs₂.mono fun k _ => ?_, hdue₂⟩
    rw [hdue]
    simp only [gain, Pi.sub_apply, Pi.zero_apply]
    split_ifs <;> omega
  constructor
  · simp only [creditRound, ensures_bind]
    refine Ensures.mono (botFee_due clock round m) fun p hp => ?_
    refine ensures_of_forall fun r => ?_
    refine Ensures.mono (p.2.updateRewards_due s.treasury) fun m₂ hm₂ => ?_
    have hfee : m₂.due + p.1 = m.due := by rw [hm₂.2, hp.2]
    refine Ensures.mono (hsettle m₂ p.1 r.1 r.2.1 r.2.2 (hm₂.1.trans hp.1) hfee) fun s₁ hs₁ => ?_
    exact Ensures.mono hs₁ fun s₂ hs₂ => payCheckpoint_backed hs₂.1 hround
  · simp only [creditRound, avoids_bind]
    refine ⟨by simp [botFee, ProgramError.IsFundsPanic], ?_⟩
    refine Ensures.mono (botFee_due clock round m) fun p hp => ?_
    refine ⟨checkpointRewards_avoidsFunds a round p.2 poolMember s, ?_⟩
    refine ensures_of_forall fun r => ⟨by simp [Miner.updateRewards, ProgramError.IsFundsPanic], ?_⟩
    refine Ensures.mono (p.2.updateRewards_due s.treasury) fun m₂ hm₂ => ?_
    have hfee : m₂.due + p.1 = m.due := by rw [hm₂.2, hp.2]
    refine ⟨settleGold_avoidsFunds gold a.signerInfo m₂ r.2.1 s, ?_⟩
    refine Ensures.mono (hsettle m₂ p.1 r.1 r.2.1 r.2.2 (hm₂.1.trans hp.1) hfee) fun s₁ hs₁ => ?_
    refine ⟨by simp [creditMiner, ProgramError.IsFundsPanic], ?_⟩
    exact Ensures.mono hs₁ fun s₂ hs₂ => payCheckpoint_avoids hs₂.1 hround hs₂.2

theorem checkpointBody_backed (hs : s.Backed) (clock : Clock) (a : CheckpointAccounts)
    (gold : Option (AccountInfo × AccountInfo)) :
    Ensures (checkpointBody clock a gold s) State.Backed := by
  have hforfeit : ∀ m, s.miners.get a.minerInfo.key = some m → (forfeit m s).Backed := by
    intro m hm
    have hdue : s.due m.pda = m.due := due_miner_pda hm
    have hsound : Sound s (forfeit m s) := (Sound.refl s).putMiner hdue
    exact hsound.backed hs
  have hcredit : ∀ m, s.miners.get a.minerInfo.key = some m →
      Holds State.Backed (checkpointMiner clock a gold m s) := by
    intro m hm
    unfold checkpointMiner
    refine holds_ite (holds_pure hs) (holds_ite (holds_any fun _ => holds_pure (hforfeit m hm)) ?_)
    rw [Holds, ensures_bind, State.load, ensures_fromOption]
    intro round hround
    have hkey : ¬ KeepsLedger a.roundInfo.key := by
      rw [← s.rounds.key_of_get _ _ hround]
      exact id
    refine holds_ite (holds_pure hs) (holds_any fun poolMember => ?_)
    refine holds_ite (holds_pure (hforfeit m hm)) ?_
    exact (creditRound_backed hs clock gold round hm hkey poolMember).1
  cases gold
  all_goals
    simp only [checkpointBody, ensures_bind, ensures_require, ensures_fromOption]
  · intro _ _ m hm _ _
    exact hcredit m hm
  · intro _ _ m hm _ _ _ _ _
    exact hcredit m hm

/-- **The final assertion of a checkpoint never fails.** -/
theorem checkpointBody_avoidsFunds (hs : s.Backed) (clock : Clock) (a : CheckpointAccounts)
    (gold : Option (AccountInfo × AccountInfo)) :
    Avoids ProgramError.IsFundsPanic (checkpointBody clock a gold s) := by
  have hcredit : ∀ m round poolMember, s.miners.get a.minerInfo.key = some m →
      s.rounds.get a.roundInfo.key = some round →
      Avoids ProgramError.IsFundsPanic (creditRound clock a gold round m poolMember s) := by
    intro m round poolMember hm hround
    have hkey : ¬ KeepsLedger a.roundInfo.key := by
      rw [← s.rounds.key_of_get _ _ hround]
      exact id
    exact (creditRound_backed hs clock gold round hm hkey poolMember).2
  have hload : ∀ m, Avoids ProgramError.IsFundsPanic (loadPoolMember a m s) := by
    simp [loadPoolMember, ProgramError.IsFundsPanic]
  cases gold
  all_goals
    simp only [checkpointBody, checkpointMiner, avoids_bind, avoids_require, avoids_fromOption,
      avoids_ite, avoids_pure, ensures_bind, ensures_require, ensures_fromOption,
      ProgramError.IsFundsPanic,
      State.loadError_ne_panic, reduceCtorEq, not_false_eq_true, implies_true, true_and]
  · intro _ _ m hm _ _ _ _ round hround _
    exact ⟨hload m, ensures_of_forall fun poolMember _ => hcredit m round poolMember hm hround⟩
  · intro _ _ m hm _ _ _ _ _ _ _ round hround _
    exact ⟨hload m, ensures_of_forall fun poolMember _ => hcredit m round poolMember hm hround⟩

/-! ## Deployments -/

/-- The loop over the squares leaves alone what is due. -/
structure BetSound (start b : Bet) : Prop where
  state : Sound start.state b.state
  pda : b.miner.pda = start.miner.pda
  due : b.miner.due = start.miner.due

section Deploy

variable {c : DeployContext} {start b : Bet}

theorem deploySquare_sound (h : BetSound start b) (sq : Square) :
    Ensures (deploySquare c b sq) (BetSound start) := by
  simp only [deploySquare, deployPooled, openPoolMember, ensures_bind, ensures_addU64,
    ensures_ite, ensures_pure]
  intro _ _ _
  refine ⟨fun _ => ?_, fun _ _ => ⟨h.state, h.pda, h.due⟩⟩
  split
  · simp only [ensures_bind, ensures_pure]
    exact Ensures.mono (createAccount_sound h.state _ _ _) fun s₁ hs₁ _ => ⟨hs₁, h.pda, h.due⟩
  · simp only [ensures_bind, ensures_require, ensures_pure]
    exact fun _ _ => ⟨h.state, h.pda, h.due⟩

theorem deployLoop_sound (squares : Square → Bool) (l : List Square) (h : BetSound start b) :
    Ensures (deployLoop c squares l b) (BetSound start) := by
  induction l generalizing b with
  | nil => exact ensures_ok.2 h
  | cons sq rest ih =>
    rw [deployLoop]
    split
    · exact ih h
    · split
      · exact ih h
      · simp only [ensures_bind, ensures_ite, ensures_pure]
        refine Ensures.mono (deploySquare_sound h sq) fun b' hb' => ?_
        exact ensures_of_forall fun _ => ⟨fun _ => hb', fun _ => ih hb'⟩

/-- What is due once the accounts of a bet are written back. -/
theorem saveBet_due (b : Bet) :
    (saveBet b).due = Function.update b.state.due b.miner.pda b.miner.due :=
  State.due_putMiner { b.state with
    rounds := b.state.rounds.put b.round
    poolRounds := b.state.poolRounds.put b.poolRound
    poolMembers := (saveBet b).poolMembers } b.miner

theorem saveBet_covers {k : Pubkey} (h : b.state.Covers δ) (hkey : b.miner.pda = k) :
    (saveBet b).Covers (δ - gain k (b.miner.due - b.state.due k)) := by
  rw [State.Covers, saveBet_due, hkey]
  exact Covered.rebook h k b.miner.due

/-- The bet is over: the fee that is set aside is due to the miner and paid for. -/
theorem finishBet_backed {minerInfo : AccountInfo} (hkey : b.miner.pda = minerInfo.key)
    (hsigner : c.signerInfo.isSigner = true)
    (h : b.state.Covers (gain minerInfo.key (b.miner.due - b.state.due minerInfo.key))) :
    Ensures (finishBet c minerInfo b) fun s' =>
      s'.Backed ∧ ∀ k, k ≠ minerInfo.key → s'.due k = b.state.due k := by
  have hsave : ∀ m : Miner, m.pda = minerInfo.key →
      (saveBet { b with miner := m }).Covers (gain minerInfo.key (b.miner.due - m.due)) ∧
        ∀ k, k ≠ minerInfo.key → (saveBet { b with miner := m }).due k = b.state.due k := by
    intro m hm
    refine ⟨(saveBet_covers (b := { b with miner := m }) h hm).mono fun k _ => ?_, fun k hk => ?_⟩
    · simp only [gain, Pi.sub_apply]
      split_ifs <;> omega
    · rw [saveBet_due]
      exact Function.update_of_ne (by rwa [hm]) _ _
  simp only [finishBet, ensures_bind, ensures_addU64, ensures_ite, ensures_fromOption,
    ensures_require, ensures_pure]
  intro _
  refine ⟨fun hfee => ?_, fun hfee => ?_⟩
  · have hm : ({ b.miner with
        lifetimeDeployed := b.miner.lifetimeDeployed + b.totalAmount
        checkpointFee := checkpointFee } : Miner).due = b.miner.due + checkpointFee := by
      simp only [Miner.due, hfee]
      omega
    obtain ⟨hcovers, hdue⟩ := hsave { b.miner with
      lifetimeDeployed := b.miner.lifetimeDeployed + b.totalAmount
      checkpointFee := checkpointFee } hkey
    rw [hm] at hcovers
    refine Ensures.mono (State.collect_spec _ _ _ _) ?_
    rintro _ ⟨l, rfl, hl, -⟩
    have hpaid := hcovers.received (signer_keepsNoLedger hsigner) hl
    have hbacked := State.Covers.backed hpaid fun k => by
      simp only [gain, Pi.add_apply]
      split_ifs <;> omega
    simp only [hfee, if_true]
    exact ⟨fun _ _ _ _ => ⟨hbacked, hdue⟩, fun _ => ⟨hbacked, hdue⟩⟩
  · obtain ⟨hcovers, hdue⟩ := hsave { b.miner with
      lifetimeDeployed := b.miner.lifetimeDeployed + b.totalAmount } hkey
    have hbacked := State.Covers.backed hcovers fun k => by
      simp only [gain, Miner.due]
      split_ifs <;> omega
    simp only [hfee, if_false]
    exact ⟨fun _ _ _ _ => ⟨hbacked, hdue⟩, fun _ => ⟨hbacked, hdue⟩⟩

/-- An automation pays out of its balance, and what a closed one held is no longer due. -/
theorem payBet_backed (hs : s.Backed) {a : DeployAccounts} {automation : Option AutomationV2}
    (hautomation : ∀ x, automation = some x → x.pda = a.automationV2Info.key ∧
      s.due a.automationV2Info.key = x.due)
    (hsigner : a.signerInfo.isSigner = true) (total : ℕ) :
    Ensures (payBet a total automation s) State.Backed := by
  have hpayer := signer_keepsNoLedger hsigner
  unfold payBet
  split
  · next x =>
    obtain ⟨hkey, hdue⟩ := hautomation x rfl
    simp only [ensures_bind, ensures_addU64, ensures_subU64, ensures_ite, ensures_pure]
    intro _ hbalance
    have hput := hs.covers.putAutomation (a := { x with balance := x.balance - (total + x.fee) })
      hkey hdue
    refine Ensures.mono (State.send_spec _ _ _ _) ?_
    rintro _ ⟨l₁, rfl, hl₁⟩
    refine Ensures.mono (State.send_spec _ _ _ _) ?_
    rintro _ ⟨l₂, rfl, hl₂⟩ _
    have hpaid := (hput.moved hl₁).moved hl₂
    have hsurplus : ∀ k, 0 ≤ ((0 : Pubkey → ℤ) - gain a.automationV2Info.key
        ((AutomationV2.due { x with balance := x.balance - (total + x.fee) } : ℤ) - x.due) -
        gain a.automationV2Info.key total + gain a.roundInfo.key total -
        gain a.automationV2Info.key x.fee + gain a.signerInfo.key x.fee) k := by
      intro k
      simp only [gain, Pi.sub_apply, Pi.add_apply, Pi.zero_apply, AutomationV2.due]
      split_ifs <;> omega
    refine ⟨fun _ => ?_, fun _ => hpaid.backed hsurplus⟩
    refine (closeAutomation_covers hpaid _ a.authorityInfo.key).backed fun k => ?_
    rw [Function.update_apply]
    split
    · exact le_refl _
    · exact hsurplus k
  · refine Ensures.mono (State.collect_spec _ _ _ _) ?_
    rintro _ ⟨l, rfl, hl, -⟩
    refine (hs.covers.received hpayer hl).backed fun k => ?_
    simp only [gain, Pi.add_apply, Pi.zero_apply]
    split_ifs <;> omega

/-- The automation in hand is the stored one, as far as its ledger goes. -/
def Stored (s : State) (k : Pubkey) (automation : Option AutomationV2) : Prop :=
  ∀ x, automation = some x → x.pda = k ∧ s.due k = x.due

theorem closeAutomation_backed (hs : s.Backed) (a : AutomationV2) (authority : Pubkey) :
    (closeAutomation a authority s).Backed := by
  refine (closeAutomation_covers hs.covers a authority).backed fun k => ?_
  rw [Function.update_apply]
  split <;> simp

theorem placeBet_backed {a : DeployAccounts} {automation : Option AutomationV2} {miner : Miner}
    (hs : s.Covers (gain a.minerInfo.key (miner.due - s.due a.minerInfo.key)))
    (hkey : miner.pda = a.minerInfo.key) (hstored : Stored s a.automationV2Info.key automation)
    (hne : a.automationV2Info.key ≠ a.minerInfo.key) (hsigner : a.signerInfo.isSigner = true)
    (args : DeployArgs) (squares : Square → Bool) (round : Round) (poolRound : PoolRound) :
    Ensures (placeBet args a automation squares round poolRound miner s) State.Backed := by
  have hskip : (saveBet ⟨s, round, poolRound, miner, s.poolMembers.get a.poolMemberInfo.key,
      0⟩).Backed := by
    refine (saveBet_covers hs hkey).backed fun k => ?_
    simp only [gain, Pi.sub_apply]
    split_ifs <;> omega
  have hbet : ∀ (c : DeployContext) (start : Bet), c.signerInfo = a.signerInfo → start.state = s →
      start.miner = miner → Ensures (deployLoop c squares squareList start) fun b =>
        Ensures (finishBet c a.minerInfo b) fun s' =>
          Ensures (payBet a b.totalAmount automation s') State.Backed := by
    rintro c start hc rfl rfl
    have hstart : BetSound start start := ⟨Sound.refl _, rfl, rfl⟩
    refine Ensures.mono (deployLoop_sound squares squareList hstart) fun b hb => ?_
    have hcovers : b.state.Covers
        (gain a.minerInfo.key (b.miner.due - b.state.due a.minerInfo.key)) := by
      rw [hb.due, hb.state.1]
      exact hs.sound hb.state
    refine Ensures.mono (finishBet_backed (hb.pda.trans hkey) (by rw [hc, hsigner]) hcovers) ?_
    rintro s' ⟨hs', hrest⟩
    refine payBet_backed hs' (fun x hx => ?_) hsigner b.totalAmount
    obtain ⟨hx, hdue⟩ := hstored x hx
    refine ⟨hx, ?_⟩
    rw [hrest _ hne, hb.state.1, hdue]
  cases automation
  all_goals
    simp only [placeBet, ensures_bind, ensures_ite, ensures_pure]
  · exact ⟨fun _ => hbet _ _ rfl rfl rfl, fun _ => hskip⟩
  · refine ensures_of_forall fun affordable => ⟨fun _ => hbet _ _ rfl rfl rfl, fun _ => ?_⟩
    exact closeAutomation_backed hskip _ _

theorem openRound_sound {s₀ s : State} (hs : Sound s₀ s) (clock : Clock) (env : Env)
    (a : DeployAccounts) (entropyAccounts : List AccountInfo) (cpi : Cpi) (round : Round) :
    Holds (Sound s₀) (openRound clock env a entropyAccounts cpi round s) := by
  refine holds_ite (holds_any fun _ => holds_any fun _ => ?_) (holds_pure hs)
  split
  · refine holds_any fun _ => holds_any fun _ => holds_any fun _ => holds_any fun _ => ?_
    exact holds_any fun _ => holds_pure hs
  · exact holds_throw

/-- The automation that is loaded is the stored one. -/
theorem loadAutomation_stored (a : DeployAccounts) (s : State) :
    Ensures (loadAutomation a s) (Stored s a.automationV2Info.key) := by
  simp only [loadAutomation, ensures_ite, ensures_bind, ensures_require, ensures_fromOption,
    ensures_pure, Stored]
  refine ⟨fun _ _ x hx => ?_, fun _ y hy _ _ x hx => ?_⟩
  · cases hx
  · obtain rfl := Option.some.inj hx
    exact ⟨s.automations.key_of_get _ _ hy, due_automation hy⟩

theorem resetMiner_due (round : Round) (m : Miner) :
    Ensures (resetMiner round m) fun m' => m'.pda = m.pda ∧ m'.due = m.due := by
  simp only [resetMiner, ensures_ite, ensures_bind, ensures_require, ensures_pure]
  exact ⟨fun _ _ => ⟨rfl, rfl⟩, fun _ _ => ⟨trivial, trivial⟩⟩

theorem openGold_sound {s₀ s : State} (hs : Sound s₀ s)
    (gold : Option (AccountInfo × AccountInfo)) (a : DeployAccounts) :
    Holds (Sound s₀) (openGold gold a s) := by
  unfold openGold
  split
  · exact holds_pure hs
  · exact holds_bind (loadOrCreateMinerExtended_sound hs _ _ _ _) fun p hp => holds_pure hp

/-- **A deployment moves what it books.** -/
theorem deployBody_backed (hs : s.Backed) (clock : Clock) (env : Env) (args : DeployArgs)
    (a : DeployAccounts) (gold : Option (AccountInfo × AccountInfo))
    (entropyAccounts : List AccountInfo) (cpi : Cpi) :
    Ensures (deployBody clock env args a gold entropyAccounts cpi s) State.Backed := by
  have hplace : ∀ round poolRound, a.signerInfo.isSigner = true →
      a.minerInfo.key = .minerPda a.authorityInfo.key →
      a.automationV2Info.key = .automationV2Pda a.authorityInfo.key → Ensures (do
        let p ← openRound clock env a entropyAccounts cpi round s
        let automation ← loadAutomation a p.2
        let squares ← deploySquares env args p.1 automation
        let q ← openMiner .invalidAccountData a.minerInfo a.authorityInfo.key a.signerInfo p.2
        let s ← openGold gold a q.2
        let miner ← resetMiner p.1 q.1
        placeBet args a automation squares p.1 poolRound miner s) State.Backed := by
    intro round poolRound hsigner hminer hautomation
    simp only [ensures_bind]
    have hne : a.automationV2Info.key ≠ a.minerInfo.key := by
      rw [hautomation, hminer]
      simp
    refine Ensures.mono (openRound_sound (Sound.refl s) clock env a entropyAccounts cpi round) ?_
    rintro ⟨round', s₁⟩ (hs₁ : Sound s s₁)
    refine Ensures.mono (loadAutomation_stored a s₁) fun automation hstored => ?_
    refine ensures_of_forall fun squares => ?_
    refine Ensures.mono (openMiner_covers (hs₁.backed hs) _ hminer hsigner) ?_
    rintro ⟨m, _⟩ ⟨hkey, l, rfl, hl⟩
    refine Ensures.mono (openGold_sound (Sound.refl _) gold a) ?_
    intro s₂ (hs₂ : Sound { s₁ with lamports := l } s₂)
    refine Ensures.mono (resetMiner_due round' m) fun m' hm' => ?_
    have hcovers : s₂.Covers (gain a.minerInfo.key (m'.due - s₂.due a.minerInfo.key)) := by
      rw [hm'.2, hs₂.1]
      exact hl.sound hs₂
    refine placeBet_backed hcovers (hm'.1.trans hkey) (fun x hx => ?_) hne hsigner _ _ _ _
    rw [hs₂.1]
    exact hstored x hx
  refine ensures_bind.2 (Ensures.mono (checkDeployAccounts_spec clock a s) ?_)
  rintro ⟨round, pool⟩ hchecked
  have hrest := hplace round pool hchecked.signer hchecked.miner hchecked.automation
  cases gold with
  | some gold => exact ensures_bind.2 (ensures_of_forall fun _ => hrest)
  | none => exact hrest

end Deploy

/-! ## Resets -/

section Reset

/-- The treasury books what is vaulted. -/
theorem State.verdict_balance (s : State) (round : Round) (topMiner : Pubkey) :
    (s.verdict round topMiner).treasury.balance =
      s.treasury.balance + (s.verdict round topMiner).vaulted := by
  unfold State.verdict
  split
  · rfl
  · split
    · rfl
    · simp only [State.winnersVerdict, payMotherlode]
      split <;> rfl

/-- The SOL motherlode books its fee. -/
theorem State.verdict_motherlode (s : State) (round : Round) (topMiner : Pubkey) :
    (s.verdict round topMiner).solMotherlode.amount =
      s.solMotherlode.amount + (s.verdict round topMiner).motherlodeFee := by
  unfold State.verdict
  split
  · rfl
  · split <;> rfl

variable {clock : Clock} {variant : ResetVariant} {a : ResetAccounts} {s' : State} {round : Round}
  {value : Hash} {topMiner : Pubkey}

/-- A reset books what it sends to the treasury and to the SOL motherlode. -/
theorem Reset.due (h : Reset clock variant a s s' round value topMiner) (k : Pubkey) :
    s'.due k ≤
      s.due k + (s.verdict { round with slotHash := value } topMiner).gain variant a k := by
  have hbalance := s.verdict_balance { round with slotHash := value } topMiner
  have hmotherlode := s.verdict_motherlode { round with slotHash := value } topMiner
  obtain ⟨l, hafter⟩ := h.after
  simp only [Verdict.gain, h.motherlodeKey, h.treasuryKey]
  cases k with
  | treasuryPda =>
    simp only [State.due, h.opened, h.treasury, hbalance, if_true]
    split <;> omega
  | solMotherlodePda =>
    simp only [State.due, h.opened, h.solMotherlode, hmotherlode, if_true]
    split <;> omega
  | _ =>
    rw [hafter]
    exact Nat.le_add_right _ _

theorem Reset.backed (h : Reset clock variant a s s' round value topMiner) (hs : s.Backed) :
    s'.Backed := by
  intro k
  by_cases hk : KeepsLedger k
  · have hround : k ≠ .roundPda s.board.roundId := by
      rintro rfl
      exact hk
    have hsigner : k ≠ a.signerInfo.key := by
      rintro rfl
      exact signer_keepsNoLedger h.signer hk
    have hbalance := h.balance k
    have hdue := h.due k
    have hbefore := hs k
    rw [if_neg hround, if_neg hsigner] at hbalance
    omega
  · rw [State.due_of_not_keepsLedger hk]
    exact Nat.zero_le _

theorem resetBody_backed (hs : s.Backed) (clock : Clock) (env : Env) (variant : ResetVariant)
    (a : ResetAccounts) : Ensures (resetBody clock env variant a s) State.Backed := by
  refine Ensures.mono (resetBody_spec clock env variant a s) ?_
  rintro s' ⟨round, value, topMiner, hreset⟩
  exact hreset.backed hs

end Reset

/-! ## The entry point -/

/-- **Every instruction keeps every ledger backed.** -/
theorem processInstruction_backed (hs : s.Backed) (env : Env) (clock : Clock)
    (ix : GodlInstruction) (accounts : List AccountInfo) (cpi : Cpi) :
    Ensures (processInstruction env clock ix accounts cpi s) State.Backed := by
  by_cases hix : ix.MovesLedger
  · cases ix <;> simp only [GodlInstruction.MovesLedger] at hix
    all_goals simp only [processInstruction, processResetList, processReset,
      processResetPermissionless, wrongLength, processCheckpoint,
      processCheckpointWithMinerExtended, processDeploy, processDeployWithMinerExtended]
    all_goals split
    all_goals with_reducible first
      | exact ensures_error.2 trivial
      | exact processInitialize_backed hs ..
      | exact processAutomate_backed hs ..
      | exact checkpointBody_backed hs ..
      | exact ensures_bind.2 (ensures_of_forall fun _ => checkpointBody_backed hs ..)
      | exact processClaimSol_backed hs ..
      | exact processClaimSolAndFundAutomation_backed hs ..
      | exact processFundAutomation_backed hs ..
      | exact processInitializeReferrer_backed hs ..
      | exact processClaimReferral_backed hs ..
      | exact deployBody_backed hs ..
      | exact ensures_bind.2 (ensures_of_forall fun _ => deployBody_backed hs ..)
      | exact processClose_backed hs ..
      | exact resetBody_backed hs ..
      | exact processClosePhantomStakeV2_backed hs ..
      | exact processPreBury_backed hs ..
      | exact processWithdrawVault_backed hs ..
      | exact processInitializeSolMotherlode_backed hs ..
      | exact processPreBuyGold_backed hs ..
      | exact processInitializeOtcTreasury_backed hs ..
      | exact processExecuteOtcTrade_backed hs ..
      | exact processWithdrawSolOtc_backed hs ..
  · refine Ensures.mono (processInstruction_sound env clock hix accounts cpi s) ?_
    intro s' (hsound : Sound s s')
    exact hsound.backed hs

end Godl
