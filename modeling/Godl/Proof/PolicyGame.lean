import Godl.Proof.PolicyHandlers
import Godl.Proof.DeployHandler
import Godl.Proof.ResetHandler

/-!
# The game and the administration follow the policy

A bet is placed for a user who signed or whose executor did.  Anyone may checkpoint a miner, who
loses nothing by it, and anyone may reset and close rounds.

## Main definitions

* `Plays` — the user signed, or its executor.
* `BetPlays` — what the loop of a deploy keeps.
-/

namespace Godl

open Lib

variable {signs : Pubkey → Prop} {R : Right → Prop}

/-! ## The game goes on -/

section Game

variable {s₀ s : State}

theorem acts_game (mayRounds : R .rounds) (hs : Acts signs R s₀ s)
    (r : Store Pubkey Round Round.pda) (p : Store Pubkey PoolRound PoolRound.pda) (b : Board)
    (v : Pubkey → Option Var) :
    Acts signs R s₀ { s with rounds := r, poolRounds := p, board := b, vars := v } :=
  hs.tail (.game mayRounds r p b v)

theorem acts_rounds (mayRounds : R .rounds) (hs : Acts signs R s₀ s)
    (r : Store Pubkey Round Round.pda) : Acts signs R s₀ { s with rounds := r } :=
  acts_game mayRounds hs r s.poolRounds s.board s.vars

theorem acts_poolRounds (mayRounds : R .rounds) (hs : Acts signs R s₀ s)
    (p : Store Pubkey PoolRound PoolRound.pda) : Acts signs R s₀ { s with poolRounds := p } :=
  acts_game mayRounds hs s.rounds p s.board s.vars

theorem acts_log (hs : Acts signs R s₀ s) (e : Event) : Acts signs R s₀ (s.programLog e) :=
  hs.tail (.log e)

end Game

/-! ## Checkpoints -/

section Checkpoint

variable {s : State}

theorem isKeypair_round {k : Pubkey} {r : Round} (h : s.rounds.get k = some r) :
    k.isKeypair = false := by
  rw [← s.rounds.key_of_get k r h]
  rfl

/-- A stored miner is written back with no less than it had. -/
theorem minerGrows {k : Pubkey} {m m' : Miner} (hm : s.miners.get k = some m)
    (hauth : m'.authority = m.authority) (hsol : m.rewardsSol ≤ m'.rewardsSol)
    (hgodl : m.rewardsGodl + m.refinedGodl ≤ m'.rewardsGodl + m'.refinedGodl) :
    MinerGrows s m' := by
  have hpda : m'.pda = m.pda := by rw [Miner.pda, Miner.pda, hauth]
  rw [MinerGrows, hpda, Store.view_key hm, Store.view_key hm]
  exact ⟨hsol, hgodl⟩

theorem settleGold_gold (mayMiners : R .miners) {signerInfo : AccountInfo}
    (hsign : signerInfo.isSigner = true → signs signerInfo.key)
    (gold : Option (AccountInfo × AccountInfo)) (m : Miner) (rewardsGodl : ℕ) :
    Ensures (settleGold gold signerInfo m rewardsGodl s) (GoldMoved signs R s) := by
  unfold settleGold
  split
  · exact ensures_pure.2 (.refl s)
  · simp only [ensures_bind, ensures_require]
    refine Ensures.mono (loadOrCreateMinerExtended_gold (R := R) mayMiners hsign _ _ _)
      fun p hp _ => ?_
    exact syncGoldRewards_gold mayMiners hp.1 hp.2 m

theorem payCheckpoint_acts {s₀ : State} (hs : Acts signs R s₀ s) {a : CheckpointAccounts}
    (hround : a.roundInfo.key.isKeypair = false) (hminer : a.minerInfo.key.isKeypair = false)
    (m : Miner) (rewardsSol fee : ℕ) :
    Holds (Acts signs R s₀) (payCheckpoint a m rewardsSol fee s) := by
  rw [Holds, payCheckpoint]
  refine ensures_optional (P := Acts signs R s₀) ?_ (fun _ => hs) fun s₁ hs₁ => ?_
  · exact fun _ => acts_funds hs (send_funds _ _ hround)
  refine ensures_optional (P := Acts signs R s₀) ?_ (fun _ => hs₁) fun s₂ hs₂ => ?_
  · exact fun _ => acts_funds hs₁ (send_funds _ _ hminer)
  simp only [ensures_bind, ensures_require, ensures_pure]
  exact fun _ => hs₂

theorem creditRound_acts (mayRounds : R .rounds) (mayMiners : R .miners) (clock : Clock)
    {a : CheckpointAccounts} (hsign : a.signerInfo.isSigner = true → signs a.signerInfo.key)
    (gold : Option (AccountInfo × AccountInfo)) {round : Round} {miner : Miner}
    (hround : s.rounds.get a.roundInfo.key = some round)
    (hminer : s.miners.get a.minerInfo.key = some miner) (poolMember : Option PoolMember) :
    Holds (Acts signs R s) (creditRound clock a gold round miner poolMember s) := by
  have hfee : Ensures (botFee clock round miner) fun p => p.2.authority = miner.authority ∧
      p.2.rewardsSol = miner.rewardsSol ∧ p.2.rewardsGodl = miner.rewardsGodl ∧
      p.2.refinedGodl = miner.refinedGodl := by
    simp only [botFee, ensures_bind, ensures_subU64, ensures_ite, ensures_pure]
    exact fun _ => ⟨fun _ => ⟨trivial, trivial, trivial, trivial⟩,
      fun _ => ⟨trivial, trivial, trivial, trivial⟩⟩
  simp only [creditRound, creditMiner, Holds, ensures_bind, ensures_addU64, ensures_pure]
  refine Ensures.mono hfee fun p hp => ?_
  refine ensures_of_forall fun r => ?_
  refine Ensures.mono (p.2.updateRewards_spec _) fun m hm => ?_
  refine Ensures.mono (settleGold_gold (R := R) mayMiners hsign gold m r.2.1)
    fun s₁ hs₁ _ _ _ _ _ => ?_
  refine payCheckpoint_acts ?_ (isKeypair_round hround) (isKeypair_miner hminer) _ _ _
  have hminer₁ : s₁.miners.get a.minerInfo.key = some miner := by rw [hs₁.miners, hminer]
  have hrewards := hm.rewardsGodl
  have hrefined := hm.refinedGodl
  have hrounds := acts_rounds mayRounds hs₁.acts
  refine acts_treasury ((hrounds _).tail (.miner mayMiners _ (.inr (.inr ?_)))) _
  refine minerGrows (k := a.minerInfo.key) (m := miner) hminer₁ ?_ ?_ ?_
  · exact hm.authority.trans hp.1
  · dsimp only
    rw [hm.rewardsSol, hp.2.1]
    exact Nat.le_add_right _ _
  · dsimp only
    omega

theorem forfeit_acts (mayMiners : R .miners) {k : Pubkey} {m : Miner}
    (hm : s.miners.get k = some m) :
    Acts signs R s (forfeit m s) :=
  .single (.miner mayMiners _ (.inr (.inr (minerGrows hm rfl (le_refl _) (le_refl _)))))

theorem checkpointBody_acts (mayRounds : R .rounds) (mayMiners : R .miners) (clock : Clock)
    (a : CheckpointAccounts) (gold : Option (AccountInfo × AccountInfo)) (s : State)
    (hsign : a.signerInfo.isSigner = true → signs a.signerInfo.key) :
    Holds (Acts signs R s) (checkpointBody clock a gold s) := by
  rw [Holds, checkpointBody]
  simp only [ensures_bind, ensures_require, ensures_fromOption]
  intro _ _ m hm _ _
  have hbody : Holds (Acts signs R s) (checkpointMiner clock a gold m s) := by
    unfold checkpointMiner
    refine holds_ite (holds_pure .refl) (holds_ite ?_ ?_)
    · exact holds_any fun _ => holds_pure (forfeit_acts mayMiners hm)
    · rw [Holds, ensures_bind, State.load, ensures_fromOption]
      intro round hround
      refine holds_ite (holds_pure .refl) (holds_any fun poolMember => ?_)
      refine holds_ite (holds_pure (forfeit_acts mayMiners hm)) ?_
      exact creditRound_acts mayRounds mayMiners clock hsign gold hround hm poolMember
  split
  · exact holds_any fun _ => holds_any fun _ => hbody
  · exact holds_skip hbody

end Checkpoint

/-! ## Bets -/

section Deploy

/-- The user signed, or its executor. -/
def Plays (signs : Pubkey → Prop) (s : State) (user : Pubkey) : Prop :=
  signs user ∨ Executes signs s user

/-- What the loop of a deploy keeps: it moves funds only, and writes the accounts of the user. -/
structure BetPlays (signs : Pubkey → Prop) (R : Right → Prop) (s : State) (user : Pubkey)
    (b : Bet) : Prop where
  funds : FundsMoved signs R s b.state
  miner : b.miner.authority = user
  grows : MinerGrows s b.miner
  poolMember : ∀ p, b.poolMember = some p → p.authority = user

variable {s : State} {user : Pubkey} {c : DeployContext} {b : Bet}

theorem Plays.of_automations {s' : State} (h : Plays signs s user)
    (heq : s'.automations = s.automations) : Plays signs s' user := by
  rw [Plays, Executes, heq]
  exact h

/-- The miners have the same owner and the same rewards. -/
structure SameRewards (m m' : Miner) : Prop where
  authority : m'.authority = m.authority
  rewardsSol : m'.rewardsSol = m.rewardsSol
  rewardsGodl : m'.rewardsGodl = m.rewardsGodl
  refinedGodl : m'.refinedGodl = m.refinedGodl

theorem SameRewards.grows {m m' : Miner} (h : SameRewards m m') (hm : MinerGrows s m) :
    MinerGrows s m' := by
  rw [MinerGrows, Miner.pda, h.authority, h.rewardsSol, h.rewardsGodl, h.refinedGodl]
  exact hm

theorem BetPlays.write (h : BetPlays signs R s user b) (round : Round) {m : Miner}
    (hm : SameRewards b.miner m) :
    BetPlays signs R s user { b with round := round, miner := m } :=
  ⟨h.funds, hm.authority.trans h.miner, hm.grows h.grows, h.poolMember⟩

/-- Nothing that moves funds changes who plays. -/
theorem FundsMoved.plays {s' : State} (h : FundsMoved signs R s s') (hplays : Plays signs s user) :
    Plays signs s' user := by
  obtain ⟨_, _, _, rfl, -⟩ := h
  exact hplays

theorem deployPooled_plays (hsign : c.signerInfo.isSigner = true → signs c.signerInfo.key)
    (h : BetPlays signs R s c.authority b) (sq : Square) :
    Ensures (deployPooled c b sq) (BetPlays signs R s c.authority) := by
  have hopen : Ensures (openPoolMember c b) fun p =>
      FundsMoved signs R s p.2 ∧ p.1.authority = c.authority := by
    unfold openPoolMember
    split
    · simp only [ensures_bind, ensures_pure]
      exact Ensures.mono (h.funds.after (createAccount_funds hsign _ _)) fun s₁ hs₁ =>
        ⟨hs₁, trivial⟩
    · simp only [ensures_bind, ensures_require, ensures_pure]
      exact fun hauth => ⟨h.funds, hauth⟩
  simp only [deployPooled, ensures_bind, ensures_pure]
  refine Ensures.mono hopen fun p hp => ⟨hp.1, h.miner, h.grows, ?_⟩
  intro q hq
  cases hq
  split
  · exact hp.2
  · exact hp.2

theorem deploySquare_plays (hsign : c.signerInfo.isSigner = true → signs c.signerInfo.key)
    (h : BetPlays signs R s c.authority b) (sq : Square) :
    Ensures (deploySquare c b sq) (BetPlays signs R s c.authority) := by
  simp only [deploySquare, ensures_bind, ensures_addU64]
  intro _ _ _
  split
  · refine Ensures.bind (deployPooled_plays hsign (h.write _ (by constructor <;> rfl)) sq)
      fun b' hb' => ?_
    simp only [ensures_bind, ensures_addU64, ensures_pure]
    exact fun _ => ⟨hb'.funds, hb'.miner, hb'.grows, hb'.poolMember⟩
  · simp only [ensures_bind, ensures_addU64, ensures_pure]
    exact fun _ => ⟨h.funds, h.miner, h.grows, h.poolMember⟩

theorem deployLoop_plays (hsign : c.signerInfo.isSigner = true → signs c.signerInfo.key)
    (squares : Square → Bool) (l : List Square) (h : BetPlays signs R s c.authority b) :
    Ensures (deployLoop c squares l b) (BetPlays signs R s c.authority) := by
  induction l generalizing b with
  | nil => exact ensures_ok.2 h
  | cons sq rest ih =>
    rw [deployLoop]
    split
    · exact ih h
    · split
      · exact ih h
      · refine Ensures.bind (deploySquare_plays hsign h sq) fun b' hb' => ?_
        refine Ensures.bind (ensures_of_forall fun _ => trivial) fun exhausted _ => ?_
        split
        · exact ensures_pure.2 hb'
        · exact ih hb'

/-- The accounts that the loop worked on are written back. -/
theorem saveBet_acts (mayRounds : R .rounds) (mayMiners : R .miners) (h : BetPlays signs R s user b)
    (hplays : Plays signs s user) :
    Acts signs R s (saveBet b) := by
  have hplays' : Plays signs b.state user := h.funds.plays hplays
  have hgrows : MinerGrows b.state b.miner := by
    obtain ⟨_, _, _, heq, -⟩ := h.funds
    rw [heq]
    exact h.grows
  have hgame : Acts signs R s { b.state with
      rounds := b.state.rounds.put b.round
      poolRounds := b.state.poolRounds.put b.poolRound
      miners := b.state.miners.put b.miner } :=
    (acts_game mayRounds h.funds.acts (b.state.rounds.put b.round)
      (b.state.poolRounds.put b.poolRound) b.state.board b.state.vars).tail
      (.miner mayMiners b.miner (.inr (.inr hgrows)))
  rw [saveBet]
  split
  · exact hgame
  case h_2 p hp =>
    refine hgame.tail (.poolMember mayMiners p ?_)
    rw [h.poolMember p hp]
    exact hplays'

theorem saveBet_automations (h : BetPlays signs R s user b) :
    (saveBet b).automations = s.automations := by
  obtain ⟨_, _, _, hs, -⟩ := h.funds
  rw [saveBet, hs]

theorem closeAutomation_acts (mayAutomations : R .automations) {s₀ : State} (hs : Acts signs R s₀ s)
    {automation : AutomationV2} (hplays : Plays signs s automation.authority) (dest : Pubkey) :
    Acts signs R s₀ (closeAutomation automation dest s) := by
  have hreleased : Acts signs R s₀ (s.releaseLamports automation.pda dest) :=
    hs.trans (releaseLamports_funds dest (.inl rfl)).acts
  exact hreleased.tail (.closeAutomation mayAutomations (hplays.of_automations rfl))

theorem finishBet_acts (mayRounds : R .rounds) (mayMiners : R .miners) {s₀ : State}
    (hs : Acts signs R s₀ s) (hsign : c.signerInfo.isSigner = true → signs c.signerInfo.key)
    (h : BetPlays signs R s c.authority b) (hplays : Plays signs s c.authority)
    (minerInfo : AccountInfo) :
    Ensures (finishBet c minerInfo b) fun s' =>
      Acts signs R s₀ s' ∧ s'.automations = s.automations := by
  have hsave : ∀ m : Miner, SameRewards b.miner m →
      Acts signs R s₀ (saveBet { b with miner := m }) ∧
        (saveBet { b with miner := m }).automations = s.automations := by
    intro m hm
    have hm' : BetPlays signs R s c.authority { b with miner := m } := h.write b.round hm
    exact ⟨hs.trans (saveBet_acts mayRounds mayMiners hm' hplays), saveBet_automations hm'⟩
  simp only [finishBet, ensures_bind, ensures_addU64, ensures_ite, ensures_pure,
    ensures_fromOption, ensures_require]
  intro _
  refine ⟨fun hfee => ?_, fun hfee => ?_⟩
  · simp only [hfee, if_true]
    obtain ⟨hacts, hsame⟩ := hsave { b.miner with
      lifetimeDeployed := b.miner.lifetimeDeployed + b.totalAmount
      checkpointFee := checkpointFee } ⟨rfl, rfl, rfl, rfl⟩
    refine Ensures.mono (collect_funds (R := R) hsign _ _) fun s' hs' => ?_
    obtain ⟨_, _, _, rfl, hmoved⟩ := hs'
    exact ⟨fun _ _ _ _ => ⟨hacts.trans hmoved, hsame⟩,
      fun _ => ⟨hacts.trans hmoved, hsame⟩⟩
  · simp only [hfee, if_false]
    have hdone := hsave { b.miner with
      lifetimeDeployed := b.miner.lifetimeDeployed + b.totalAmount } ⟨rfl, rfl, rfl, rfl⟩
    exact ⟨fun _ _ _ _ => hdone, fun _ => hdone⟩

/-- The automation in hand is stored, and its executor signed. -/
structure ExecutorSigned (signs : Pubkey → Prop) (s : State) (user : Pubkey)
    (y : AutomationV2) : Prop where
  authority : y.authority = user
  executor : signs y.executor
  stored : s.automations.get (.automationV2Pda user) = some y

theorem ExecutorSigned.plays {y : AutomationV2} (h : ExecutorSigned signs s user y) :
    Plays signs s user := .inr ⟨y, h.stored, h.executor⟩

theorem payBet_acts (mayAutomations : R .automations) {s₀ : State} (hs : Acts signs R s₀ s)
    {a : DeployAccounts} (hsign : a.signerInfo.isSigner = true → signs a.signerInfo.key)
    (hkey : a.automationV2Info.key = .automationV2Pda user) (total : ℕ)
    {automation : Option AutomationV2}
    (hautomation : ∀ y, automation = some y → ExecutorSigned signs s user y) :
    Holds (Acts signs R s₀) (payBet a total automation s) := by
  unfold payBet
  split
  case h_2 => exact acts_funds hs (collect_funds hsign _ _)
  case h_1 y =>
    obtain ⟨hauth, hexecutor, hstored⟩ := hautomation y rfl
    have hderived : a.automationV2Info.key.isKeypair = false := by
      rw [hkey]
      rfl
    simp only [Holds, ensures_bind, ensures_addU64, ensures_subU64]
    intro _ _
    set paid : AutomationV2 := { y with balance := y.balance - (total + y.fee) }
    have hput : Acts signs R s₀ { s with automations := s.automations.put paid } := by
      refine hs.tail (.automation mayAutomations paid (.inr ⟨y, _, ?_, .inr hexecutor, rfl⟩))
      rw [← hstored, ← hauth]
      rfl
    have hplays : Plays signs { s with automations := s.automations.put paid }
        paid.authority := .inr ⟨paid, Store.get_put_self s.automations paid, hexecutor⟩
    generalize ({ s with automations := s.automations.put paid } : State) = s₁ at hput hplays ⊢
    have hstart : FundsMoved signs R s₁ s₁ := .refl s₁
    refine Ensures.mono (hstart.after (send_funds _ _ hderived)) fun s₂ hs₂ => ?_
    refine Ensures.mono (hs₂.after (send_funds _ _ hderived)) fun s₃ hs₃ _ => ?_
    have hpaid : Acts signs R s₀ s₃ := hput.trans hs₃.acts
    refine holds_ite (holds_pure ?_) (holds_pure hpaid)
    exact closeAutomation_acts mayAutomations hpaid (hs₃.plays hplays) _

/-- What the checks of a deploy say about the accounts that it moves lamports between. -/
theorem loadAutomation_signed (a : DeployAccounts) (s : State)
    (hsign : a.signerInfo.isSigner = true → signs a.signerInfo.key)
    (hsigner : a.signerInfo.isSigner = true)
    (hkey : a.automationV2Info.key = .automationV2Pda a.authorityInfo.key) :
    Ensures (loadAutomation a s) fun o => Plays signs s a.authorityInfo.key ∧
      ∀ y, o = some y → ExecutorSigned signs s a.authorityInfo.key y := by
  unfold loadAutomation
  split
  · simp only [ensures_bind, ensures_require, ensures_pure]
    intro hself
    exact ⟨.inl (hself ▸ hsign hsigner), by simp⟩
  · simp only [ensures_bind, ensures_require, ensures_fromOption, ensures_pure]
    intro y hy hexecutor hauth
    rw [hkey] at hy
    have hsigned : ExecutorSigned signs s a.authorityInfo.key y :=
      ⟨hauth, hexecutor ▸ hsign hsigner, hy⟩
    refine ⟨hsigned.plays, ?_⟩
    intro z hz
    cases hz
    exact hsigned

theorem placeBet_acts (mayRounds : R .rounds) (mayMiners : R .miners)
    (mayAutomations : R .automations) {s₀ : State} (hs : Acts signs R s₀ s) (args : DeployArgs)
    {a : DeployAccounts} (hsign : a.signerInfo.isSigner = true → signs a.signerInfo.key)
    (hkey : a.automationV2Info.key = .automationV2Pda a.authorityInfo.key)
    (hmember : a.poolMemberInfo.key = .poolMemberPda a.authorityInfo.key)
    {automation : Option AutomationV2} (hplays : Plays signs s a.authorityInfo.key)
    (hautomation : ∀ y, automation = some y → ExecutorSigned signs s a.authorityInfo.key y)
    (squares : Square → Bool) (round : Round) (poolRound : PoolRound) {miner : Miner}
    (hminer : miner.authority = a.authorityInfo.key) (hgrows : MinerGrows s miner) :
    Holds (Acts signs R s₀)
      (placeBet args a automation squares round poolRound miner s) := by
  have hstart : BetPlays signs R s a.authorityInfo.key
      ⟨s, round, poolRound, miner, s.poolMembers.get a.poolMemberInfo.key, 0⟩ := by
    refine ⟨.refl s, hminer, hgrows, fun p hp => ?_⟩
    have hpda : PoolMember.pda p = _ := s.poolMembers.key_of_get _ p hp
    rw [hmember] at hpda
    injection hpda
  have hsaved := hs.trans (saveBet_acts mayRounds mayMiners hstart hplays)
  have hsame := saveBet_automations hstart
  have hbet : ∀ c : DeployContext, c.authority = a.authorityInfo.key →
      c.signerInfo = a.signerInfo → Ensures (deployLoop c squares squareList ⟨s, round, poolRound,
        miner, s.poolMembers.get a.poolMemberInfo.key, 0⟩) fun b =>
        Ensures (finishBet c a.minerInfo b) fun s' =>
          Holds (Acts signs R s₀) (payBet a b.totalAmount automation s') := by
    intro c hauth hsignerInfo
    rw [← hauth] at hstart hplays
    have hsign' : c.signerInfo.isSigner = true → signs c.signerInfo.key := hsignerInfo ▸ hsign
    refine Ensures.mono (deployLoop_plays hsign' squares squareList hstart) fun b hb => ?_
    refine Ensures.mono (finishBet_acts mayRounds mayMiners hs hsign' hb hplays a.minerInfo)
      fun s₁ hs₁ => ?_
    refine payBet_acts mayAutomations hs₁.1 hsign hkey _ fun y hy => ?_
    obtain ⟨hyauth, hexecutor, hstored⟩ := hautomation y hy
    exact ⟨hyauth, hexecutor, by rw [hs₁.2, hstored]⟩
  cases automation with
  | none =>
    simp only [placeBet, Holds, ensures_bind, ensures_ite, ensures_pure]
    exact ⟨fun _ => hbet _ rfl rfl, fun _ => hsaved⟩
  | some y =>
    simp only [placeBet, Holds, ensures_bind, ensures_ite, ensures_pure]
    refine ensures_of_forall fun affordable => ⟨fun _ => hbet _ rfl rfl, fun _ => ?_⟩
    refine closeAutomation_acts mayAutomations hsaved ?_ _
    rw [(hautomation y rfl).authority]
    exact hplays.of_automations hsame

theorem openRound_acts (mayRounds : R .rounds) {s₀ : State} (hs : Acts signs R s₀ s) (clock : Clock)
    (env : Env) (a : DeployAccounts) (entropyAccounts : List AccountInfo) (cpi : Cpi)
    (round : Round) :
    Ensures (openRound clock env a entropyAccounts cpi round s) fun p =>
      Acts signs R s₀ p.2 := by
  refine Ensures.mono (openRound_spec clock env a entropyAccounts cpi round s) fun p hp => ?_
  obtain ⟨-, b, v, heq, -⟩ := hp
  rw [heq]
  exact acts_game mayRounds hs s.rounds s.poolRounds b v

theorem openGold_gold (mayMiners : R .miners) {a : DeployAccounts}
    (hsign : a.signerInfo.isSigner = true → signs a.signerInfo.key)
    (gold : Option (AccountInfo × AccountInfo)) :
    Ensures (openGold gold a s) (GoldMoved signs R s) := by
  unfold openGold
  split
  · exact ensures_pure.2 (.refl s)
  · simp only [ensures_bind, ensures_pure]
    exact Ensures.mono (loadOrCreateMinerExtended_gold (R := R) mayMiners hsign _ _ _)
      fun p hp => hp.1

theorem deployBody_acts (mayRounds : R .rounds) (mayMiners : R .miners)
    (mayAutomations : R .automations) (clock : Clock) (env : Env) (args : DeployArgs)
    (a : DeployAccounts) (gold : Option (AccountInfo × AccountInfo))
    (entropyAccounts : List AccountInfo) (cpi : Cpi) (s : State)
    (hsign : a.signerInfo.isSigner = true → signs a.signerInfo.key) :
    Holds (Acts signs R s) (deployBody clock env args a gold entropyAccounts cpi s) := by
  have hplace : ∀ round poolRound, DeployChecked clock a s round poolRound →
      Holds (Acts signs R s) (do
        let p ← openRound clock env a entropyAccounts cpi round s
        let automation ← loadAutomation a p.2
        let squares ← deploySquares env args p.1 automation
        let q ← openMiner .invalidAccountData a.minerInfo a.authorityInfo.key a.signerInfo p.2
        let s ← openGold gold a q.2
        let miner ← resetMiner p.1 q.1
        placeBet args a automation squares p.1 poolRound miner s) := by
    intro round poolRound hchecked
    simp only [Holds, ensures_bind]
    have hstart : Acts signs R s s := .refl
    refine Ensures.mono (openRound_acts mayRounds hstart clock env a entropyAccounts cpi round) ?_
    intro p hp
    refine Ensures.mono (loadAutomation_signed a p.2 hsign hchecked.signer hchecked.automation) ?_
    intro automation hautomation
    refine ensures_of_forall fun squares => ?_
    refine Ensures.mono
      ((openMiner_funds (R := R) hsign _ _ _).and (openMiner_grows _ hchecked.miner)) ?_
    rintro q ⟨hq, hgrows⟩
    refine Ensures.mono (openGold_gold (R := R) mayMiners hsign gold) fun s₂ hs₂ => ?_
    have hreset : Ensures (resetMiner p.1 q.1) (SameRewards q.1) := by
      simp only [resetMiner, ensures_ite, ensures_bind, ensures_require, ensures_pure]
      exact ⟨fun _ _ => ⟨rfl, rfl, rfl, rfl⟩, fun _ _ => ⟨rfl, rfl, rfl, rfl⟩⟩
    refine Ensures.mono hreset fun miner hminer => ?_
    have hmoved : GoldMoved signs R p.2 s₂ := hq.1.gold.trans hs₂
    obtain ⟨_, _, _, _, _, rfl, hacts⟩ := hmoved
    refine placeBet_acts mayRounds mayMiners mayAutomations (hp.trans hacts) args hsign
      hchecked.automation hchecked.member (hautomation.1.of_automations rfl) (fun y hy => ?_)
      squares p.1 poolRound (hminer.authority.trans hq.2) (hminer.grows hgrows)
    obtain ⟨hauth, hexecutor, hstored⟩ := hautomation.2 y hy
    exact ⟨hauth, hexecutor, hstored⟩
  refine Ensures.bind (checkDeployAccounts_spec clock a s) fun p hp => ?_
  have hrest := hplace p.1 p.2 hp
  cases gold with
  | some gold => exact holds_any fun _ => hrest
  | none => exact hrest

end Deploy

/-! ## Resets -/

section Reset

variable {s₀ s : State}

/-- Lamports leave the round. -/
theorem payAdminFee_acts (hs : Acts signs R s₀ s) (variant : ResetVariant)
    {a : ResetAccounts} (hround : a.roundInfo.key.isKeypair = false) (fee : ℕ) :
    Holds (Acts signs R s₀) (payAdminFee variant a fee s) := by
  cases variant with
  | lenient => exact acts_funds hs (send_funds _ _ hround)
  | permissionless =>
    refine holds_then (acts_funds hs (send_funds _ _ hround)) fun s₁ hs₁ => ?_
    exact acts_funds hs₁ (send_funds _ _ hround)

theorem advanceBoard_acts (mayRounds : R .rounds) (hs : Acts signs R s₀ s) (clock : Clock) :
    Holds (Acts signs R s₀) (advanceBoard clock s) :=
  holds_any fun _ => holds_pure (acts_game mayRounds hs s.rounds s.poolRounds _ s.vars)

theorem mintRound_acts (mayMint : R .mint) (hs : Acts signs R s₀ s) (env : Env) {a : ResetAccounts}
    (htokens : a.treasuryTokensInfo.key = treasuryTokensAddress) (amount : ℕ) :
    Holds (Acts signs R s₀) (mintRound env a amount s) := by
  unfold mintRound
  split
  · split
    · exact holds_any fun _ => holds_any fun _ => acts_funds hs (mintGodl_funds mayMint _ htokens)
    · exact holds_throw
  · exact holds_pure hs

theorem resetRefund_acts (mayRounds : R .rounds) (hs : Acts signs R s₀ s) (clock : Clock)
    (round : Round) :
    Holds (Acts signs R s₀) (resetRefund clock round s) :=
  advanceBoard_acts mayRounds (acts_log (acts_rounds mayRounds hs _) _) clock

theorem resetVault_acts (mayRounds : R .rounds) (hs : Acts signs R s₀ s) (clock : Clock)
    (variant : ResetVariant) {a : ResetAccounts} (hround : a.roundInfo.key.isKeypair = false)
    (round : Round) (ws : Square) (fee share : ℕ) :
    Holds (Acts signs R s₀) (resetVault clock variant a round ws fee share s) := by
  refine holds_any fun _ => holds_any fun vaulted => holds_any fun balance => ?_
  refine holds_any fun motherlode => ?_
  have hrounds := acts_rounds mayRounds hs (s.rounds.put { round with totalVaulted := vaulted })
  have hbooks := acts_books hrounds { s.treasury with balance := balance } ⟨motherlode⟩ s.goldVault
  refine holds_then (advanceBoard_acts mayRounds (acts_log hbooks _) clock) fun s₁ hs₁ => ?_
  refine holds_then (payAdminFee_acts hs₁ variant hround fee) fun s₂ hs₂ => ?_
  refine holds_then (acts_funds hs₂ (send_funds _ _ hround)) fun s₃ hs₃ => ?_
  exact acts_funds hs₃ (send_funds _ _ hround)

theorem resetWinners_acts (mayRounds : R .rounds) (mayMint : R .mint) (hs : Acts signs R s₀ s)
    (clock : Clock) (env : Env) (variant : ResetVariant) {a : ResetAccounts}
    (hround : a.roundInfo.key.isKeypair = false)
    (htokens : a.treasuryTokensInfo.key = treasuryTokensAddress) (round : Round) (r : BitVec 64)
    (ws : Square) (fee share : ℕ) :
    Holds (Acts signs R s₀) (resetWinners clock env variant a round r ws fee share s) := by
  have hput : ∀ r' t', Acts signs R s₀ { s with rounds := s.rounds.put r', treasury := t' } :=
    fun r' t' => acts_treasury (acts_rounds mayRounds hs (s.rounds.put r')) t'
  simp only [resetWinners, Holds, ensures_bind]
  refine ensures_of_forall fun p => ensures_of_forall fun balance => ?_
  refine ensures_of_forall fun _ => ensures_of_forall fun q => ?_
  refine ensures_of_forall fun topMiner => ensures_of_forall fun motherlode => ?_
  refine Ensures.mono (mintRound_acts mayMint (hput _ _) env htokens _) fun s₁ hs₁ => ?_
  refine Ensures.mono (acts_funds (R := R) hs₁ (send_funds _ _ hround)) fun s₂ hs₂ => ?_
  refine ensures_of_forall fun total => ?_
  have hbooks := acts_books hs₂ s₂.treasury ⟨total⟩ s₂.goldVault
  refine Ensures.mono (advanceBoard_acts mayRounds (acts_log hbooks _) clock) fun s₃ hs₃ => ?_
  refine Ensures.mono (payAdminFee_acts hs₃ variant hround fee) fun s₄ hs₄ => ?_
  exact acts_funds hs₄ (send_funds _ _ hround)

theorem resetBody_acts (mayRounds : R .rounds) (mayMint : R .mint) (clock : Clock) (env : Env)
    (variant : ResetVariant) (a : ResetAccounts) (s : State)
    (hsign : a.signerInfo.isSigner = true → signs a.signerInfo.key) :
    Holds (Acts signs R s) (resetBody clock env variant a s) := by
  refine Ensures.bind (checkResetAccounts_spec clock variant a s) fun round hchecked => ?_
  have hround := isKeypair_round hchecked.getRound
  have hopen : Holds (Acts signs R s) (openNextRound a (s.board.roundId + 1) s) := by
    simp only [openNextRound, Holds, ensures_bind, ensures_pure]
    refine Ensures.mono (createAccount_funds (R := R) hsign _ _) fun s₁ hs₁ => ?_
    refine Ensures.mono (createAccount_funds (R := R) hsign _ _) fun s₂ hs₂ => ?_
    exact acts_poolRounds mayRounds ((acts_rounds mayRounds hs₁.acts _).trans hs₂.acts) _
  refine holds_then hopen fun s₁ hs₁ => holds_any fun value => ?_
  unfold settleRound
  split
  · exact resetRefund_acts mayRounds hs₁ clock _
  · refine holds_any fun _ => holds_any fun _ => holds_ite ?_ ?_
    · exact resetVault_acts mayRounds hs₁ clock variant hround _ _ _ _
    · exact resetWinners_acts mayRounds mayMint hs₁ clock env variant hround
        hchecked.treasuryTokens _ _ _ _ _

theorem processResetList_acts (mayRounds : R .rounds) (mayMint : R .mint) (clock : Clock)
    (env : Env) (variant : ResetVariant) (accounts : List AccountInfo) (s : State) :
    Holds (Acts (signers accounts) R s)
      (processResetList (resetBody clock env variant) accounts s) := by
  unfold processResetList
  split
  · refine resetBody_acts mayRounds mayMint clock env variant _ s
      fun hsigner => ⟨_, ?_, hsigner, rfl⟩
    exact List.mem_cons_self
  · exact holds_error

theorem closeToTreasury_acts (hs : Acts signs R s₀ s) {info : AccountInfo}
    (hkey : info.key.isKeypair = false) (treasuryInfo rentPayerInfo : AccountInfo) (size : ℕ) :
    Holds (Acts signs R s₀) (closeToTreasury info treasuryInfo rentPayerInfo size s) := by
  have hrelease : ∀ s₁, Acts signs R s₀ s₁ →
      Acts signs R s₀ (s₁.releaseLamports info.key rentPayerInfo.key) :=
    fun s₁ hs₁ => hs₁.trans (releaseLamports_funds _ (.inl hkey)).acts
  refine holds_ite ?_ (holds_skip (holds_pure (hrelease s hs)))
  refine holds_then (acts_funds hs (send_funds _ _ hkey)) fun s₁ hs₁ => ?_
  refine holds_any fun balance => holds_skip (holds_pure (hrelease _ ?_))
  exact acts_treasury hs₁ _

theorem processClose_acts (mayRounds : R .rounds) (clock : Clock) (signerInfo boardInfo
    rentPayerInfo roundInfo poolRoundInfo treasuryInfo systemProgram : AccountInfo) (s : State) :
    Holds (Acts signs R s) (processClose clock signerInfo boardInfo rentPayerInfo roundInfo
      poolRoundInfo treasuryInfo systemProgram s) := by
  rw [Holds, processClose]
  simp only [ensures_bind, ensures_require, ensures_fromOption]
  intro _ _ _ _ _ round hround _ _ _
  have hstart : Acts signs R s s := .refl
  refine Ensures.mono (closeToTreasury_acts hstart (isKeypair_round hround) _ _ _) ?_
  intro s₁ hs₁ _ hkey
  have herased : Acts signs R s { s₁ with rounds := s₁.rounds.erase roundInfo.key } :=
    acts_rounds mayRounds hs₁ _
  have hpool : poolRoundInfo.key.isKeypair = false := by
    rw [hkey]
    rfl
  refine holds_ite (holds_pure herased) (holds_any fun _ => holds_any fun _ => ?_)
  refine holds_then (closeToTreasury_acts herased hpool _ _ _) fun s₂ hs₂ => ?_
  exact holds_pure (acts_poolRounds mayRounds hs₂ _)

end Reset

end Godl
