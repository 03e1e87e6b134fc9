import Godl.Lib.Lockstep
import Godl.Proof.CheckpointHandler
import Godl.Proof.DeployHandler

/-!
# The two layouts in lockstep

The instructions with gold accounts do what the older ones do, on a state in which the signer
may have paid the rent of an extended account.  From there on each line is the same line on two
states that differ in that rent, and the signer's lamports are all that can run out.

## Main definitions

* `Financed k payer rent s s'` — `s'` is `s` after `payer` paid `rent` for the account `k`.
* `GoldReady` — the gold accounts are the right ones.
* `checkpointBody_lockstep`, `deployBody_lockstep` — the two layouts agree.
-/

namespace Godl

open Lib

/-- `l'` are the lamports `l` after `payer` paid `rent` into `k`. -/
structure PaidRent (k payer : Pubkey) (rent : ℕ) (l l' : Pubkey → ℕ) : Prop where
  paid : l' payer + rent = l payer
  account : l' k = l k + rent
  others : ∀ j, j ≠ payer → j ≠ k → l' j = l j

/-- `s'` is `s` after `payer` paid `rent` for the extended account at `k`. -/
def Financed (k payer : Pubkey) (rent : ℕ) (s s' : State) : Prop :=
  ∃ m l, s' = { s with minersExtended := m, lamports := l } ∧
    (∀ j ≠ k, m.get j = s.minersExtended.get j) ∧ PaidRent k payer rent s.lamports l

/-- The extended account at `k` is at most settled. -/
def Settled (k : Pubkey) (s s' : State) : Prop :=
  ∃ m, s' = { s with minersExtended := m } ∧ ∀ j ≠ k, m.get j = s.minersExtended.get j

/-- The gold accounts that a call names are those of the miner of `authority`, and the
extended account holds one if it holds anything. -/
structure GoldReady (s : State) (authority : Pubkey)
    (goldVaultInfo minerExtendedInfo : AccountInfo) : Prop where
  vaultKey : goldVaultInfo.key = .goldVaultPda
  vault : s.opened .goldVault = true
  writable : minerExtendedInfo.isWritable = true
  key : minerExtendedInfo.key = .minerExtendedPda authority
  loads : s.dataIsEmpty minerExtendedInfo.key = false →
    (s.minersExtended.get minerExtendedInfo.key).isSome = true

section Rent

variable {E : ProgramError → Prop} {k payer j source dest : Pubkey} {rent n : ℕ}
  {l l' : Pubkey → ℕ} {s s' : State} {authority : Pubkey}

/-- Lamports move the same way. -/
theorem PaidRent.move (h : PaidRent k payer rent l l') (hsource : source ≠ k)
    (hdest : dest ≠ k) (hn : n ≤ l' source) :
    PaidRent k payer rent
      (Function.update (Function.update l source (l source - n)) dest
        (Function.update l source (l source - n) dest + n))
      (Function.update (Function.update l' source (l' source - n)) dest
        (Function.update l' source (l' source - n) dest + n)) := by
  have hle : n ≤ l source := by
    by_cases hs : source = payer
    · have hpayer := h.paid
      rw [hs] at hn ⊢
      omega
    · rwa [← h.others source hs hsource]
  have hmoved := (@moved_update l source dest n hle).balance
  have hmoved' := (@moved_update l' source dest n hn).balance
  refine ⟨?_, ?_, fun j hj hk => ?_⟩
  · have hb := hmoved payer
    have hb' := hmoved' payer
    have hpayer := h.paid
    omega
  · have hb := hmoved k
    have hb' := hmoved' k
    rw [if_neg hsource.symm, if_neg hdest.symm] at hb hb'
    have haccount := h.account
    omega
  · have hb := hmoved j
    have hb' := hmoved' j
    have hother := h.others j hj hk
    omega

theorem Financed.dataIsEmpty (h : Financed k payer rent s s') (hj : j ≠ k) :
    s'.dataIsEmpty j = s.dataIsEmpty j := by
  obtain ⟨m, l, rfl, hm, -⟩ := h
  simp only [State.dataIsEmpty, hm j hj]

theorem Financed.lamports (h : Financed k payer rent s s') (hj : j ≠ k) (hpayer : j ≠ payer) :
    s'.lamports j = s.lamports j := by
  obtain ⟨m, l, rfl, -, hl⟩ := h
  exact hl.others j hpayer hj

theorem Financed.move (h : Financed k payer rent s s') (hsource : source ≠ k)
    (hdest : dest ≠ k) (hn : n ≤ s'.lamports source) :
    Financed k payer rent (s.moveLamports source dest n) (s'.moveLamports source dest n) := by
  obtain ⟨m, l, rfl, hm, hl⟩ := h
  exact ⟨m, _, rfl, hm, hl.move hsource hdest hn⟩

theorem Financed.send (h : Financed k payer rent s s') (hsource : source ≠ k)
    (hpayer : source ≠ payer) (hdest : dest ≠ k) :
    Lockstep E (Financed k payer rent) (s.send source dest n) (s'.send source dest n) := by
  unfold State.send
  rw [h.lamports hsource hpayer]
  refine .bind_require fun hn => .ok (h.move hsource hdest ?_)
  rwa [h.lamports hsource hpayer]

/-- Who signs may have paid the rent, and so run out of lamports. -/
theorem Financed.collect (h : Financed k payer rent s s') (hk : k = .minerExtendedPda authority)
    (hE : E .insufficientFunds) (hdest : dest ≠ k) (who : AccountInfo) :
    Lockstep E (Financed k payer rent) (s.collect dest n who) (s'.collect dest n who) := by
  unfold State.collect
  refine .bind_require fun hsigner => ?_
  have hwho : who.key ≠ k := by
    intro heq
    have hpair := who.isKeypair_of_isSigner hsigner
    rw [heq, hk] at hpair
    cases hpair
  refine .bind (.require_of_imp ?_ fun _ _ => hE) fun _ _ hn => .ok (h.move hwho hdest hn.2)
  intro hn
  by_cases hpayer : who.key = payer
  · obtain ⟨m, l, rfl, -, hl⟩ := h
    have hpaid := hl.paid
    rw [hpayer] at hn ⊢
    exact hn.trans (by dsimp only; omega)
  · rwa [← h.lamports hwho hpayer]

theorem Financed.createAccount (h : Financed k payer rent s s')
    (hk : k = .minerExtendedPda authority) (hE : E .insufficientFunds)
    {target : AccountInfo} (htarget : target.key ≠ k) (hpayer : target.key ≠ payer) (len : ℕ)
    (who : AccountInfo) :
    Lockstep E (Financed k payer rent) (s.createAccount target len who)
      (s'.createAccount target len who) := by
  unfold State.createAccount
  rw [h.dataIsEmpty htarget, h.lamports htarget hpayer]
  exact .bind_require fun _ => h.collect hk hE htarget who

end Rent

/-! ## Deploying -/

/-- The bets differ in what the signer paid. -/
def BetFinanced (k payer : Pubkey) (rent : ℕ) (b b' : Bet) : Prop :=
  ∃ s', b' = { b with state := s' } ∧ Financed k payer rent b.state s'

section Deploy

variable {E : ProgramError → Prop} {k payer authority : Pubkey} {rent : ℕ} {s s' s₂ : State}
  {b b' : Bet}

theorem Financed.saveBet (h : BetFinanced k payer rent b b') :
    Financed k payer rent (saveBet b) (saveBet b') := by
  obtain ⟨s', rfl, m, l, rfl, hm, hl⟩ := h
  exact ⟨m, l, rfl, hm, hl⟩

/-- The pool member is created by whoever pays for it. -/
theorem BetFinanced.openPoolMember (h : BetFinanced k payer rent b b')
    (hk : k = .minerExtendedPda authority) (hE : E .insufficientFunds) {c : DeployContext}
    (hmember : c.poolMemberInfo.key = .poolMemberPda authority)
    (hpayer : payer.isKeypair = true) :
    Lockstep E (fun p p' => p'.1 = p.1 ∧ Financed k payer rent p.2 p'.2) (openPoolMember c b)
      (openPoolMember c b') := by
  obtain ⟨s', rfl, h⟩ := h
  have hkey : c.poolMemberInfo.key ≠ k := by simp [hmember, hk]
  have hne : c.poolMemberInfo.key ≠ payer := by
    rintro rfl
    rw [hmember] at hpayer
    cases hpayer
  unfold Godl.openPoolMember
  cases b.poolMember with
  | none => exact .bind (h.createAccount hk hE hkey hne _ _) fun _ _ h' => .ok ⟨rfl, h'⟩
  | some p => exact .bind_require fun _ => .ok ⟨rfl, h⟩

theorem BetFinanced.deployPooled (h : BetFinanced k payer rent b b')
    (hk : k = .minerExtendedPda authority) (hE : E .insufficientFunds) {c : DeployContext}
    (hmember : c.poolMemberInfo.key = .poolMemberPda authority)
    (hpayer : payer.isKeypair = true) (sq : Square) :
    Lockstep E (BetFinanced k payer rent) (deployPooled c b sq) (deployPooled c b' sq) := by
  unfold Godl.deployPooled
  refine .bind (h.openPoolMember hk hE hmember hpayer) ?_
  rintro ⟨p, s₁⟩ ⟨_, s₁'⟩ ⟨rfl, h₁⟩
  obtain ⟨s', rfl, -⟩ := h
  exact .ok ⟨s₁', rfl, h₁⟩

theorem BetFinanced.deploySquare (h : BetFinanced k payer rent b b')
    (hk : k = .minerExtendedPda authority) (hE : E .insufficientFunds) {c : DeployContext}
    (hmember : c.poolMemberInfo.key = .poolMemberPda authority)
    (hpayer : payer.isKeypair = true) (sq : Square) :
    Lockstep E (BetFinanced k payer rent) (deploySquare c b sq) (deploySquare c b' sq) := by
  obtain ⟨s', rfl, h⟩ := h
  unfold Godl.deploySquare
  refine .bind_same _ fun deployed _ => .bind_same _ fun total _ => .bind_same _ fun count _ => ?_
  have htail : ∀ b₁ b₁' : Bet, BetFinanced k payer rent b₁ b₁' →
      Lockstep E (BetFinanced k payer rent)
        (do let n ← addU64 overflow b.totalAmount c.amount
            return { b₁ with totalAmount := n })
        (do let n ← addU64 overflow b.totalAmount c.amount
            return { b₁' with totalAmount := n }) := by
    intro b₁ b₁' hb
    obtain ⟨s₁, rfl, hb⟩ := hb
    exact .bind_same _ fun n _ => .ok ⟨s₁, rfl, hb⟩
  refine .ite_same _ (fun _ => .bind ?_ htail) fun _ => .bind (.ok ?_) htail
  · refine BetFinanced.deployPooled ?_ hk hE hmember hpayer sq
    exact ⟨s', rfl, h⟩
  · exact ⟨s', rfl, h⟩

/-- **The loop over the squares stays in lockstep.** -/
theorem BetFinanced.deployLoop (hk : k = .minerExtendedPda authority) (hE : E .insufficientFunds)
    {c : DeployContext} (hmember : c.poolMemberInfo.key = .poolMemberPda authority)
    (hpayer : payer.isKeypair = true) (squares : Square → Bool) (l : List Square)
    (h : BetFinanced k payer rent b b') :
    Lockstep E (BetFinanced k payer rent) (deployLoop c squares l b)
      (deployLoop c squares l b') := by
  induction l generalizing b b' with
  | nil => exact .ok h
  | cons sq rest ih =>
    have hsame : b'.miner = b.miner := by
      obtain ⟨s', rfl, -⟩ := h
      rfl
    simp only [Godl.deployLoop, hsame]
    refine .ite_same _ (fun _ => ih h) fun _ => .ite_same _ (fun _ => ih h) fun _ => ?_
    refine .bind (h.deploySquare hk hE hmember hpayer sq) fun b₁ b₁' h₁ => ?_
    have hafford : cannotAffordNext c b₁' = cannotAffordNext c b₁ := by
      obtain ⟨s', rfl, -⟩ := h₁
      rfl
    rw [hafford]
    exact .bind_same _ fun exhausted _ => .ite_same _ (fun _ => .ok h₁) fun _ => ih h₁

theorem BetFinanced.finishBet (h : BetFinanced k payer rent b b')
    (hk : k = .minerExtendedPda authority) (hE : E .insufficientFunds) (c : DeployContext)
    {minerInfo : AccountInfo} (hminer : minerInfo.key ≠ k) :
    Lockstep E (Financed k payer rent) (finishBet c minerInfo b) (finishBet c minerInfo b') := by
  obtain ⟨s', rfl, h⟩ := h
  unfold Godl.finishBet
  refine .bind_same _ fun lifetime _ => ?_
  have hpool : ∀ s₁ s₁' : State, Financed k payer rent s₁ s₁' →
      Lockstep E (Financed k payer rent)
        (if c.isPooled then do
          let p ← fromOption b.poolMember .invalidAccountOwner
          require (p.totalDeployed ≤ lamportsPerSol) .invalidInstructionData
          return s₁
        else return s₁)
        (if c.isPooled then do
          let p ← fromOption b.poolMember .invalidAccountOwner
          require (p.totalDeployed ≤ lamportsPerSol) .invalidInstructionData
          return s₁'
        else return s₁') := by
    intro s₁ s₁' h₁
    refine .ite_same _ (fun _ => .bind_same _ fun p _ => .bind_require fun _ => .ok h₁) fun _ => ?_
    exact .ok h₁
  refine .ite_same _ (fun _ => .bind ?_ hpool) fun _ => .bind (.ok ?_) hpool
  · refine Financed.collect ?_ hk hE hminer _
    exact Financed.saveBet ⟨s', rfl, h⟩
  · exact Financed.saveBet ⟨s', rfl, h⟩

/-- A closed automation has the same lamports in both. -/
theorem Financed.closeAutomation (h : Financed k payer rent s s')
    (hk : k = .minerExtendedPda authority) (hpayer : payer.isKeypair = true)
    (automation : AutomationV2) {owner : Pubkey} (howner : owner ≠ k) :
    Financed k payer rent (closeAutomation automation owner s)
      (closeAutomation automation owner s') := by
  have hne : automation.pda ≠ k := by simp [AutomationV2.pda, hk]
  have hne' : automation.pda ≠ payer := by
    rintro rfl
    cases hpayer
  have hmove : Financed k payer rent (s.releaseLamports automation.pda owner)
      (s'.releaseLamports automation.pda owner) := by
    unfold State.releaseLamports
    rw [← h.lamports hne hne']
    exact h.move hne howner (le_refl _)
  obtain ⟨m, l, heq, hm, hl⟩ := hmove
  refine ⟨m, l, ?_, hm, hl⟩
  simp only [Godl.closeAutomation, heq]

/-- An automation pays out of its own account. -/
theorem Financed.payBet (h : Financed k payer rent s s') (hk : k = .minerExtendedPda authority)
    (hE : E .insufficientFunds) (hpayer : payer.isKeypair = true) {a : DeployAccounts}
    (hauto : a.automationV2Info.key = .automationV2Pda a.authorityInfo.key)
    (hround : a.roundInfo.key ≠ k) (hsigner : a.signerInfo.key ≠ k)
    (hauthority : a.authorityInfo.key ≠ k) (total : ℕ) (automation : Option AutomationV2) :
    Lockstep E (Financed k payer rent) (payBet a total automation s)
      (payBet a total automation s') := by
  unfold Godl.payBet
  cases automation with
  | none => exact h.collect hk hE hround _
  | some automation =>
    have hne : a.automationV2Info.key ≠ k := by simp [hauto, hk]
    have hne' : a.automationV2Info.key ≠ payer := by
      rintro rfl
      rw [hauto] at hpayer
      cases hpayer
    refine .bind_same _ fun spent _ => .bind_same _ fun balance _ => ?_
    have hsaved : ∀ automation : AutomationV2, Financed k payer rent
        { s with automations := s.automations.put automation }
        { s' with automations := s'.automations.put automation } := by
      intro automation
      obtain ⟨m, l, rfl, hm, hl⟩ := h
      exact ⟨m, l, rfl, hm, hl⟩
    refine .bind ((hsaved _).send hne hne' hround) fun s₁ s₁' h₁ => ?_
    refine .bind (h₁.send hne hne' hsigner) fun s₂ s₂' h₂ => .bind_same _ fun next _ => ?_
    exact .ite_same _ (fun _ => .ok (h₂.closeAutomation hk hpayer _ hauthority)) fun _ => .ok h₂

theorem Financed.placeBet (h : Financed k payer rent s s') {a : DeployAccounts}
    (hk : k = .minerExtendedPda a.authorityInfo.key) (hE : E .insufficientFunds)
    (hpayer : payer.isKeypair = true) (hsigner : a.signerInfo.key ≠ k)
    (hminer : a.minerInfo.key ≠ k) (hround : a.roundInfo.key ≠ k)
    (hmember : a.poolMemberInfo.key = .poolMemberPda a.authorityInfo.key)
    (hauto : a.automationV2Info.key = .automationV2Pda a.authorityInfo.key) (args : DeployArgs)
    (automation : Option AutomationV2) (squares : Square → Bool) (round : Round)
    (pool : PoolRound) (miner : Miner) :
    Lockstep E (Financed k payer rent)
      (placeBet args a automation squares round pool miner s)
      (placeBet args a automation squares round pool miner s') := by
  have hauthority : a.authorityInfo.key ≠ k := by
    intro heq
    have hsize := congrArg sizeOf (heq.trans hk)
    simp at hsize
  have hmembers : s'.poolMembers = s.poolMembers := by
    obtain ⟨m, l, rfl, -⟩ := h
    rfl
  have hstart : BetFinanced k payer rent
      ⟨s, round, pool, miner, s.poolMembers.get a.poolMemberInfo.key, 0⟩
      ⟨s', round, pool, miner, s.poolMembers.get a.poolMemberInfo.key, 0⟩ := ⟨s', rfl, h⟩
  have hplay : ∀ c : DeployContext, c.poolMemberInfo = a.poolMemberInfo →
      Lockstep E (Financed k payer rent)
        (do let b ← deployLoop c squares squareList
              ⟨s, round, pool, miner, s.poolMembers.get a.poolMemberInfo.key, 0⟩
            let s₁ ← finishBet c a.minerInfo b
            Godl.payBet a b.totalAmount automation s₁)
        (do let b ← deployLoop c squares squareList
              ⟨s', round, pool, miner, s.poolMembers.get a.poolMemberInfo.key, 0⟩
            let s₁ ← finishBet c a.minerInfo b
            Godl.payBet a b.totalAmount automation s₁) := by
    intro c hc
    rw [← hc] at hmember
    refine .bind (hstart.deployLoop hk hE hmember hpayer squares _) fun b b' hb => ?_
    refine .bind (hb.finishBet hk hE _ hminer) fun s₁ s₁' h₁ => ?_
    have htotal : b'.totalAmount = b.totalAmount := by
      obtain ⟨_, rfl, -⟩ := hb
      rfl
    rw [htotal]
    exact h₁.payBet hk hE hpayer hauto hround hsigner hauthority _ _
  have hsaved := Financed.saveBet hstart
  unfold Godl.placeBet
  rw [hmembers]
  cases automation with
  | none =>
    refine .ite_same (true = true) (fun _ => hplay ⟨args.amount, args.isPooled, none,
      a.authorityInfo.key, a.signerInfo, a.poolMemberInfo⟩ rfl) fun _ => .ok hsaved
  | some automation =>
    refine .bind_same _ fun affordable _ => ?_
    refine .ite_same _ (fun _ => hplay ⟨automation.amount, automation.getIsPooled,
      some automation, a.authorityInfo.key, a.signerInfo, a.poolMemberInfo⟩ rfl) fun _ => .ok ?_
    exact hsaved.closeAutomation hk hpayer automation hauthority

/-- What may stop the newer deploy alone: gold accounts that are not ready, or a signer who
cannot pay the rent of the extended account as well. -/
def DeployFault (s : State) (authority : Pubkey) (goldVaultInfo minerExtendedInfo : AccountInfo)
    (e : ProgramError) : Prop :=
  ¬ GoldReady s authority goldVaultInfo minerExtendedInfo ∨
    (s.dataIsEmpty minerExtendedInfo.key = true ∧ e = .insufficientFunds)

/-- What the extended account at `k` costs. -/
def State.extendedRent (s : State) (k : Pubkey) : ℕ :=
  if s.dataIsEmpty k then minimumBalance minerExtendedSize - s.lamports k else 0

theorem Financed.refl (k payer : Pubkey) (s : State) : Financed k payer 0 s s :=
  ⟨s.minersExtended, s.lamports, rfl, fun _ _ => rfl, rfl, rfl, fun _ _ _ => rfl⟩

theorem Moved.paidRent {source dest : Pubkey} {n : ℕ} {l l' : Pubkey → ℕ}
    (h : Moved l l' source dest n) (hne : source ≠ dest) : PaidRent dest source n l l' := by
  refine ⟨?_, ?_, fun j hsource hdest => ?_⟩
  · have hb := h.balance source
    rwa [if_pos rfl, if_neg hne] at hb
  · have hb := h.balance dest
    rwa [if_neg hne.symm, if_pos rfl] at hb
  · have hb := h.balance j
    rwa [if_neg hsource, if_neg hdest] at hb

/-- **Opening the gold accounts** costs the signer the rent of the extended account. -/
theorem openGold_financed {a : DeployAccounts} (hsigner : a.signerInfo.isSigner = true)
    (goldVaultInfo minerExtendedInfo : AccountInfo) :
    Ensures (openGold (some (goldVaultInfo, minerExtendedInfo)) a s) fun s' =>
      minerExtendedInfo.key = .minerExtendedPda a.authorityInfo.key ∧
      (s.dataIsEmpty minerExtendedInfo.key = false → s' = s) ∧
      Financed minerExtendedInfo.key a.signerInfo.key (s.extendedRent minerExtendedInfo.key)
        s s' := by
  simp only [openGold, loadOrCreateMinerExtended, ensures_bind, ensures_require, if_true]
  intro _ hkey
  have hne : a.signerInfo.key ≠ minerExtendedInfo.key := by
    intro heq
    have hpair := a.signerInfo.isKeypair_of_isSigner hsigner
    rw [heq, hkey] at hpair
    cases hpair
  unfold State.extendedRent
  split
  · next hempty =>
    simp only [ensures_bind, ensures_pure]
    refine Ensures.mono (State.createAccount_spec _ _ _ _) ?_
    rintro _ ⟨-, l, rfl, hmoved, -⟩
    refine ⟨hkey, fun hdata => ?_, _, l, rfl, fun j hj => ?_, hmoved.paidRent hne⟩
    · rw [hempty] at hdata
      cases hdata
    · have hpda : j ≠ (MinerExtended.init a.authorityInfo.key s.goldVault).pda := by
        rw [hkey] at hj
        exact hj
      exact Store.get_put_of_ne _ hpda
  · simp only [ensures_bind, ensures_fromOption, ensures_require, ensures_pure]
    exact fun _ _ _ => ⟨hkey, fun _ => trivial, .refl _ _ _⟩

/-- **Opening the gold accounts fails** only for a reason of its own. -/
theorem openGold_fault {a : DeployAccounts} (hsigner : a.signerInfo.isSigner = true)
    (goldVaultInfo minerExtendedInfo : AccountInfo) :
    Avoids (fun e => ¬ DeployFault s a.authorityInfo.key goldVaultInfo minerExtendedInfo e)
      (openGold (some (goldVaultInfo, minerExtendedInfo)) a s) := by
  by_cases hready : GoldReady s a.authorityInfo.key goldVaultInfo minerExtendedInfo
  · have hwritable := hready.writable
    have hkey := hready.key
    cases hempty : s.dataIsEmpty minerExtendedInfo.key with
    | true =>
      -- The account is new: all that can be missing is the rent.
      simp [openGold, loadOrCreateMinerExtended, State.createAccount, State.collect, hwritable,
        hkey ▸ hempty, hsigner, hkey, DeployFault]
    | false =>
      obtain ⟨extended, hget⟩ := Option.isSome_iff_exists.1 (hready.loads hempty)
      have hpda : MinerExtended.pda extended = .minerExtendedPda a.authorityInfo.key :=
        (s.minersExtended.key_of_get _ _ hget).trans hkey
      have hauthority : extended.authority = a.authorityInfo.key := Pubkey.minerExtendedPda.inj hpda
      rw [hkey] at hempty hget
      simp [openGold, loadOrCreateMinerExtended, hwritable, hkey, hempty, hget, hauthority]
  · exact fun e _ hno => hno (.inl hready)

/-- Nothing happened to the extended account at `k`. -/
structure ExtendedKept (k : Pubkey) (s s' : State) : Prop where
  data : s'.dataIsEmpty k = s.dataIsEmpty k
  lamports : s'.lamports k = s.lamports k
  extended : s'.minersExtended = s.minersExtended
  opened : s'.opened = s.opened

theorem ExtendedKept.trans {s'' : State} (h : ExtendedKept k s s') (h' : ExtendedKept k s' s'') :
    ExtendedKept k s s'' :=
  ⟨h'.data.trans h.data, h'.lamports.trans h.lamports, h'.extended.trans h.extended,
    h'.opened.trans h.opened⟩

theorem ExtendedKept.fault {goldVaultInfo minerExtendedInfo : AccountInfo} {e : ProgramError}
    (h : ExtendedKept minerExtendedInfo.key s s')
    (hfault : DeployFault s' authority goldVaultInfo minerExtendedInfo e) :
    DeployFault s authority goldVaultInfo minerExtendedInfo e := by
  rcases hfault with hready | ⟨hempty, he⟩
  · refine .inl fun hs => hready ⟨hs.vaultKey, ?_, hs.writable, hs.key, fun hdata => ?_⟩
    · rw [h.opened]
      exact hs.vault
    · rw [h.extended]
      exact hs.loads (h.data ▸ hdata)
  · exact .inr ⟨h.data ▸ hempty, he⟩

theorem ExtendedKept.extendedRent (h : ExtendedKept k s s') :
    s'.extendedRent k = s.extendedRent k := by
  rw [State.extendedRent, State.extendedRent, h.data, h.lamports]

/-- Starting the clock of the round opens no account and pays for none. -/
theorem openRound_kept (clock : Clock) (env : Env) (a : DeployAccounts)
    (entropyAccounts : List AccountInfo) (cpi : Cpi) (round : Round) (s : State) :
    Ensures (openRound clock env a entropyAccounts cpi round s) fun p =>
      ExtendedKept k s p.2 := by
  unfold openRound
  split
  · simp only [startRound, ensures_bind, ensures_addU64]
    intro _ _
    split
    · simp only [ensures_bind, ensures_require, ensures_fromOption, ensures_pure]
      intro hkey var hvar _ _ var' _
      refine ⟨?_, rfl, rfl, rfl⟩
      rw [hkey] at hvar ⊢
      by_cases hk : k = s.config.varAddress
      · simp [State.dataIsEmpty, hk, hvar]
      · simp [State.dataIsEmpty, hk]
    · exact ensures_throw.2 trivial
  · exact ensures_pure.2 ⟨rfl, rfl, rfl, rfl⟩

theorem openMiner_kept (e : ProgramError) {minerInfo payer : AccountInfo} (authority : Pubkey)
    (hk : k ≠ minerInfo.key) (hpayer : k ≠ payer.key) :
    Ensures (openMiner e minerInfo authority payer s) fun p => ExtendedKept k s p.2 := by
  unfold openMiner
  split
  · simp only [ensures_bind, ensures_pure]
    refine Ensures.mono (State.createAccount_spec _ _ _ _) ?_
    rintro _ ⟨-, l, rfl, hmoved, -⟩
    refine ⟨rfl, ?_, rfl, rfl⟩
    have hb := hmoved.balance k
    rwa [if_neg hpayer, if_neg hk] at hb
  · simp only [ensures_bind, ensures_fromOption, ensures_require, ensures_pure]
    exact fun _ _ _ => ⟨rfl, rfl, rfl, rfl⟩

/-- Gold accounts that are ready pass the first check. -/
theorem checkGoldVault_fault {goldVaultInfo minerExtendedInfo : AccountInfo} :
    Avoids (fun _ => GoldReady s authority goldVaultInfo minerExtendedInfo)
      (checkGoldVault goldVaultInfo s) := by
  simp only [avoids_bind, avoids_require, ensures_require]
  refine ⟨fun hne hready => hne hready.vaultKey, fun hkey hne hready => hne ⟨hkey, hready.vault⟩⟩

/-- From the opened miner on. -/
theorem placeBet_lockstep {a : DeployAccounts} (hsigner : a.signerInfo.isSigner = true)
    (hround : (s₂.rounds.get a.roundInfo.key).isSome = true)
    (hminer : a.minerInfo.key = .minerPda a.authorityInfo.key)
    (hmember : a.poolMemberInfo.key = .poolMemberPda a.authorityInfo.key)
    (hauto : a.automationV2Info.key = .automationV2Pda a.authorityInfo.key)
    {goldVaultInfo minerExtendedInfo : AccountInfo}
    (hkept : minerExtendedInfo.key = .minerExtendedPda a.authorityInfo.key →
      ExtendedKept minerExtendedInfo.key s s₂) (args : DeployArgs)
    (automation : Option AutomationV2) (squares : Square → Bool) (round : Round)
    (pool : PoolRound) (miner : Miner) :
    Lockstep (DeployFault s a.authorityInfo.key goldVaultInfo minerExtendedInfo)
      (Financed minerExtendedInfo.key a.signerInfo.key (s.extendedRent minerExtendedInfo.key))
      (do let s₃ ← openGold none a s₂
          let miner ← resetMiner round miner
          placeBet args a automation squares round pool miner s₃)
      (do let s₃ ← openGold (some (goldVaultInfo, minerExtendedInfo)) a s₂
          let miner ← resetMiner round miner
          placeBet args a automation squares round pool miner s₃) := by
  rw [show openGold none a s₂ = .ok s₂ from rfl, ok_bind]
  refine .bind_own (fun e he => ?_) fun s₃ hs₃ => ?_
  · by_cases hkey : minerExtendedInfo.key = .minerExtendedPda a.authorityInfo.key
    · refine (hkept hkey).fault (not_not.1 ?_)
      exact openGold_fault hsigner goldVaultInfo minerExtendedInfo e he
    · exact .inl fun hready => hkey hready.key
  obtain ⟨hkey, hsame, hpaid⟩ :=
    (openGold_financed hsigner goldVaultInfo minerExtendedInfo).elim hs₃
  rw [(hkept hkey).extendedRent] at hpaid
  refine .bind_same _ fun miner₁ _ => ?_
  cases hempty : s₂.dataIsEmpty minerExtendedInfo.key with
  | false =>
    obtain rfl := hsame hempty
    have hrent : s.extendedRent minerExtendedInfo.key = 0 := by
      rw [← (hkept hkey).extendedRent, State.extendedRent, hempty]
      rfl
    rw [hrent]
    exact .refl fun t => .refl _ _ t
  | true =>
    have hpayer := a.signerInfo.isKeypair_of_isSigner hsigner
    refine hpaid.placeBet hkey ?_ hpayer ?_ ?_ ?_ hmember hauto _ _ _ _ _ _
    · exact .inr ⟨(hkept hkey).data ▸ hempty, rfl⟩
    · intro heq
      rw [heq, hkey] at hpayer
      cases hpayer
    · rw [hminer, hkey]
      simp
    · intro heq
      obtain ⟨round', hget⟩ := Option.isSome_iff_exists.1 hround
      have hpda := s₂.rounds.key_of_get _ _ hget
      rw [heq, hkey] at hpda
      cases hpda

/-- **The two deploy instructions stay in lockstep.** -/
theorem deployBody_lockstep (clock : Clock) (env : Env) (args : DeployArgs) (a : DeployAccounts)
    (goldVaultInfo minerExtendedInfo : AccountInfo) (entropyAccounts : List AccountInfo)
    (cpi : Cpi) (s : State) :
    Lockstep (DeployFault s a.authorityInfo.key goldVaultInfo minerExtendedInfo)
      (Financed minerExtendedInfo.key a.signerInfo.key (s.extendedRent minerExtendedInfo.key))
      (deployBody clock env args a none entropyAccounts cpi s)
      (deployBody clock env args a (some (goldVaultInfo, minerExtendedInfo)) entropyAccounts cpi
        s) := by
  unfold deployBody
  refine .bind_ensures (checkDeployAccounts_spec clock a s) ?_
  rintro ⟨round, pool⟩ hchecked
  refine .bind_own (fun e he => .inl fun hready => ?_) fun _ _ => ?_
  · exact checkGoldVault_fault e he hready
  refine .bind_ensures ((openRound_spec clock env a entropyAccounts cpi round s).and
    (openRound_kept clock env a entropyAccounts cpi round s (k := minerExtendedInfo.key))) ?_
  rintro ⟨round₁, _⟩ ⟨⟨-, board, vars, rfl, -⟩, hkept₁⟩
  refine .bind_same _ fun automation _ => .bind_same _ fun squares _ => ?_
  refine .bind_same _ ?_
  rintro ⟨miner, s₂⟩ hs₂
  obtain ⟨l, hl, -⟩ := (openMiner_spec _ _ _ _ _).elim hs₂
  refine placeBet_lockstep hchecked.signer ?_ hchecked.miner hchecked.member hchecked.automation
    (fun hkey => hkept₁.trans ?_) _ _ _ _ _ _
  · rw [show s₂.rounds = s.rounds by rw [show s₂ = _ from hl]]
    exact Option.isSome_iff_exists.2 ⟨round, hchecked.getRound⟩
  · refine (openMiner_kept _ _ ?_ ?_).elim hs₂
    · rw [hchecked.miner, hkey]
      simp
    · intro heq
      have hpair := a.signerInfo.isKeypair_of_isSigner hchecked.signer
      rw [← heq, hkey] at hpair
      cases hpair

end Deploy

/-! ## Checkpointing -/

section Checkpoint

variable {E : ProgramError → Prop} {k : Pubkey} {s s' : State} {miner miner' : Miner}
  {goldVaultInfo minerExtendedInfo : AccountInfo}

/-- What may stop the newer checkpoint alone: gold accounts that are not ready, gold that
cannot be settled, or GODL without an extended account. -/
def CheckpointFault (s : State) (miner : Miner) (goldVaultInfo minerExtendedInfo : AccountInfo)
    (e : ProgramError) : Prop :=
  ¬ GoldReady s miner.authority goldVaultInfo minerExtendedInfo ∨
    (∃ extended, s.minersExtended.get minerExtendedInfo.key = some extended ∧
      extended.updateRewards s.goldVault miner.rewardsGodl = .error e) ∨
    (s.dataIsEmpty minerExtendedInfo.key = true ∧ e = .custom .minerExtendedMissing)

/-- Settling the gold writes the extended account of the miner. -/
theorem settleGold_settled (goldVaultInfo minerExtendedInfo signerInfo : AccountInfo)
    (miner : Miner) (rewardsGodl : ℕ) (s : State) :
    Ensures (settleGold (some (goldVaultInfo, minerExtendedInfo)) signerInfo miner rewardsGodl s)
      (Settled minerExtendedInfo.key s) := by
  simp only [settleGold, loadOrCreateMinerExtended, ensures_bind, ensures_require,
    Bool.false_eq_true, if_false]
  intro _ hkey
  split
  · simp only [ensures_pure, ensures_require, syncGoldRewards, ensures_bind]
    exact fun _ _ => ⟨s.minersExtended, rfl, fun _ _ => rfl⟩
  · simp only [ensures_bind, ensures_fromOption, ensures_require, ensures_pure, syncGoldRewards]
    intro extended hget hauth _ _
    refine Ensures.mono (MinerExtended.updateRewards_spec extended _ _) ?_
    rintro extended' ⟨hauth', -⟩
    have hpda : extended'.pda = minerExtendedInfo.key := by
      rw [hkey, MinerExtended.pda, hauth', hauth]
    exact ⟨_, rfl, fun j hj => Store.get_put_of_ne _ (hpda ▸ hj)⟩

theorem settleGold_fault {signerInfo : AccountInfo} (hauth : miner'.authority = miner.authority)
    (hgodl : miner'.rewardsGodl = miner.rewardsGodl) (rewardsGodl : ℕ) :
    Avoids (fun e => ¬ CheckpointFault s miner goldVaultInfo minerExtendedInfo e)
      (settleGold (some (goldVaultInfo, minerExtendedInfo)) signerInfo miner' rewardsGodl s) := by
  by_cases hready : GoldReady s miner.authority goldVaultInfo minerExtendedInfo
  · have hwritable := hready.writable
    have hkey := hready.key
    cases hempty : s.dataIsEmpty minerExtendedInfo.key with
    | true =>
      have hfault : CheckpointFault s miner goldVaultInfo minerExtendedInfo
          (.custom .minerExtendedMissing) := .inr (.inr ⟨hempty, rfl⟩)
      rw [hkey] at hempty
      simp [settleGold, loadOrCreateMinerExtended, syncGoldRewards, hwritable, hkey, hauth,
        hempty, hfault]
      exact fun hnone _ hsome => absurd hnone hsome
    | false =>
      obtain ⟨extended, hget⟩ := Option.isSome_iff_exists.1 (hready.loads hempty)
      have hpda : MinerExtended.pda extended = .minerExtendedPda miner.authority :=
        (s.minersExtended.key_of_get _ _ hget).trans hkey
      have hauthority : extended.authority = miner.authority := Pubkey.minerExtendedPda.inj hpda
      have hfault : ∀ e, extended.updateRewards s.goldVault miner.rewardsGodl = .error e →
          CheckpointFault s miner goldVaultInfo minerExtendedInfo e :=
        fun e he => .inr (.inl ⟨extended, hget, he⟩)
      rw [hkey] at hempty hget
      simp [settleGold, loadOrCreateMinerExtended, syncGoldRewards, hwritable, hkey, hempty, hget,
        hauthority, hauth, hgodl]
      exact fun e he hno => hno (hfault e he)
  · exact fun e _ hno => hno (.inl hready)

theorem Settled.creditMiner (h : Settled k s s') (round : Round) (miner : Miner)
    (rewardsSol rewardsGodl : ℕ) :
    Lockstep E (Settled k) (creditMiner round miner rewardsSol rewardsGodl s)
      (creditMiner round miner rewardsSol rewardsGodl s') := by
  obtain ⟨m, rfl, hm⟩ := h
  unfold Godl.creditMiner
  refine .bind_same _ fun _ _ => .bind_same _ fun _ _ => .bind_same _ fun _ _ => ?_
  exact .bind_same _ fun _ _ => .bind_same _ fun _ _ => .ok ⟨m, rfl, hm⟩

theorem Settled.send (h : Settled k s s') (source dest : Pubkey) (n : ℕ) :
    Lockstep E (Settled k) (s.send source dest n) (s'.send source dest n) := by
  obtain ⟨m, rfl, hm⟩ := h
  exact .bind_require fun _ => .ok ⟨m, rfl, hm⟩

theorem Settled.payCheckpoint (h : Settled k s s') (a : CheckpointAccounts) (miner : Miner)
    (rewardsSol fee : ℕ) :
    Lockstep E (Settled k) (payCheckpoint a miner rewardsSol fee s)
      (payCheckpoint a miner rewardsSol fee s') := by
  have hlast : ∀ t t' : State, Settled k t t' →
      Lockstep E (Settled k)
        (do require (minimumBalance minerSize + miner.checkpointFee +
                (miner.rewardsSol + rewardsSol) ≤ t.lamports a.minerInfo.key)
              (.panic .minerInsufficientFunds)
            return t)
        (do require (minimumBalance minerSize + miner.checkpointFee +
                (miner.rewardsSol + rewardsSol) ≤ t'.lamports a.minerInfo.key)
              (.panic .minerInsufficientFunds)
            return t') := by
    intro t t' ht
    obtain ⟨m, rfl, hm⟩ := ht
    exact .bind_require fun _ => .ok ⟨m, rfl, hm⟩
  unfold Godl.payCheckpoint
  refine .ite_same _ (fun _ => .bind (h.send _ _ _) fun t t' ht => ?_) fun _ => .bind (.ok h)
    fun t t' ht => ?_
  · exact .ite_same _ (fun _ => .bind (ht.send _ _ _) hlast) fun _ => .bind (.ok ht) hlast
  · exact .ite_same _ (fun _ => .bind (ht.send _ _ _) hlast) fun _ => .bind (.ok ht) hlast

/-- **Crediting a round stays in lockstep.** -/
theorem creditRound_lockstep (clock : Clock) (a : CheckpointAccounts) (round : Round)
    (miner : Miner) (poolMember : Option PoolMember) (s : State)
    (goldVaultInfo minerExtendedInfo : AccountInfo) :
    Lockstep (CheckpointFault s miner goldVaultInfo minerExtendedInfo)
      (Settled minerExtendedInfo.key)
      (creditRound clock a none round miner poolMember s)
      (creditRound clock a (some (goldVaultInfo, minerExtendedInfo)) round miner poolMember s) := by
  unfold creditRound
  refine .bind_ensures (botFee_spec clock round miner) ?_
  rintro ⟨fee, _⟩ ⟨c, rfl⟩
  refine .bind_same _ ?_
  rintro ⟨sol, godl, round'⟩ -
  refine .bind_ensures (Miner.updateRewards_spec _ _) fun miner' hminer' => ?_
  refine .bind_own (fun e he => ?_) fun s' hs' => ?_
  · exact not_not.1 (settleGold_fault hminer'.authority hminer'.rewardsGodl godl e he)
  have hsettled := (settleGold_settled goldVaultInfo minerExtendedInfo _ _ _ s).elim hs'
  exact .bind (hsettled.creditMiner _ _ _ _) fun t t' ht => ht.payCheckpoint a miner' sol fee

/-- What may stop the newer checkpoint of the miner that is named. -/
def CheckpointFaultAt (s : State) (k : Pubkey) (goldVaultInfo minerExtendedInfo : AccountInfo)
    (e : ProgramError) : Prop :=
  ∃ miner, s.miners.get k = some miner ∧
    CheckpointFault s miner goldVaultInfo minerExtendedInfo e

theorem Settled.refl (k : Pubkey) (s : State) : Settled k s s :=
  ⟨s.minersExtended, rfl, fun _ _ => rfl⟩

/-- **The two checkpoint instructions stay in lockstep.** -/
theorem checkpointBody_lockstep (clock : Clock) (a : CheckpointAccounts)
    (goldVaultInfo minerExtendedInfo : AccountInfo) (s : State) :
    Lockstep (CheckpointFaultAt s a.minerInfo.key goldVaultInfo minerExtendedInfo)
      (Settled minerExtendedInfo.key) (checkpointBody clock a none s)
      (checkpointBody clock a (some (goldVaultInfo, minerExtendedInfo)) s) := by
  unfold checkpointBody
  refine .bind_require fun _ => .bind_require fun _ => ?_
  refine .bind_ensures (ensures_fromOption.2 fun miner hget => hget) fun miner hget => ?_
  refine .bind_require fun _ => .bind_require fun _ => ?_
  refine .bind_own (fun e he => ⟨miner, hget, .inl fun hready => ?_⟩) fun _ _ => ?_
  · exact checkGoldVault_fault e he hready
  refine .bind_own (fun e he => ⟨miner, hget, .inl fun hready => ?_⟩) fun _ _ => ?_
  · rw [show checkSeeds minerExtendedInfo (.minerExtendedPda miner.authority) = .ok () from
      if_pos hready.key] at he
    cases he
  have hsame : ∀ t, Lockstep (CheckpointFaultAt s a.minerInfo.key goldVaultInfo minerExtendedInfo)
      (Settled minerExtendedInfo.key) (pure t) (pure t) := fun t => .ok (.refl _ t)
  unfold checkpointMiner
  refine .ite_same _ (fun _ => hsame s) fun _ => .ite_same _ (fun _ => ?_) fun _ => ?_
  · exact .bind_require fun _ => hsame _
  refine .bind_same _ fun round _ => .ite_same _ (fun _ => hsame s) fun _ => ?_
  refine .bind_same _ fun poolMember _ => .ite_same _ (fun _ => hsame _) fun _ => ?_
  exact (creditRound_lockstep clock a round miner poolMember s goldVaultInfo
    minerExtendedInfo).weaken fun e he => ⟨miner, hget, he⟩

end Checkpoint

end Godl
