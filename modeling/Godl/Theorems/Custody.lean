import Godl.Proof.Untouched
import Godl.Script

/-!
# Custody

Nobody loses anything that is theirs unless they sign, or someone does whom they put in charge
of it.  This is a property of single acts, so it holds of every instruction, of every sequence of
calls, and whatever the rest of the chain does in between.

## Main definitions

* `Asset.Kept` — an asset that may not be taken away does not shrink.
* `Asset.IsBooked` — the asset lies in accounts that only the program writes.
* `History.signers` — who signed a call of a run.

## Main results

* `Act.kept` — every act keeps the assets that it may not take away.
* `holding_le_of_run` — so does every run.
-/

namespace Godl

open Lib

/-- An asset that may not be taken away does not shrink, and still may not be taken away. -/
def Asset.Kept (signs : Pubkey → Prop) (s s' : State) (a : Asset) : Prop :=
  ¬ a.Authorized signs s → s.holding a ≤ s'.holding a ∧ ¬ a.Authorized signs s'

section Acts

variable {signs : Pubkey → Prop} {R : Right → Prop} {s s' s'' : State} {a : Asset}

theorem Asset.Kept.refl (s : State) (a : Asset) : a.Kept signs s s := fun hno => ⟨le_refl _, hno⟩

theorem Asset.Kept.trans (h : a.Kept signs s s') (h' : a.Kept signs s' s'') :
    a.Kept signs s s'' := by
  intro hno
  obtain ⟨hle, hno'⟩ := h hno
  obtain ⟨hle', hno''⟩ := h' hno'
  exact ⟨hle.trans hle', hno''⟩

/-! ## Funds -/

/-- Lamports and tokens move, and leave only whom they may leave. -/
theorem kept_funds (hsigns : ∀ k, signs k → k.isKeypair = true) {l : Pubkey → ℕ}
    {tok : Pubkey → Option ℕ} {supply : ℕ}
    (hl : ∀ user, ¬ (Asset.lamports user).Authorized signs s → s.lamports user ≤ l user)
    (htok : ∀ owner mint, ¬ MaySpend signs owner →
      balances s.tokens (.associatedTokenAddress owner mint) ≤
        balances tok (.associatedTokenAddress owner mint)) (a : Asset) :
    a.Kept signs s { s with lamports := l, tokens := tok, mintSupply := supply } := by
  intro hno
  cases a with
  | lamports user => exact ⟨hl user hno, hno⟩
  | tokens owner mint => exact ⟨htok owner mint hno, hno⟩
  | stakeV2 user id =>
    have hvault : ¬ MaySpend signs (.stakeV2Pda user id) := by
      intro hspends
      cases hspends with
      | signer h => exact Bool.noConfusion (hsigns _ h)
      | stakeV2 _ h => exact hno h
    exact ⟨min_le_min_left _ (htok _ mintAddress hvault), hno⟩
  | _ => exact ⟨le_refl _, hno⟩

/-- Lamports move, and leave only whom they may leave. -/
theorem kept_lamports {l : Pubkey → ℕ}
    (hl : ∀ user, ¬ (Asset.lamports user).Authorized signs s → s.lamports user ≤ l user)
    (a : Asset) : a.Kept signs s { s with lamports := l } := by
  intro hno
  cases a with
  | lamports user => exact ⟨hl user hno, hno⟩
  | _ => exact ⟨le_refl _, hno⟩

/-- Tokens move, and leave only whom they may leave. -/
theorem kept_tokens (hsigns : ∀ k, signs k → k.isKeypair = true) {tok : Pubkey → Option ℕ}
    {supply : ℕ}
    (htok : ∀ owner mint, ¬ MaySpend signs owner →
      balances s.tokens (.associatedTokenAddress owner mint) ≤
        balances tok (.associatedTokenAddress owner mint)) (a : Asset) :
    a.Kept signs s { s with tokens := tok, mintSupply := supply } :=
  kept_funds hsigns (fun _ _ => le_refl _) htok a

theorem kept_transfer (hsigns : ∀ k, signs k → k.isKeypair = true) {owner dest mint : Pubkey}
    {n : ℕ} (howner : Spends signs R owner)
    (hok : s.transferTokens (.associatedTokenAddress owner mint)
      (.associatedTokenAddress dest mint) n = .ok s') (a : Asset) : a.Kept signs s s' := by
  obtain ⟨tok, rfl, hmoved, -⟩ := (s.transferTokens_spec _ _ n).elim hok
  refine kept_tokens hsigns (fun owner' mint' hno => hmoved.le fun heq => hno ?_) a
  cases heq
  exact howner.mono (fun _ => id) fun _ _ => trivial

theorem kept_burn (hsigns : ∀ k, signs k → k.isKeypair = true) {n : ℕ}
    (hok : s.burnTokens (.associatedTokenAddress .treasuryPda mintAddress) n = .ok s')
    (a : Asset) : a.Kept signs s s' := by
  obtain ⟨tok, rfl, -, hburned⟩ := (s.burnTokens_spec _ n).elim hok
  refine kept_tokens hsigns (fun owner' mint' hno => ?_) a
  have hbalance := hburned (.associatedTokenAddress owner' mint')
  split at hbalance
  case isTrue heq =>
    cases heq
    exact absurd .treasury hno
  case isFalse => omega

theorem kept_mint (hsigns : ∀ k, signs k → k.isKeypair = true) {n : ℕ}
    (hok : s.mintGodl (.associatedTokenAddress .treasuryPda mintAddress) n = .ok s')
    (a : Asset) : a.Kept signs s s' := by
  obtain ⟨tok, rfl, hminted⟩ := (s.mintGodl_spec _ n).elim hok
  refine kept_tokens hsigns (fun owner' mint' _ => ?_) a
  have hbalance := hminted (.associatedTokenAddress owner' mint')
  omega

/-- A token account that holds nothing is opened or closed. -/
theorem kept_emptyTokens (hsigns : ∀ k, signs k → k.isKeypair = true) {k : Pubkey}
    {o : Option ℕ} (hzero : balances s.tokens k = 0) (a : Asset) :
    a.Kept signs s { s with tokens := Function.update s.tokens k o } := by
  refine kept_tokens hsigns (fun owner' mint' _ => ?_) a
  by_cases hk : Pubkey.associatedTokenAddress owner' mint' = k
  · rw [hk, hzero]
    exact Nat.zero_le _
  · rw [balances_update_of_ne hk]

theorem kept_swap (hsigns : ∀ k, signs k → k.isKeypair = true) {l : Pubkey → ℕ}
    {tok : Pubkey → Option ℕ} (hl : ∀ k, ¬ IsSwapAccount k → l k = s.lamports k)
    (htok : ∀ k, ¬ IsSwapAccount k → tok k = s.tokens k) (a : Asset) :
    a.Kept signs s { s with lamports := l, tokens := tok } := by
  refine kept_funds hsigns (fun user hno => ?_) (fun owner mint hno => ?_) a
  · refine (hl user ?_).ge
    rintro ⟨mint, rfl | rfl⟩
    · exact hno (.inr (.inl rfl))
    · exact hno (.inr (.inl rfl))
  · have hsame : tok (.associatedTokenAddress owner mint) =
        s.tokens (.associatedTokenAddress owner mint) := by
      apply htok
      rintro ⟨mint', heq | heq⟩
      · cases heq
        exact hno .treasury
      · cases heq
        exact hno .goldVault
    rw [balances, balances, hsame]

/-! ## Records -/

theorem kept_miner (m : Miner)
    (h : signs m.authority ∨ MinerSwept signs s m ∨ MinerGrows s m) (a : Asset) :
    a.Kept signs s { s with miners := s.miners.put m } := by
  intro hno
  cases a with
  | minedSol user =>
    refine ⟨Store.view_le_view_put fun hk => ?_, hno⟩
    cases hk
    rcases h with h | ⟨hexecutor, -⟩ | ⟨hsol, -⟩
    · exact absurd (.inl h) hno
    · exact absurd (.inr hexecutor) hno
    · exact hsol
  | minedGodl user =>
    refine ⟨Store.view_le_view_put fun hk => ?_, hno⟩
    cases hk
    rcases h with h | ⟨-, hgodl⟩ | ⟨-, hgodl⟩
    · exact absurd h hno
    · exact hgodl
    · exact hgodl
  | _ => exact ⟨le_refl _, hno⟩

theorem kept_minerExtended (e : MinerExtended)
    (h : signs e.authority ∨
      s.minersExtended.view 0 MinerExtended.xautRewards e.pda ≤ e.xautRewards) (a : Asset) :
    a.Kept signs s { s with minersExtended := s.minersExtended.put e } := by
  intro hno
  cases a with
  | gold user =>
    refine ⟨Store.view_le_view_put fun hk => ?_, hno⟩
    cases hk
    exact h.resolve_left hno
  | _ => exact ⟨le_refl _, hno⟩

theorem kept_referrer (r : Referrer) (h : signs r.authority ∨ ReferrerGrows s r) (a : Asset) :
    a.Kept signs s { s with referrers := s.referrers.put r } := by
  intro hno
  cases a with
  | referralSol user =>
    refine ⟨Store.view_le_view_put fun hk => ?_, hno⟩
    cases hk
    exact (h.resolve_left hno).1
  | referralGodl user =>
    refine ⟨Store.view_le_view_put fun hk => ?_, hno⟩
    cases hk
    exact (h.resolve_left hno).2
  | _ => exact ⟨le_refl _, hno⟩

theorem kept_stake (x : Stake) (h : signs x.authority) (a : Asset) :
    a.Kept signs s { s with stakes := s.stakes.put x } := by
  intro hno
  cases a with
  | stake user =>
    refine ⟨Store.view_le_view_put fun hk => ?_, hno⟩
    cases hk
    exact absurd h hno
  | yield user =>
    refine ⟨Store.view_le_view_put fun hk => ?_, hno⟩
    cases hk
    exact absurd h hno
  | _ => exact ⟨le_refl _, hno⟩

/-! ## Automations -/

/-- An automation is written by its user, or by its executor, who stays in charge of the same. -/
theorem kept_automation (x : AutomationV2)
    (h : signs x.authority ∨ AutomationRuns signs s x) (a : Asset) :
    a.Kept signs s { s with automations := s.automations.put x } := by
  intro hno
  cases a with
  | automation user =>
    have hne : Pubkey.automationV2Pda user ≠ x.pda := by
      intro hk
      cases hk
      rcases h with h | ⟨old, balance, hold, hsigned | hexecutor, heq⟩
      · exact hno (.inl h)
      · have hauth : x.authority = old.authority := by rw [heq]
        exact hno (.inl (hauth ▸ hsigned))
      · exact hno (.inr ⟨old, hold, hexecutor⟩)
    refine ⟨Store.view_le_view_put fun hk => absurd hk hne, ?_⟩
    rw [Asset.Authorized, Executes, Store.get_put_of_ne _ hne]
    exact hno
  | minedSol user =>
    refine ⟨le_refl _, ?_⟩
    rintro (hsign | ⟨y, hy, hexecutor, hflag⟩)
    · exact hno (.inl hsign)
    · rw [Store.get_put] at hy
      split at hy
      case isFalse => exact hno (.inr ⟨y, hy, hexecutor, hflag⟩)
      case isTrue hk =>
        cases hy
        cases hk
        rcases h with h | ⟨old, balance, hold, -, rfl⟩
        · exact hno (.inl h)
        · exact hno (.inr ⟨old, hold, hexecutor, hflag⟩)
  | _ => exact ⟨le_refl _, hno⟩

theorem kept_closeAutomation {user : Pubkey} (h : signs user ∨ Executes signs s user) (a : Asset) :
    a.Kept signs s { s with automations := s.automations.erase (.automationV2Pda user) } := by
  intro hno
  cases a with
  | automation user' =>
    have hne : Pubkey.automationV2Pda user' ≠ .automationV2Pda user := by
      intro hk
      cases hk
      exact hno h
    constructor
    · rw [State.holding, State.holding, Store.view_erase, Function.update_of_ne hne]
    · rw [Asset.Authorized, Executes, Store.get_erase, if_neg hne]
      exact hno
  | minedSol user' =>
    refine ⟨le_refl _, ?_⟩
    rintro (hsign | ⟨y, hy, hexecutor, hflag⟩)
    · exact hno (.inl hsign)
    · rw [Store.get_erase] at hy
      split at hy
      · cases hy
      · exact hno (.inr ⟨y, hy, hexecutor, hflag⟩)
  | _ => exact ⟨le_refl _, hno⟩

/-! ## Stakes -/

/-- A stake is written by its owner, or without a loss for it. -/
theorem kept_stakeV2 (x : StakeV2Account) (h : OwnsStake signs x.address ∨ StakeKept signs s x)
    (a : Asset) : a.Kept signs s { s with stakesV2 := s.stakesV2.put x } := by
  intro hno
  have hkept : ∀ user id, ¬ signs user → Pubkey.stakeV2Pda user id = x.address →
      StakeKept signs s x := by
    intro user id huser hk
    rcases h with ⟨user', id', hk', hsign⟩ | h
    · cases hk.trans hk'
      exact absurd hsign huser
    · exact h
  cases a with
  | lamports user =>
    refine ⟨le_refl _, ?_⟩
    rintro (hsign | hkey | hsome)
    · exact hno (.inl hsign)
    · exact hno (.inr (.inl hkey))
    · rw [Store.get_put] at hsome
      split at hsome
      case isFalse => exact hno (.inr (.inr hsome))
      case isTrue hk =>
        rcases h with ⟨_, _, hk', -⟩ | ⟨old, hold, -⟩
        · rw [hk, hk'] at hno
          exact hno (.inr (.inl rfl))
        · refine hno (.inr (.inr ?_))
          rw [hk, hold]
          rfl
  | stakeV2 user id =>
    refine ⟨?_, hno⟩
    simp only [State.holding, Store.view_put, Function.update_apply]
    split
    case isFalse => exact le_refl _
    case isTrue hk =>
      obtain ⟨old, hold, -, hbalance, -⟩ := hkept user id hno hk
      rw [hk, Store.view_of_get hold]
      exact le_min hbalance (min_le_right _ _)
  | yieldV2 user id =>
    have huser : ¬ signs user := fun hsign => hno (.inl hsign)
    constructor
    · refine Store.view_le_view_put fun hk => ?_
      obtain ⟨old, hold, hpda, -, hrewards⟩ := hkept user id huser hk
      have hkey : old.address = x.address := s.stakesV2.key_of_get _ old hold
      rw [hk, Store.view_of_get hold, hpda, hkey]
      split
      case isFalse => exact Nat.zero_le _
      case isTrue hplace =>
        rcases hrewards with h | h | h
        · exact h.rewards
        · exact absurd (.inr ⟨old, hk ▸ hold, hplace.trans hkey.symm, h⟩) hno
        · rw [← hk] at hplace
          cases hplace
          exact absurd h huser
    · rintro (hsign | ⟨y, hy, hplace, hexecutor⟩)
      · exact huser hsign
      · rw [Store.get_put] at hy
        split at hy
        case isFalse => exact hno (.inr ⟨y, hy, hplace, hexecutor⟩)
        case isTrue hk =>
          cases hy
          obtain ⟨old, hold, hpda, -, hrewards⟩ := hkept user id huser hk
          have hkey : old.address = x.address := s.stakesV2.key_of_get _ old hold
          have hplace' : old.stake.pda = old.address := hpda ▸ hplace.trans hkey.symm
          rcases hrewards with h | h | h
          · exact hno (.inr ⟨old, hk ▸ hold, hplace', h.executor ▸ hexecutor⟩)
          · exact hno (.inr ⟨old, hk ▸ hold, hplace', h⟩)
          · rw [hkey, ← hk] at hplace'
            cases hplace'
            exact huser h
  | _ => exact ⟨le_refl _, hno⟩

theorem kept_closeStakeV2 {k : Pubkey}
    (h : OwnsStake signs k ∨ (signs s.config.admin ∧
      ∃ x, s.stakesV2.get k = some x ∧ x.stake.balance = 0 ∧ k ≠ x.stake.pda)) (a : Asset) :
    a.Kept signs s { s with stakesV2 := s.stakesV2.erase k } := by
  intro hno
  have hempty : ∀ user id, ¬ signs user → Pubkey.stakeV2Pda user id = k →
      ∃ x, s.stakesV2.get k = some x ∧ x.stake.balance = 0 ∧ k ≠ x.stake.pda := by
    rintro user id huser rfl
    rcases h with ⟨user', id', hk, hsign⟩ | ⟨-, h⟩
    · cases hk
      exact absurd hsign huser
    · exact h
  cases a with
  | lamports user =>
    refine ⟨le_refl _, ?_⟩
    rintro (hsign | hkey | hsome)
    · exact hno (.inl hsign)
    · exact hno (.inr (.inl hkey))
    · rw [Store.get_erase] at hsome
      split at hsome
      · cases hsome
      · exact hno (.inr (.inr hsome))
  | stakeV2 user id =>
    refine ⟨?_, hno⟩
    simp only [State.holding, Store.view_erase, Function.update_apply]
    split
    case isFalse => exact le_refl _
    case isTrue hk =>
      obtain ⟨x, hx, hzero, -⟩ := hempty user id hno hk
      rw [hk, Store.view_of_get hx, hzero, Nat.zero_min]
      exact Nat.zero_le _
  | yieldV2 user id =>
    have huser : ¬ signs user := fun hsign => hno (.inl hsign)
    constructor
    · simp only [State.holding, Store.view_erase, Function.update_apply]
      split
      case isFalse => exact le_refl _
      case isTrue hk =>
        obtain ⟨x, hx, -, hne⟩ := hempty user id huser hk
        have hkey : x.address = k := s.stakesV2.key_of_get _ x hx
        rw [hk, Store.view_of_get hx, if_neg (hkey ▸ hne.symm)]
    · rintro (hsign | ⟨y, hy, hplace, hexecutor⟩)
      · exact huser hsign
      · rw [Store.get_erase] at hy
        split at hy
        · cases hy
        · exact hno (.inr ⟨y, hy, hplace, hexecutor⟩)
  | _ => exact ⟨le_refl _, hno⟩

/-! ## Acts -/

/-- **Every act keeps the assets that it is not authorized to take away.** -/
theorem Act.kept (hsigns : ∀ k, signs k → k.isKeypair = true) (h : Act signs R s s')
    (a : Asset) : a.Kept signs s s' := by
  have hsame : ∀ (c : Config) (resized : Bool) (o : Singleton → Bool) (t : Treasury)
      (m : SolMotherlode) (otc : OtcTreasury) (g : GoldVault)
      (p : Store Pubkey PoolMember PoolMember.pda) (u : Store Pubkey OtcUser OtcUser.pda)
      (k : Pubkey) (n : Pubkey → Option Pubkey) (r : Store Pubkey Round Round.pda)
      (pr : Store Pubkey PoolRound PoolRound.pda) (b : Board) (v : Pubkey → Option Var)
      (e : List Event), a.Kept signs s { s with
        config := c, configResized := resized, opened := o, treasury := t, solMotherlode := m,
        otcTreasury := otc, goldVault := g, poolMembers := p, otcUsers := u, mintAuthority := k,
        assets := n, rounds := r, poolRounds := pr, board := b, vars := v, events := e } := by
    intros
    intro hno
    cases a <;> exact ⟨le_refl _, hno⟩
  cases h with
  | move dest hsource hn =>
    obtain ⟨l, heq, hmoved⟩ := State.moveLamports_spec dest hn
    rw [heq]
    refine kept_lamports (fun user hno => hmoved.le ?_) a
    rintro rfl
    exact hno hsource
  | transfer howner hok => exact kept_transfer hsigns howner hok a
  | burn _ hok => exact kept_burn hsigns hok a
  | mint _ hok => exact kept_mint hsigns hok a
  | openTokens hnone => exact kept_emptyTokens hsigns (balances_of_none hnone) a
  | closeTokens hzero => exact kept_emptyTokens hsigns (balances_of_eq hzero) a
  | swap _ _ hl htok => exact kept_swap hsigns hl htok a
  | miner _ m h => exact kept_miner m h a
  | minerExtended _ e h => exact kept_minerExtended e h a
  | automation _ x h => exact kept_automation x (h.imp_left And.right) a
  | closeAutomation _ h => exact kept_closeAutomation h a
  | referrer _ r h => exact kept_referrer r h a
  | stake _ x h => exact kept_stake x h a
  | stakeV2 _ x h => exact kept_stakeV2 x h a
  | closeStakeV2 _ h => exact kept_closeStakeV2 h a
  | game | log | books | otcBooks | openSingleton | config | poolMember | otcUser | asset
  | mintAuthority => apply hsame

/-- Acts in a row keep what none of them may take away. -/
theorem Acts.kept (hsigns : ∀ k, signs k → k.isKeypair = true) (h : Acts signs R s s')
    (a : Asset) : a.Kept signs s s' := by
  induction h with
  | refl => exact .refl s a
  | tail _ hact ih => exact ih.trans (hact.kept hsigns a)

end Acts

/-! ## More signatures -/

section Mono

variable {signs signs' : Pubkey → Prop} {R : Right → Prop} {s s' : State}

theorem Executes.mono (hsub : ∀ k, signs k → signs' k) {user : Pubkey}
    (h : Executes signs s user) : Executes signs' s user := by
  obtain ⟨a, ha, hexecutor⟩ := h
  exact ⟨a, ha, hsub _ hexecutor⟩

theorem MinerSwept.mono (hsub : ∀ k, signs k → signs' k) {m : Miner}
    (h : MinerSwept signs s m) : MinerSwept signs' s m := by
  obtain ⟨⟨a, ha, hexecutor, hflag⟩, hgodl⟩ := h
  exact ⟨⟨a, ha, hsub _ hexecutor, hflag⟩, hgodl⟩

theorem AutomationRuns.mono (hsub : ∀ k, signs k → signs' k) {a : AutomationV2}
    (h : AutomationRuns signs s a) : AutomationRuns signs' s a := by
  obtain ⟨old, balance, hold, hsigned, heq⟩ := h
  exact ⟨old, balance, hold, hsigned.imp (hsub _) (hsub _), heq⟩

theorem OwnsStake.mono (hsub : ∀ k, signs k → signs' k) {k : Pubkey} (h : OwnsStake signs k) :
    OwnsStake signs' k := by
  obtain ⟨user, id, hk, huser⟩ := h
  exact ⟨user, id, hk, hsub _ huser⟩

theorem StakeKept.mono (hsub : ∀ k, signs k → signs' k) {a : StakeV2Account}
    (h : StakeKept signs s a) : StakeKept signs' s a := by
  obtain ⟨old, hold, hpda, hbalance, hrewards⟩ := h
  exact ⟨old, hold, hpda, hbalance, hrewards.imp_right (.imp (hsub _) (hsub _))⟩

/-- Whoever has more signatures may do more. -/
theorem Act.mono (hsub : ∀ k, signs k → signs' k) (h : Act signs R s s') :
    Act signs' R s s' := by
  cases h with
  | move dest hsource hn => exact .move dest (hsource.imp_left (hsub _)) hn
  | transfer howner hok => exact .transfer (howner.mono hsub fun _ => id) hok
  | burn hmay hok => exact .burn hmay hok
  | mint hmay hok => exact .mint hmay hok
  | openTokens hnone => exact .openTokens hnone
  | closeTokens hzero => exact .closeTokens hzero
  | swap hmay hsign hl htok => exact .swap hmay (hsub _ hsign) hl htok
  | game hmay r p b v => exact .game hmay r p b v
  | log e => exact .log e
  | books t m g => exact .books t m g
  | otcBooks hmay o => exact .otcBooks hmay o
  | openSingleton w => exact .openSingleton w
  | config hmay c resized hsign =>
    exact .config hmay c resized (hsign.imp (hsub _) (And.imp_right (hsub _)))
  | miner hmay m h => exact .miner hmay m (h.imp (hsub _) (.imp_left (.mono hsub)))
  | minerExtended hmay e h => exact .minerExtended hmay e (h.imp_left (hsub _))
  | poolMember hmay p h => exact .poolMember hmay p (h.imp (hsub _) (.mono hsub))
  | automation hmay a h => exact .automation hmay a (h.imp (And.imp_right (hsub _)) (.mono hsub))
  | closeAutomation hmay h => exact .closeAutomation hmay (h.imp (hsub _) (.mono hsub))
  | referrer hmay r h => exact .referrer hmay r (h.imp_left (hsub _))
  | stake hmay x h => exact .stake hmay x (hsub _ h)
  | stakeV2 hmay a h => exact .stakeV2 hmay a (h.imp (.mono hsub) (.mono hsub))
  | closeStakeV2 hmay h => exact .closeStakeV2 hmay (h.imp (.mono hsub) (And.imp_left (hsub _)))
  | otcUser hmay o h => exact .otcUser hmay o (hsub _ h)
  | asset newOwner howner hasset =>
    exact .asset newOwner (howner.imp (hsub _) (And.imp_right (.mono hsub))) hasset
  | mintAuthority hmay k hsign => exact .mintAuthority hmay k (hsub _ hsign)

theorem Acts.mono (hsub : ∀ k, signs k → signs' k) (h : Acts signs R s s') :
    Acts signs' R s s' := by
  induction h with
  | refl => exact .refl
  | tail _ hact ih => exact ih.tail (hact.mono hsub)

end Mono

/-! ## Runs -/

section Runs

variable {env : Env} {s t u : State} {h : History} {a : Asset}

instance (accounts : List AccountInfo) (k : Pubkey) : Decidable (signers accounts k) :=
  inferInstanceAs (Decidable (∃ info ∈ accounts, info.isSigner = true ∧ info.key = k))

/-- The keys that signed a call of the program, and nothing in a step of the rest of the
chain. -/
def Label.signers : Label → Pubkey → Prop
  | .call _ _ accounts _ => Godl.signers accounts
  | .world => fun _ => False

/-- The keys that signed a call of a run. -/
def History.signers (h : History) (k : Pubkey) : Prop := ∃ x ∈ h, x.label.signers k

/-- The asset lies in accounts that only the program writes. -/
def Asset.IsBooked : Asset → Prop
  | .lamports _ => False
  | .tokens owner _ => owner.isOwn = true
  | _ => True

theorem History.signers_isKeypair {k : Pubkey} (hk : h.signers k) : k.isKeypair = true := by
  obtain ⟨x, -, hx⟩ := hk
  cases hlabel : x.label with
  | call clock ix accounts cpi =>
    rw [hlabel] at hx
    exact Godl.signers_isKeypair hx
  | world =>
    rw [hlabel] at hx
    exact hx.elim

/-- The rest of the chain keeps what is booked. -/
theorem WorldStep.kept {signs : Pubkey → Prop} (hworld : WorldStep s u) (ha : a.IsBooked) :
    a.Kept signs s u := by
  intro hno
  rw [hworld.accounts]
  cases a with
  | lamports user => exact ha.elim
  | tokens owner mint => exact ⟨hworld.tokens owner mint ha, hno⟩
  | stakeV2 user id => exact ⟨min_le_min_left _ (hworld.tokens _ mintAddress rfl), hno⟩
  | _ => exact ⟨le_refl _, hno⟩

/-- A step keeps what those who signed may not take away. -/
theorem Step.kept {signs : Pubkey → Prop} {l : Label}
    (hsigns : ∀ k, signs k → k.isKeypair = true) (hsub : ∀ k, l.signers k → signs k)
    (ha : a.IsBooked ∨ l ≠ .world) (hstep : Step env anyInstruction s l u) :
    a.Kept signs s u := by
  cases hstep with
  | call hallowed hok =>
    have hacts := (processInstruction_acts env _ _ _ _ s).elim hok
    exact (Acts.mono hsub hacts).kept hsigns a
  | world hworld => exact hworld.kept (ha.resolve_right fun h => h rfl)

/-- **Nobody loses what is theirs unless they sign.**  In every run whose calls were signed by
nobody who may take an asset away when the run starts, the asset does not shrink, whatever the
rest of the chain does; and a wallet does not shrink while only this program is called. -/
theorem holding_le_of_run (hrun : Run (Step env anyInstruction) s h t)
    (ha : a.IsBooked ∨ ∀ x ∈ h, x.label ≠ .world)
    (hno : ¬ a.Authorized h.signers s) :
    s.holding a ≤ t.holding a ∧ ¬ a.Authorized h.signers t := by
  refine hrun.keeps (P := fun u => s.holding a ≤ u.holding a ∧ ¬ a.Authorized h.signers u)
    ⟨le_refl _, hno⟩ ?_
  rintro x hx hstep ⟨hle, hno'⟩
  have hkept : a.Kept h.signers x.before x.after :=
    hstep.kept (fun _ => History.signers_isKeypair) (fun k hk => ⟨x, hx, hk⟩)
      (ha.imp_right fun hcalls => hcalls x hx)
  obtain ⟨hle', hno''⟩ := hkept hno'
  exact ⟨hle.trans hle', hno''⟩

/-- Who signs in a script. -/
theorem History.exists_of_signers {calls : List Call} {k : Pubkey}
    (hlabels : h.map (·.label) = (calls.map Call.label).reverse) (hk : h.signers k) :
    ∃ c ∈ calls, Godl.signers c.accounts k := by
  obtain ⟨x, hx, hsign⟩ := hk
  obtain ⟨c, hc, heq⟩ := exists_call_of_mem hlabels hx
  rw [← heq] at hsign
  exact ⟨c, hc, hsign⟩

/-- Player 7 has won and waits. -/
def State.won (roundId : ℕ) (value : Hash) : State :=
  { State.table roundId value with
    miners := Store.empty.put { Miner.zeroed with authority := .key 7, rewardsSol := 1000 } }

/-- Player 8 bets, the crank resets the round and somebody checkpoints player 8. -/
def otherPlayers : List Call :=
  [.deploy 11 8 1 500 1 true 25#256, .reset 400 1 (.minerPda (.key 8)) (.poolMemberPda (.key 8)),
   .checkpoint 500 9 8 1 (.poolRoundPda 1) (.poolMemberPda (.key 8))]

/-- The others can play, and their signers are those of their calls. -/
theorem exists_run_otherPlayers : ∃ h t, Run (Step .plain anyInstruction) (.won 1 25#256) h t ∧
    h.map (·.label) = (otherPlayers.map Call.label).reverse ∧
    ∀ k, History.signers h k → ∃ c ∈ otherPlayers, signers c.accounts k := by
  obtain ⟨h, t, hrun, hlabels, -⟩ := exists_run_of_perform .plain anyInstruction (.won 1 25#256)
    otherPlayers (fun _ => true) (fun _ _ => trivial) (by decide +kernel)
  exact ⟨h, t, hrun, hlabels, fun k => History.exists_of_signers hlabels⟩

/-- While others play, player 7 keeps what it won. -/
theorem holding_le_of_run_won : ∃ h t, Run (Step .plain anyInstruction) (.won 1 25#256) h t ∧
    h.map (·.label) = (otherPlayers.map Call.label).reverse ∧
    (State.won 1 25#256).holding (.minedSol (.key 7)) ≤ t.holding (.minedSol (.key 7)) := by
  obtain ⟨h, t, hrun, hlabels, hsigners⟩ := exists_run_otherPlayers
  have hno : ¬ (Asset.minedSol (.key 7)).Authorized (History.signers h) (.won 1 25#256) := by
    rintro (hsign | ⟨a, ha, -⟩)
    · exact absurd (hsigners (.key 7) hsign) (by decide)
    · cases ha
  have hbooked : (Asset.minedSol (.key 7)).IsBooked := trivial
  exact ⟨h, t, hrun, hlabels, (holding_le_of_run hrun (.inl hbooked) hno).1⟩

end Runs

end Godl
