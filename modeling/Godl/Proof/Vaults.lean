import Godl.Lib.Coverage
import Godl.Proof.Untouched
import Godl.Proof.Frames

/-!
# Vaults

Stakes, referrers and the OTC desk have token accounts of their own.  What is booked for them
should lie there: the balance of a stake, the GODL of a referrer, the stock of the desk.

## Main definitions

* `KeepsVault` — whose token accounts are vaults.
* `State.vaulted` — how much GODL should lie in a vault.
* `State.VaultsBacked` — it does.
* `State.VaultsCover s δ` — it does, and `δ` more.
-/

namespace Godl

open Lib

/-- Whether GODL is booked for an address. -/
def KeepsVault : Pubkey → Prop
  | .stakePda _ | .stakeV2Pda _ _ | .referrerPda _ | .otcTreasuryPda => True
  | _ => False

/-- The GODL that is booked for an address. -/
def State.vaulted (s : State) : Pubkey → ℕ
  | .stakePda user => s.stakes.view 0 Stake.balance (.stakePda user)
  | .stakeV2Pda user id => s.stakesV2.view 0 (fun a => a.stake.balance) (.stakeV2Pda user id)
  | .referrerPda user => s.referrers.view 0 Referrer.rewardsGodl (.referrerPda user)
  | .otcTreasuryPda => s.otcTreasury.godlBalance
  | _ => 0

/-- Every vault holds what is booked for it. -/
def State.VaultsBacked (s : State) : Prop := ∀ k, s.vaulted k ≤ s.tokensOf mintAddress k

/-- The vaults hold what is booked for them and `δ` more. -/
def State.VaultsCover (s : State) (δ : Pubkey → ℤ) : Prop :=
  Covered KeepsVault s.vaulted (s.tokensOf mintAddress) δ

section Rules

variable {s s' : State} {δ : Pubkey → ℤ} {k : Pubkey} {n : ℕ}

theorem State.vaulted_of_not_keepsVault (hk : ¬ KeepsVault k) : s.vaulted k = 0 := by
  cases k with
  | stakePda user => exact absurd trivial hk
  | stakeV2Pda user id => exact absurd trivial hk
  | referrerPda user => exact absurd trivial hk
  | otcTreasuryPda => exact absurd trivial hk
  | _ => rfl

theorem State.VaultsBacked.covers (h : s.VaultsBacked) : s.VaultsCover 0 := by
  intro k _
  have := h k
  simp only [Pi.zero_apply]
  omega

theorem State.VaultsCover.backed (h : s.VaultsCover δ) (hδ : ∀ k, KeepsVault k → 0 ≤ δ k) :
    s.VaultsBacked := by
  intro k
  by_cases hk : KeepsVault k
  · exact Covered.exact h hδ hk
  · rw [State.vaulted_of_not_keepsVault hk]
    exact Nat.zero_le _

namespace State.VaultsCover

theorem mono {ε : Pubkey → ℤ} (h : s.VaultsCover δ) (hδ : ∀ k, KeepsVault k → ε k ≤ δ k) :
    s.VaultsCover ε := Covered.mono h hδ

theorem treasury (h : s.VaultsCover δ) (t : Treasury) :
    ({ s with treasury := t } : State).VaultsCover δ := h

/-- Funds move, but no GODL. -/
theorem funds {l : Pubkey → ℕ} {tok : Pubkey → Option ℕ} {supply : ℕ} (h : s.VaultsCover δ)
    (htok : balances tok = balances s.tokens) :
    ({ s with lamports := l, tokens := tok, mintSupply := supply } : State).VaultsCover δ := by
  refine Covered.grow h fun k _ => ?_
  change balances s.tokens _ ≤ balances tok _
  rw [htok]

/-- GODL moves from one account to another. -/
theorem moved {tok : Pubkey → Option ℕ} {owner owner' : Pubkey} (h : s.VaultsCover δ)
    (hmoved : Moved (balances s.tokens) (balances tok)
      (.associatedTokenAddress owner mintAddress) (.associatedTokenAddress owner' mintAddress) n) :
    ({ s with tokens := tok } : State).VaultsCover (δ - gain owner n + gain owner' n) := by
  refine Covered.transfer h fun k => ?_
  have hbalance := hmoved.balance (.associatedTokenAddress k mintAddress)
  simp only [Pubkey.associatedTokenAddress.injEq, and_true] at hbalance
  exact hbalance

theorem putStake (h : s.VaultsCover δ) {x : Stake} {d : ℕ} (hkey : x.pda = k)
    (hd : s.stakes.view 0 Stake.balance k = d) :
    ({ s with stakes := s.stakes.put x } : State).VaultsCover (δ - gain k (x.balance - d)) := by
  subst hkey hd
  have hvaulted : ({ s with stakes := s.stakes.put x } : State).vaulted =
      Function.update s.vaulted x.pda x.balance := by
    funext j
    cases j with
    | stakePda user =>
      simp only [vaulted, Store.view_put, Function.update_apply, Stake.pda,
        Pubkey.stakePda.injEq]
    | _ => rw [Function.update_of_ne (by simp [Stake.pda])]; rfl
  rw [VaultsCover, hvaulted]
  exact Covered.rebook h x.pda x.balance

theorem putReferrer (h : s.VaultsCover δ) {r : Referrer} {d : ℕ} (hkey : r.pda = k)
    (hd : s.referrers.view 0 Referrer.rewardsGodl k = d) :
    ({ s with referrers := s.referrers.put r } : State).VaultsCover
      (δ - gain k (r.rewardsGodl - d)) := by
  subst hkey hd
  have hvaulted : ({ s with referrers := s.referrers.put r } : State).vaulted =
      Function.update s.vaulted r.pda r.rewardsGodl := by
    funext j
    cases j with
    | referrerPda user =>
      simp only [vaulted, Store.view_put, Function.update_apply, Referrer.pda,
        Pubkey.referrerPda.injEq]
    | _ => rw [Function.update_of_ne (by simp [Referrer.pda])]; rfl
  rw [VaultsCover, hvaulted]
  exact Covered.rebook h r.pda r.rewardsGodl

theorem otcTreasury (h : s.VaultsCover δ) (o : OtcTreasury) :
    ({ s with otcTreasury := o } : State).VaultsCover
      (δ - gain .otcTreasuryPda (o.godlBalance - s.otcTreasury.godlBalance)) := by
  have hvaulted : ({ s with otcTreasury := o } : State).vaulted =
      Function.update s.vaulted .otcTreasuryPda o.godlBalance := by
    funext j
    cases j with
    | otcTreasuryPda => rw [Function.update_self]; rfl
    | _ => rw [Function.update_of_ne (by simp)]; rfl
  rw [VaultsCover, hvaulted]
  exact Covered.rebook h .otcTreasuryPda o.godlBalance

/-- A v2 stake is written.  One at the address of a key pair has no vault. -/
theorem putStakeV2 (h : s.VaultsCover δ) {a : StakeV2Account} {d : ℕ} (hkey : a.address = k)
    (hd : s.stakesV2.view 0 (fun a => a.stake.balance) k = d) :
    ({ s with stakesV2 := s.stakesV2.put a } : State).VaultsCover
      (δ - gain k (a.stake.balance - d)) := by
  subst hkey hd
  intro j hj
  have hbefore := h j hj
  have hne : ∀ j : Pubkey, j.isStakeAddress = false → j ≠ a.address := by
    rintro j hj rfl
    rw [a.isStakeAddress_address] at hj
    cases hj
  cases j with
  | stakeV2Pda user id =>
    simp only [vaulted, gain, Pi.sub_apply, Store.view_put, Function.update_apply] at hbefore ⊢
    change _ ≤ (s.tokensOf mintAddress (.stakeV2Pda user id) : ℤ)
    split_ifs with heq
    · rw [← heq]
      omega
    · omega
  | stakePda user =>
    rw [Pi.sub_apply, gain_of_ne (hne (.stakePda user) rfl), sub_zero]
    exact hbefore
  | referrerPda user =>
    rw [Pi.sub_apply, gain_of_ne (hne (.referrerPda user) rfl), sub_zero]
    exact hbefore
  | otcTreasuryPda =>
    rw [Pi.sub_apply, gain_of_ne (hne .otcTreasuryPda rfl), sub_zero]
    exact hbefore
  | _ => exact hj.elim

/-- A v2 stake is deleted, and what its vault lacks is no longer missed. -/
theorem eraseStakeV2 (h : s.VaultsCover δ) (hk : k.isStakeAddress = true) :
    ({ s with stakesV2 := s.stakesV2.erase k } : State).VaultsCover (Function.update δ k 0) := by
  intro j hj
  have hbefore := h j hj
  have hne : ∀ j : Pubkey, j.isStakeAddress = false → j ≠ k := by
    rintro j hj rfl
    rw [hk] at hj
    cases hj
  cases j with
  | stakeV2Pda user id =>
    simp only [vaulted, Store.view_erase, Function.update_apply] at hbefore ⊢
    change _ ≤ (s.tokensOf mintAddress (.stakeV2Pda user id) : ℤ)
    split_ifs <;> omega
  | stakePda user =>
    rw [Function.update_of_ne (hne (.stakePda user) rfl)]
    exact hbefore
  | referrerPda user =>
    rw [Function.update_of_ne (hne (.referrerPda user) rfl)]
    exact hbefore
  | otcTreasuryPda =>
    rw [Function.update_of_ne (hne .otcTreasuryPda rfl)]
    exact hbefore
  | _ => exact hj.elim

end State.VaultsCover

/-- Whoever may not touch vaults leaves them covered. -/
theorem State.VaultsCover.untouched {R : Right → Prop} (h : s.VaultsCover δ)
    (hsame : Untouched R s s') (hstakes : ¬ R .stakes) (hvaults : ¬ R .vaults)
    (hreferrals : ¬ R .referrals) (hotc : ¬ R .otc) : s'.VaultsCover δ := by
  have hvaulted : s'.vaulted = s.vaulted := by
    funext k
    cases k with
    | stakePda user => rw [vaulted, vaulted, (hsame.stakes hstakes).1]
    | stakeV2Pda user id => rw [vaulted, vaulted, (hsame.stakes hstakes).2]
    | referrerPda user => rw [vaulted, vaulted, hsame.referrals hreferrals]
    | otcTreasuryPda => rw [vaulted, vaulted, (hsame.otc hotc).1]
    | _ => rfl
  rw [VaultsCover, hvaulted]
  refine Covered.grow h fun k hk => hsame.vaults k mintAddress fun hspends => ?_
  cases hspends with
  | signer hkeypair =>
    cases k with
    | key bytes => exact hk
    | _ => cases hkeypair
  | stake hmay => exact hstakes hmay
  | stakeV2 hmay => exact hvaults hmay
  | referrer hmay => exact hreferrals hmay
  | otcTreasury hmay => exact hotc hmay
  | treasury | goldVault => exact hk

/-! ## Operations -/

theorem send_vaults (h : s.VaultsCover δ) (source dest : Pubkey) (n : ℕ) :
    Ensures (s.send source dest n) fun s' => s'.VaultsCover δ := by
  refine Ensures.mono (s.send_spec source dest n) ?_
  rintro _ ⟨l, rfl, -⟩
  exact h

theorem collect_vaults (h : s.VaultsCover δ) (dest : Pubkey) (n : ℕ) (payer : AccountInfo) :
    Ensures (s.collect dest n payer) fun s' =>
      ∃ l, s' = { s with lamports := l } ∧ s'.VaultsCover δ := by
  refine Ensures.mono (s.collect_spec dest n payer) ?_
  rintro _ ⟨l, rfl, -⟩
  exact ⟨l, rfl, h⟩

theorem openTokenAccount_vaults (h : s.VaultsCover δ) (info : AccountInfo) (owner mint : Pubkey)
    (payer : AccountInfo) :
    Ensures (s.openTokenAccount info owner mint payer) fun s' =>
      info.key = .associatedTokenAddress owner mint ∧
      ∃ l tok, s' = { s with lamports := l, tokens := tok } ∧ s'.VaultsCover δ := by
  refine Ensures.mono (s.openTokenAccount_spec info owner mint payer) ?_
  rintro _ ⟨hkey, l, tok, rfl, -, htok⟩
  exact ⟨hkey, l, tok, rfl, h.funds htok⟩

theorem createAccount_vaults (h : s.VaultsCover δ) (target : AccountInfo) (len : ℕ)
    (payer : AccountInfo) :
    Ensures (s.createAccount target len payer) fun s' =>
      s.dataIsEmpty target.key = true ∧ ∃ l, s' = { s with lamports := l } ∧ s'.VaultsCover δ := by
  refine Ensures.mono (s.createAccount_spec target len payer) ?_
  rintro _ ⟨hempty, l, rfl, -⟩
  exact ⟨hempty, l, rfl, h⟩

theorem transferTokens_vaults (h : s.VaultsCover δ) {source dest owner owner' : Pubkey} (n : ℕ)
    (hsource : source = .associatedTokenAddress owner mintAddress)
    (hdest : dest = .associatedTokenAddress owner' mintAddress) :
    Ensures (s.transferTokens source dest n) fun s' =>
      ∃ tok, s' = { s with tokens := tok } ∧
        s'.VaultsCover (δ - gain owner n + gain owner' n) := by
  subst hsource hdest
  refine Ensures.mono (s.transferTokens_spec _ _ n) ?_
  rintro _ ⟨tok, rfl, hmoved, -⟩
  exact ⟨tok, rfl, h.moved hmoved⟩

theorem transferTokensFrom_vaults (h : s.VaultsCover δ) {authority : AccountInfo}
    {source dest owner' : Pubkey} (n : ℕ)
    (hsource : source = .associatedTokenAddress authority.key mintAddress)
    (hdest : dest = .associatedTokenAddress owner' mintAddress) :
    Ensures (s.transferTokensFrom authority source dest n) fun s' =>
      ∃ tok, s' = { s with tokens := tok } ∧
        s'.VaultsCover (δ - gain authority.key n + gain owner' n) := by
  simp only [State.transferTokensFrom, ensures_bind, ensures_require]
  exact fun _ => transferTokens_vaults h n hsource hdest

theorem closeTokenAccount_vaults (h : s.VaultsCover δ) (source dest : Pubkey) :
    Ensures (s.closeTokenAccount source dest) fun s' =>
      ∃ l tok, s' = { s with lamports := l, tokens := tok } ∧ s'.VaultsCover δ := by
  refine Ensures.mono (s.closeTokenAccount_spec source dest) ?_
  rintro _ ⟨l, tok, rfl, -, htok⟩
  exact ⟨l, tok, rfl, h.funds htok⟩

/-- The treasury, which keeps no vault, burns. -/
theorem burnTokens_vaults (h : s.VaultsCover δ) {source : Pubkey} (n : ℕ)
    (hsource : source = .associatedTokenAddress .treasuryPda mintAddress) :
    Ensures (s.burnTokens source n) fun s' =>
      ∃ tok supply, s' = { s with tokens := tok, mintSupply := supply } ∧ s'.VaultsCover δ := by
  subst hsource
  refine Ensures.mono (s.burnTokens_spec _ n) ?_
  rintro _ ⟨tok, rfl, -, hburned⟩
  refine ⟨tok, _, rfl, Covered.grow h fun k hk => ?_⟩
  have hbalance := hburned (.associatedTokenAddress k mintAddress)
  split at hbalance
  case isTrue heq =>
    cases heq
    exact hk.elim
  case isFalse => exact hbalance.ge

end Rules

end Godl
