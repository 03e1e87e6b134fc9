import Godl.Proof.Vaults
import Godl.Proof.Merge
import Godl.Proof.PolicyHandlers

/-!
# Instructions that write what is booked for vaults

Each moves as many tokens as it books, so that vaults that were backed stay backed.  The checks
that some of them make at their end are not needed for this.

## Main definitions

* the `*_vaults` lemmas.
-/

namespace Godl

open Lib

theorem KeepsVault.ne {j k : Pubkey} (hk : KeepsVault k) (hj : ¬ KeepsVault j) : k ≠ j := by
  rintro rfl
  exact hj hk

/-- A signer keeps no vault. -/
theorem signer_keepsNoVault {info : AccountInfo} (hsigner : info.isSigner = true) :
    ¬ KeepsVault info.key := by
  have hkey := info.isKeypair_of_isSigner hsigner
  intro hk
  cases hinfo : info.key with
  | key bytes =>
    rw [hinfo] at hk
    exact hk
  | _ =>
    rw [hinfo] at hkey
    cases hkey

/-! ## What the methods of a stake do to its balance -/

namespace Stake

theorem updateRewards_balance (x : Stake) (t : Treasury) :
    Ensures (x.updateRewards t) fun x' => x'.pda = x.pda ∧ x'.balance = x.balance := by
  refine Ensures.mono (x.updateRewards_spec t) fun x' hx' => ⟨?_, hx'.2.1⟩
  rw [Stake.pda, Stake.pda, hx'.1]

theorem withdraw_balance (x : Stake) (amount : ℕ) (clock : Clock) (t : Treasury) :
    Ensures (x.withdraw amount clock t) fun r =>
      r.2.1.pda = x.pda ∧ r.2.1.balance + r.1 = x.balance := by
  simp only [withdraw, ensures_bind, ensures_subU64, ensures_pure]
  refine Ensures.mono (updateRewards_balance x t) fun y hy _ => ?_
  obtain ⟨hpda, hbalance⟩ := hy
  have hle := Nat.min_le_left y.balance amount
  exact ⟨hpda, by omega⟩

theorem claim_balance (x : Stake) (amount : ℕ) (clock : Clock) (t : Treasury) :
    Ensures (x.claim amount clock t) fun r => r.2.pda = x.pda ∧ r.2.balance = x.balance := by
  simp only [claim, ensures_bind, ensures_pure]
  exact updateRewards_balance x t

end Stake

namespace StakeV2

/-- A deposit adds what it takes. -/
theorem deposit_paid (x : StakeV2) (amount : ℕ) (clock : Clock) (t : Treasury) (sender : ℕ) :
    Ensures (x.deposit amount clock t sender) fun r => x.balance + r.1 = r.2.1.balance := by
  simp only [deposit, ensures_bind, ensures_addU64, ensures_pure]
  refine Ensures.mono (updateRewards_grown x t) fun y hy => ?_
  refine ensures_of_forall fun _ _ => ensures_of_forall fun _ => ensures_of_forall fun _ => ?_
  simp only [hy.2]

theorem reweigh_balance (x : StakeV2) (t : Treasury) {change : StakeV2 → StakeV2}
    (hchange : ∀ y, (change y).balance = y.balance) :
    Ensures (x.reweigh t change) fun r => r.1.balance = x.balance := by
  simp only [reweigh, ensures_bind, ensures_pure]
  refine Ensures.mono (updateRewards_grown x t) fun y hy => ?_
  refine ensures_of_forall fun _ => ensures_of_forall fun _ => ensures_of_forall fun _ => ?_
  exact (hchange y).trans hy.2

theorem stakeNft_balance (x : StakeV2) (t : Treasury) :
    Ensures (x.stakeNft t) fun r => r.1.balance = x.balance := by
  unfold stakeNft
  split
  · exact ensures_error.2 trivial
  · exact reweigh_balance x t fun _ => rfl

theorem unstakeNft_balance (x : StakeV2) (t : Treasury) :
    Ensures (x.unstakeNft t) fun r => r.1.balance = x.balance := by
  unfold unstakeNft
  split
  · exact ensures_error.2 trivial
  · exact reweigh_balance x t fun _ => rfl

end StakeV2

variable {s : State} {δ : Pubkey → ℤ}

/-! ## Version 1 -/

/-- A withdrawal moves what it takes off the balance. -/
theorem withdrawStake_covers (hs : s.VaultsBacked) (clock : Clock) (amount : ℕ) {signerInfo
    recipientInfo stakeInfo stakeTokensInfo : AccountInfo} {x : Stake}
    (hkey : stakeInfo.key = .stakePda signerInfo.key)
    (hx : s.stakes.get stakeInfo.key = some x)
    (htokens : stakeTokensInfo.key = .associatedTokenAddress stakeInfo.key mintAddress) :
    Ensures (s.openTokenAccount recipientInfo signerInfo.key mintAddress signerInfo) fun s₁ =>
      Ensures (x.withdraw amount clock s₁.treasury) fun r =>
        Ensures (State.transferTokens { s₁ with
          stakes := s₁.stakes.put r.2.1, treasury := r.2.2 } stakeTokensInfo.key recipientInfo.key
          r.1) fun s₂ => s₂.VaultsBacked ∧ s₂.vaulted stakeInfo.key = r.2.1.balance := by
  refine Ensures.mono (openTokenAccount_vaults hs.covers _ _ _ _) ?_
  rintro _ ⟨hrecipient, l, tok, rfl, hopen⟩
  refine Ensures.mono (x.withdraw_balance amount clock _) fun r hr => ?_
  obtain ⟨hpda, hbalance⟩ := hr
  have hput := (hopen.putStake (x := r.2.1) (k := stakeInfo.key) (d := x.balance)
    (hpda.trans (s.stakes.key_of_get _ x hx)) (Store.view_of_get hx)).treasury r.2.2
  refine Ensures.mono (transferTokens_vaults hput r.1 htokens hrecipient) ?_
  rintro _ ⟨tok', rfl, hmoved⟩
  refine ⟨hmoved.backed fun k _ => ?_, ?_⟩
  · simp only [gain, Pi.sub_apply, Pi.add_apply, Pi.zero_apply]
    split_ifs <;> omega
  · have hself : r.2.1.pda = .stakePda signerInfo.key := by
      rw [hpda, s.stakes.key_of_get _ x hx, hkey]
    rw [hkey, State.vaulted, Store.view_put, hself, Function.update_self]

theorem processWithdraw_vaults (hs : s.VaultsBacked) (clock : Clock) (amount : ℕ) (signerInfo
    mintInfo recipientInfo stakeInfo stakeTokensInfo treasuryInfo systemProgram tokenProgram
    associatedTokenProgram : AccountInfo) :
    Ensures (processWithdraw clock amount signerInfo mintInfo recipientInfo stakeInfo
      stakeTokensInfo treasuryInfo systemProgram tokenProgram associatedTokenProgram s)
      State.VaultsBacked := by
  simp only [processWithdraw, ensures_bind, ensures_require, ensures_fromOption, ensures_pure]
  intro _ hmint _ hkey x hx _ htokens _ _ _ _ _ _
  rw [hmint] at htokens ⊢
  refine Ensures.mono (withdrawStake_covers hs clock amount hkey hx htokens) fun s₁ hs₁ => ?_
  refine Ensures.mono hs₁ fun r hr => Ensures.mono hr fun s₂ hs₂ _ _ _ _ => hs₂.1

theorem processClaimYield_vaults (hs : s.VaultsBacked) (clock : Clock) (amount : ℕ) (signerInfo
    mintInfo recipientInfo stakeInfo treasuryInfo treasuryTokensInfo systemProgram tokenProgram
    associatedTokenProgram : AccountInfo) :
    Ensures (processClaimYield clock amount signerInfo mintInfo recipientInfo stakeInfo
      treasuryInfo treasuryTokensInfo systemProgram tokenProgram associatedTokenProgram s)
      State.VaultsBacked := by
  simp only [processClaimYield, ensures_bind, ensures_require, ensures_fromOption, ensures_pure]
  intro _ hmint _ hkey x hx _ htreasury _ htokens _ _ _ _ _
  refine Ensures.mono (openTokenAccount_vaults hs.covers _ _ _ _) ?_
  rintro _ ⟨hrecipient, l, tok, rfl, hopen⟩
  refine Ensures.mono (x.claim_balance amount clock _) fun r hr => ?_
  obtain ⟨hpda, hbalance⟩ := hr
  have hput := hopen.putStake (x := r.2) (k := stakeInfo.key) (d := x.balance)
    (hpda.trans (s.stakes.key_of_get _ x hx)) (Store.view_of_get hx)
  rw [hmint] at hrecipient htokens
  rw [htreasury.1] at htokens
  refine Ensures.mono (transferTokens_vaults hput r.1 htokens hrecipient) ?_
  rintro s₂ ⟨tok', -, hmoved⟩
  refine hmoved.backed fun k hk => ?_
  have hne : k ≠ Singleton.treasury.pda := hk.ne fun h => h
  simp only [gain, Pi.sub_apply, Pi.add_apply, Pi.zero_apply, hne, if_false]
  split_ifs <;> omega

/-! ## Version 2 -/

/-- A stake in hand is written back with another balance. -/
theorem State.VaultsCover.putBack (h : s.VaultsCover δ) {k : Pubkey} {a : StakeV2Account}
    (ha : s.stakesV2.get k = some a) (x : StakeV2) (t : Treasury) :
    ({ s.putStakeV2 a x with treasury := t } : State).VaultsCover
      (δ - gain k (x.balance - a.stake.balance)) :=
  (h.putStakeV2 (a := { a with stake := x }) (s.stakesV2.key_of_get k a ha)
    (Store.view_of_get ha)).treasury t

/-- A stake in hand is written back with the same balance. -/
theorem State.VaultsBacked.putBack (h : s.VaultsBacked) {k : Pubkey} {a : StakeV2Account}
    (ha : s.stakesV2.get k = some a) {x : StakeV2} (hbalance : x.balance = a.stake.balance)
    (t : Treasury) : ({ s.putStakeV2 a x with treasury := t } : State).VaultsBacked := by
  refine (h.covers.putBack ha x t).backed fun k _ => ?_
  simp [hbalance]

/-- A stake is opened empty and written again once it is filled. -/
theorem openStakeV2_vaults (h : s.VaultsCover δ) (authority : Pubkey) (id : ℕ) {x : StakeV2}
    (hx : x.balance = 0) (hnone : s.stakesV2.get (.stakeV2Pda authority id) = none) :
    ({ s with stakesV2 := s.stakesV2.put (.derived authority id x) } : State).VaultsCover δ := by
  refine (h.putStakeV2 (a := .derived authority id x) rfl (Store.view_of_none hnone)).mono ?_
  intro k _
  have hbalance : (StakeV2Account.derived authority id x).stake.balance = 0 := hx
  simp [hbalance]

/-- A stake that was just written back. -/
theorem State.get_putStakeV2 {k : Pubkey} {a : StakeV2Account} (h : s.stakesV2.get k = some a)
    (x : StakeV2) : (s.putStakeV2 a x).stakesV2.get k = some { a with stake := x } := by
  rw [← s.stakesV2.key_of_get k a h]
  exact get_restaked s a x

/-- What is booked for the vault of a stake. -/
theorem State.vaulted_of_stakesV2 {user : Pubkey} {id : ℕ} {a : StakeV2Account}
    (h : s.stakesV2.get (.stakeV2Pda user id) = some a) :
    s.vaulted (.stakeV2Pda user id) = a.stake.balance := by
  rw [vaulted, Store.view_of_get h]

/-- A vault that is backed passes the check. -/
theorem State.VaultsBacked.check (hs : s.VaultsBacked) {k tokens : Pubkey} {balance n : ℕ}
    (hvaulted : s.vaulted k = balance) (htokens : tokens = .associatedTokenAddress k mintAddress)
    (hn : s.tokens tokens = some n) : balance ≤ n := by
  subst hvaulted htokens
  have hbacked := hs k
  rwa [tokensOf, tokensAt, hn] at hbacked

/-- A deposit fills a new stake with what the signer pays. -/
theorem fillStakeV2_covers (hs : s.VaultsBacked) (clock : Clock) (id amount n : ℕ) {signerInfo
    senderInfo stakeInfo : AccountInfo} (stakeTokensInfo : AccountInfo)
    (x₀ : Treasury → StakeV2) (hx₀ : ∀ t, (x₀ t).balance = 0) (hsigner : signerInfo.isSigner = true)
    (hkey : stakeInfo.key = .stakeV2Pda signerInfo.key id)
    (hsender : senderInfo.key = .associatedTokenAddress signerInfo.key mintAddress) :
    Ensures (s.createAccount stakeInfo stakeV2Size signerInfo) fun s₁ =>
      Ensures ((x₀ s₁.treasury).updateRewards s₁.treasury) fun x =>
        Ensures (State.openTokenAccount { s₁ with
            stakesV2 := s₁.stakesV2.put (.derived signerInfo.key id x) }
          stakeTokensInfo stakeInfo.key mintAddress signerInfo) fun s₂ =>
        Ensures (x.deposit amount clock s₂.treasury n) fun r =>
          Ensures (State.transferTokensFrom
              { s₂.putStakeV2 (.derived signerInfo.key id x) r.2.1 with treasury := r.2.2 }
              signerInfo senderInfo.key stakeTokensInfo.key r.1) fun s₃ =>
            s₃.VaultsBacked ∧ s₃.vaulted stakeInfo.key = r.2.1.balance ∧
              stakeTokensInfo.key = .associatedTokenAddress stakeInfo.key mintAddress := by
  refine Ensures.mono (createAccount_vaults hs.covers _ _ _) ?_
  rintro _ ⟨hempty, l, rfl, hcreated⟩
  have hnone := (State.noData hempty).stakesV2
  rw [hkey] at hnone ⊢
  refine Ensures.mono (StakeV2.updateRewards_grown _ _) fun x hx => ?_
  have hopen := openStakeV2_vaults hcreated signerInfo.key id (x := x) (hx.2.trans (hx₀ _)) hnone
  refine Ensures.mono (openTokenAccount_vaults hopen _ _ _ _) ?_
  rintro _ ⟨htokens, l', tok, rfl, hopened⟩
  refine Ensures.mono (x.deposit_paid amount clock _ _) fun r hr => ?_
  have hput := hopened.putBack (a := .derived signerInfo.key id x)
    (Store.get_put_self s.stakesV2 (StakeV2Account.derived signerInfo.key id x)) r.2.1 r.2.2
  refine Ensures.mono (transferTokensFrom_vaults hput r.1 hsender htokens) ?_
  rintro _ ⟨tok', rfl, hmoved⟩
  refine ⟨hmoved.backed fun k hk => ?_, ?_, htokens⟩
  · have hne : k ≠ signerInfo.key := hk.ne (signer_keepsNoVault hsigner)
    have hbalance : (StakeV2Account.derived signerInfo.key id x).stake.balance + r.1 =
        r.2.1.balance := hr
    simp only [gain, Pi.sub_apply, Pi.add_apply, Pi.zero_apply, hne, if_false,
      StakeV2Account.derived] at hbalance ⊢
    split_ifs <;> omega
  · refine State.vaulted_of_stakesV2 (a := { StakeV2Account.derived signerInfo.key id x with
      stake := r.2.1 }) ?_
    exact Store.get_put_self (s.stakesV2.put (.derived signerInfo.key id x))
      { StakeV2Account.derived signerInfo.key id x with stake := r.2.1 }

theorem processDepositV2_vaults (hs : s.VaultsBacked) (clock : Clock) (id amount : ℕ)
    (lockDuration : ℤ) (signerInfo mintInfo senderInfo stakeInfo stakeTokensInfo treasuryInfo
    executorInfo systemProgram tokenProgram associatedTokenProgram : AccountInfo) :
    Ensures (processDepositV2 clock id amount lockDuration signerInfo mintInfo senderInfo
      stakeInfo stakeTokensInfo treasuryInfo executorInfo systemProgram tokenProgram
      associatedTokenProgram s) State.VaultsBacked := by
  simp only [processDepositV2, ensures_bind, ensures_require, ensures_fromOption, ensures_pure]
  intro hsigner hmint _ hsender n _ _ _ _ _ _ _ _ _ hkey
  rw [hmint]
  refine Ensures.mono (fillStakeV2_covers hs clock id amount n stakeTokensInfo (fun t =>
    StakeV2.create id signerInfo.key executorInfo.key lockDuration clock t) (fun _ => rfl) hsigner
    hkey hsender) ?_
  intro s₁ hs₁
  refine Ensures.mono hs₁ fun x hx => Ensures.mono hx fun s₂ hs₂ => Ensures.mono hs₂
    fun r hr _ => ?_
  exact Ensures.mono hr fun s₃ hs₃ _ _ _ _ => hs₃.1

/-- A withdrawal moves what it takes off the balance. -/
theorem withdrawStakeV2_covers (hs : s.VaultsBacked) (clock : Clock) (id amount : ℕ) {signerInfo
    stakeInfo stakeTokensInfo : AccountInfo} (recipientInfo : AccountInfo) {a : StakeV2Account}
    (hkey : stakeInfo.key = .stakeV2Pda signerInfo.key id)
    (ha : s.stakesV2.get stakeInfo.key = some a)
    (htokens : stakeTokensInfo.key = .associatedTokenAddress stakeInfo.key mintAddress) :
    Ensures (a.stake.migrateWeight s.treasury) fun p =>
      Ensures (s.openTokenAccount recipientInfo signerInfo.key mintAddress signerInfo) fun s₁ =>
        Ensures (p.1.withdraw amount clock p.2) fun r =>
          Ensures (State.transferTokens { s₁.putStakeV2 a r.2.1 with treasury := r.2.2 }
            stakeTokensInfo.key recipientInfo.key r.1) fun s₂ =>
              s₂.VaultsBacked ∧ s₂.vaulted stakeInfo.key = r.2.1.balance := by
  refine Ensures.mono (StakeV2.migrateWeight_grown _ _) fun p hp => ?_
  refine Ensures.mono (openTokenAccount_vaults hs.covers _ _ _ _) ?_
  rintro _ ⟨hrecipient, l, tok, rfl, hopen⟩
  refine Ensures.mono (StakeV2.withdraw_grown _ _ _ _) fun r hr => ?_
  have hput := hopen.putBack ha r.2.1 r.2.2
  refine Ensures.mono (transferTokens_vaults hput r.1 htokens hrecipient) ?_
  rintro _ ⟨tok', rfl, hmoved⟩
  refine ⟨hmoved.backed fun k _ => ?_, ?_⟩
  · obtain ⟨-, hbalance, hpaid⟩ := hr
    have hsame := hp.2
    simp only [gain, Pi.sub_apply, Pi.add_apply, Pi.zero_apply]
    split_ifs <;> omega
  · rw [hkey] at ha ⊢
    exact State.vaulted_of_stakesV2 (s.get_putStakeV2 ha r.2.1)

theorem processWithdrawV2_vaults (hs : s.VaultsBacked) (clock : Clock) (id amount : ℕ)
    (signerInfo mintInfo recipientInfo stakeInfo stakeTokensInfo treasuryInfo systemProgram
    tokenProgram associatedTokenProgram : AccountInfo) :
    Ensures (processWithdrawV2 clock id amount signerInfo mintInfo recipientInfo stakeInfo
      stakeTokensInfo treasuryInfo systemProgram tokenProgram associatedTokenProgram s)
      State.VaultsBacked := by
  simp only [processWithdrawV2, ensures_bind, ensures_require, ensures_fromOption, ensures_pure]
  intro _ hmint _ hkey a ha _ _ htokens _ _ _ _ _ _
  rw [hmint] at htokens ⊢
  refine Ensures.mono (withdrawStakeV2_covers hs clock id amount recipientInfo hkey ha htokens) ?_
  intro p hp _ _
  refine Ensures.mono hp fun s₁ hs₁ => Ensures.mono hs₁ fun r hr => ?_
  exact Ensures.mono hr fun s₂ hs₂ _ _ _ _ => hs₂.1

theorem processClaimYieldV2_vaults (hs : s.VaultsBacked) (clock : Clock) (id amount : ℕ)
    (signerInfo mintInfo recipientInfo stakeInfo treasuryInfo treasuryTokensInfo systemProgram
    tokenProgram associatedTokenProgram : AccountInfo) :
    Ensures (processClaimYieldV2 clock id amount signerInfo mintInfo recipientInfo stakeInfo
      treasuryInfo treasuryTokensInfo systemProgram tokenProgram associatedTokenProgram s)
      State.VaultsBacked := by
  simp only [processClaimYieldV2, ensures_bind, ensures_require, ensures_fromOption,
    ensures_pure]
  intro _ hmint _ hkey a ha _ _ htreasury _ htokens _ _ _ _ _
  refine Ensures.mono (openTokenAccount_vaults hs.covers _ _ _ _) ?_
  rintro _ ⟨hrecipient, l, tok, rfl, hopen⟩
  refine Ensures.mono (StakeV2.claim_grown _ _ _ _) fun r hr => ?_
  have hput := hopen.putBack ha r.2 s.treasury
  rw [hmint] at htokens hrecipient
  rw [htreasury.1] at htokens
  refine Ensures.mono (transferTokens_vaults hput r.1 htokens hrecipient) ?_
  rintro s₂ ⟨tok', -, hmoved⟩
  refine hmoved.backed fun k hk => ?_
  have hne : k ≠ Singleton.treasury.pda := hk.ne fun h => h
  have hbalance := hr.2.2.2
  simp only [gain, Pi.sub_apply, Pi.add_apply, Pi.zero_apply, hne, if_false]
  split_ifs <;> omega

/-- What is compounded moves from the treasury to the vault of the stake. -/
theorem compoundYieldV2_covers {s₁ : State} (hcover : s₁.VaultsCover 0)
    (hstakes : s₁.stakesV2 = s.stakesV2) (clock : Clock) (amount : ℕ) (t : Treasury)
    {stakeInfo stakeTokensInfo treasuryTokensInfo : AccountInfo} {a : StakeV2Account}
    {user : Pubkey} {id : ℕ} (hkey : stakeInfo.key = .stakeV2Pda user id)
    (ha : s.stakesV2.get stakeInfo.key = some a)
    (hstokens : stakeTokensInfo.key = .associatedTokenAddress stakeInfo.key mintAddress)
    (httokens : treasuryTokensInfo.key = .associatedTokenAddress .treasuryPda mintAddress)
    {x : StakeV2} (hx : x.balance = a.stake.balance) :
    Ensures (s₁.transferTokens treasuryTokensInfo.key stakeTokensInfo.key amount) fun s₂ =>
      ∀ n, s₂.tokens stakeTokensInfo.key = some n →
        Ensures (x.deposit amount clock t n) fun r =>
          State.VaultsBacked { s₂.putStakeV2 a r.2.1 with treasury := r.2.2 } ∧
            r.2.1.balance ≤ n := by
  refine Ensures.mono (transferTokens_vaults hcover _ httokens hstokens) fun s₂ hs₂ n hn => ?_
  obtain ⟨tok, rfl, hmoved⟩ := hs₂
  refine Ensures.mono (StakeV2.deposit_grown _ _ _ _ _) fun r hr => ?_
  have ha' : ({ s₁ with tokens := tok } : State).stakesV2.get stakeInfo.key = some a := by
    change s₁.stakesV2.get stakeInfo.key = some a
    rw [hstakes, ha]
  have hbacked : State.VaultsBacked { ({ s₁ with tokens := tok } : State).putStakeV2 a r.2.1 with
      treasury := r.2.2 } := by
    refine (hmoved.putBack ha' r.2.1 r.2.2).backed fun k hk => ?_
    have hne : k ≠ Pubkey.treasuryPda := hk.ne fun h => h
    have hbalance := hr.2
    have hle := min_le_right n amount
    simp only [gain, Pi.sub_apply, Pi.add_apply, Pi.zero_apply, hne, if_false]
    split_ifs <;> omega
  refine ⟨hbacked, hbacked.check ?_ hstokens hn⟩
  rw [hkey] at ha' ⊢
  exact State.vaulted_of_stakesV2 (State.get_putStakeV2 ha' r.2.1)

theorem processCompoundYieldV2_vaults (hs : s.VaultsBacked) (clock : Clock) (id : ℕ) (signerInfo
    mintInfo stakeInfo stakeTokensInfo treasuryInfo treasuryTokensInfo systemProgram tokenProgram
    associatedTokenProgram : AccountInfo) :
    Ensures (processCompoundYieldV2 clock id signerInfo mintInfo stakeInfo stakeTokensInfo
      treasuryInfo treasuryTokensInfo systemProgram tokenProgram associatedTokenProgram s)
      State.VaultsBacked := by
  rw [processCompoundYieldV2, compoundYieldV2]
  simp only [ensures_bind, ensures_require, ensures_fromOption]
  intro _ _ _ _ hmint _ _ htreasury _ _ _ a ha _ _ hkey hstokens _ _ httokens _ _
  refine Ensures.mono (StakeV2.migrateWeight_grown _ _) fun p hp => ?_
  refine Ensures.mono (StakeV2.claim_grown _ _ _ _) fun q hq _ => ?_
  have hbalance : q.2.balance = a.stake.balance := hq.2.2.2.trans hp.2
  rw [hmint] at hstokens httokens
  rw [htreasury.1] at httokens
  refine ensures_optional (P := fun s₁ => s₁.VaultsCover 0 ∧ s₁.stakesV2 = s.stakesV2) ?_
    (fun _ => ⟨hs.covers, rfl⟩) fun s₁ hs₁ => ?_
  · intro _
    refine Ensures.mono (burnTokens_vaults hs.covers _ httokens) ?_
    rintro _ ⟨tok, supply, rfl, hburned⟩
    exact ⟨hburned, rfl⟩
  refine Ensures.bind (compoundYieldV2_covers hs₁.1 hs₁.2 clock _ p.2 hkey ha hstokens httokens
    hbalance) fun s₂ hs₂ => ?_
  simp only [ensures_bind, ensures_require, ensures_fromOption, ensures_pure]
  exact fun _ n hn => Ensures.mono (hs₂ n hn) fun r hr _ => hr.1

theorem processSetStakeExecutorV2_vaults (hs : s.VaultsBacked) (id : ℕ) (executor : Pubkey)
    (signerInfo stakeInfo : AccountInfo) :
    Ensures (processSetStakeExecutorV2 id executor signerInfo stakeInfo s)
      State.VaultsBacked := by
  simp only [processSetStakeExecutorV2, ensures_bind, ensures_require, ensures_fromOption,
    ensures_pure]
  intro _ _ a ha _ _
  exact hs.putBack ha (x := { a.stake with executor := executor }) rfl s.treasury

theorem processReconcileStakeV2_vaults (hs : s.VaultsBacked) (clock : Clock) (signerInfo
    configInfo stakeInfo stakeTokensInfo mintInfo treasuryInfo : AccountInfo) :
    Ensures (processReconcileStakeV2 clock signerInfo configInfo stakeInfo stakeTokensInfo
      mintInfo treasuryInfo s) State.VaultsBacked := by
  simp only [processReconcileStakeV2, ensures_bind, ensures_require, ensures_fromOption]
  intro _ _ _ _ _ a ha _ _ _
  -- Whatever the vault is found to hold, the balance does not rise.
  have hlast : ∀ n, Ensures (a.stake.withdraw (a.stake.balance - n) clock s.treasury) fun p =>
      ({ s.putStakeV2 a p.2.1 with treasury := p.2.2 } : State).VaultsBacked := by
    intro n
    refine Ensures.mono (StakeV2.withdraw_grown _ _ _ _) fun p hp => ?_
    refine (hs.covers.putBack ha p.2.1 p.2.2).backed fun k _ => ?_
    have hbalance := hp.2.1
    simp only [gain, Pi.sub_apply, Pi.zero_apply]
    split_ifs <;> omega
  split
  · simpa only [ensures_bind, ensures_pure] using hlast 0
  · simp only [ensures_bind, ensures_require, ensures_fromOption, ensures_pure]
    exact fun _ n _ => hlast n

theorem processMigrateStakeWeight_vaults (hs : s.VaultsBacked) (signerInfo stakeInfo
    treasuryInfo : AccountInfo) :
    Ensures (processMigrateStakeWeight signerInfo stakeInfo treasuryInfo s)
      State.VaultsBacked := by
  simp only [processMigrateStakeWeight, ensures_bind, ensures_require, ensures_fromOption,
    ensures_ite, ensures_pure]
  intro _ _ a ha _ _
  refine ⟨fun _ => hs, fun _ => ensures_of_forall fun _ => ?_⟩
  refine Ensures.mono (StakeV2.migrateWeight_grown _ _) fun p hp => ensures_of_forall fun _ => ?_
  exact hs.putBack ha hp.2 p.2

/-- A stake is deleted, and what its vault lacks is no longer missed. -/
theorem State.VaultsCover.closed (h : s.VaultsCover δ) {stakeInfo : AccountInfo}
    {a : StakeV2Account} (ha : s.stakesV2.get stakeInfo.key = some a) (dest : Pubkey) :
    (closeStakeV2Account stakeInfo dest s).VaultsCover (Function.update δ stakeInfo.key 0) :=
  eraseStakeV2 h (stakeV2_isStakeAddress ha)

theorem processClosePhantomStakeV2_vaults (hs : s.VaultsBacked) (signerInfo configInfo stakeInfo
    treasuryInfo : AccountInfo) :
    Ensures (processClosePhantomStakeV2 signerInfo configInfo stakeInfo treasuryInfo s)
      State.VaultsBacked := by
  simp only [processClosePhantomStakeV2, ensures_bind, ensures_require, ensures_fromOption,
    ensures_addU64, ensures_pure]
  intro _ _ _ _ a ha _ _ _ _ _
  refine ((hs.covers.closed ha treasuryInfo.key).treasury _).backed fun k _ => ?_
  rw [Function.update_apply]
  split_ifs <;> simp

theorem processCloseStakeV2_vaults (hs : s.VaultsBacked) (clock : Clock) (id : ℕ) (signerInfo
    mintInfo recipientInfo stakeInfo stakeTokensInfo treasuryInfo treasuryTokensInfo systemProgram
    tokenProgram associatedTokenProgram : AccountInfo) :
    Ensures (processCloseStakeV2 clock id signerInfo mintInfo recipientInfo stakeInfo
      stakeTokensInfo treasuryInfo treasuryTokensInfo systemProgram tokenProgram
      associatedTokenProgram s) State.VaultsBacked := by
  rw [processCloseStakeV2]
  simp only [ensures_bind, ensures_require, ensures_fromOption, ensures_addU64, ensures_pure]
  intro hsigner hmint _ _ hkey a ha _ _ htreasury _ htreasuryTokens _ _ _ _ _ _ _ hstakeTokens
    residual _
  refine ensures_of_forall fun p _ => ?_
  rw [htreasury.1, hmint] at htreasuryTokens
  rw [hmint] at hstakeTokens
  -- The recipient's account is opened when anything is paid out at all.
  refine ensures_optional (P := fun s₁ => (s₁.VaultsCover 0 ∧ s₁.stakesV2 = s.stakesV2) ∧
    (0 < p.1 + residual →
      recipientInfo.key = .associatedTokenAddress signerInfo.key mintAddress)) ?_ ?_ ?_
  · intro _
    refine Ensures.mono (openTokenAccount_vaults hs.covers _ _ _ _) ?_
    rintro _ ⟨hrecipient, l, tok, rfl, hopened⟩
    exact ⟨⟨hopened, rfl⟩, fun _ => hmint ▸ hrecipient⟩
  · exact fun hzero => ⟨⟨hs.covers, rfl⟩, fun h => absurd h hzero⟩
  intro s₁ hs₁
  obtain ⟨hs₁, hrecipient⟩ := hs₁
  refine ensures_optional (P := fun s₂ => s₂.VaultsCover 0 ∧ s₂.stakesV2 = s.stakesV2) ?_
    (fun _ => hs₁) fun s₂ hs₂ => ?_
  · intro hpos
    refine Ensures.mono (transferTokens_vaults hs₁.1 _ htreasuryTokens (hrecipient (by omega))) ?_
    rintro _ ⟨tok, rfl, hmoved⟩
    refine ⟨hmoved.mono fun k hk => ?_, hs₁.2⟩
    have hne : k ≠ Singleton.treasury.pda := hk.ne fun h => h
    simp only [gain, Pi.sub_apply, Pi.add_apply, Pi.zero_apply, hne, if_false]
    split_ifs <;> omega
  refine ensures_optional (P := fun s₃ =>
    s₃.VaultsCover (-gain stakeInfo.key residual) ∧ s₃.stakesV2 = s.stakesV2) ?_ ?_ ?_
  · intro hpos
    refine Ensures.mono (transferTokens_vaults hs₂.1 _ hstakeTokens (hrecipient (by omega))) ?_
    rintro _ ⟨tok, rfl, hmoved⟩
    refine ⟨hmoved.mono fun k _ => ?_, hs₂.2⟩
    simp only [gain, Pi.sub_apply, Pi.add_apply, Pi.neg_apply, Pi.zero_apply]
    split_ifs <;> omega
  · intro _
    refine ⟨hs₂.1.mono fun k _ => ?_, hs₂.2⟩
    simp only [gain, Pi.neg_apply, Pi.zero_apply]
    split_ifs <;> omega
  intro s₃ hs₃
  refine Ensures.bind (closeTokenAccount_vaults hs₃.1 _ _) fun s₄ hs₄ => ensures_pure.2 ?_
  obtain ⟨l, tok, rfl, hclosed⟩ := hs₄
  have ha' : ({ s₃ with lamports := l, tokens := tok } : State).stakesV2.get stakeInfo.key =
      some a := by
    change s₃.stakesV2.get stakeInfo.key = some a
    rw [hs₃.2, ha]
  refine (hclosed.closed ha' signerInfo.key).backed fun k _ => ?_
  rw [Function.update_apply]
  split_ifs with hk
  · exact le_refl 0
  · rw [Pi.neg_apply, gain_of_ne hk, neg_zero]

/-- A top-up moves what it adds to the balance. -/
theorem topUpStakeV2_covers (hs : s.VaultsBacked) (clock : Clock) (amount n : ℕ) {signerInfo
    senderInfo stakeInfo stakeTokensInfo : AccountInfo} {a : StakeV2Account} {id : ℕ}
    (hsigner : signerInfo.isSigner = true) (hkey : stakeInfo.key = .stakeV2Pda signerInfo.key id)
    (ha : s.stakesV2.get stakeInfo.key = some a)
    (hsender : senderInfo.key = .associatedTokenAddress signerInfo.key mintAddress)
    (htokens : stakeTokensInfo.key = .associatedTokenAddress stakeInfo.key mintAddress)
    {x : StakeV2} (hx : x.balance = a.stake.balance) (t : Treasury) :
    Ensures (x.deposit amount clock t n) fun r =>
      Ensures (State.transferTokensFrom { s.putStakeV2 a { r.2.1 with
          createdAt := clock.unixTimestamp } with treasury := r.2.2 } signerInfo senderInfo.key
          stakeTokensInfo.key r.1) fun s₁ =>
        s₁.VaultsBacked ∧ s₁.vaulted stakeInfo.key = r.2.1.balance := by
  refine Ensures.mono (x.deposit_paid _ _ _ _) fun r hr => ?_
  have hput := hs.covers.putBack ha { r.2.1 with createdAt := clock.unixTimestamp } r.2.2
  refine Ensures.mono (transferTokensFrom_vaults hput r.1 hsender htokens) ?_
  rintro s₁ ⟨tok, rfl, hmoved⟩
  refine ⟨hmoved.backed fun k hk => ?_, ?_⟩
  · have hne : k ≠ signerInfo.key := hk.ne (signer_keepsNoVault hsigner)
    simp only [gain, Pi.sub_apply, Pi.add_apply, Pi.zero_apply, hne, if_false]
    split_ifs <;> omega
  · rw [hkey] at ha ⊢
    exact State.vaulted_of_stakesV2
      (s.get_putStakeV2 ha { r.2.1 with createdAt := clock.unixTimestamp })

theorem processTopUpStakeV2_vaults (hs : s.VaultsBacked) (clock : Clock) (id amount : ℕ)
    (signerInfo mintInfo senderInfo stakeInfo stakeTokensInfo treasuryInfo systemProgram
    tokenProgram associatedTokenProgram : AccountInfo) :
    Ensures (processTopUpStakeV2 clock id amount signerInfo mintInfo senderInfo stakeInfo
      stakeTokensInfo treasuryInfo systemProgram tokenProgram associatedTokenProgram s)
      State.VaultsBacked := by
  simp only [processTopUpStakeV2, topUpStakeV2, ensures_bind, ensures_require, ensures_fromOption,
    ensures_pure]
  intro hsigner hmint _ hsender n _ _ hkey _ _ a ha _ _ _ _ _ _ _
  refine Ensures.mono (StakeV2.migrateWeight_grown _ _) fun p hp htokens _ _ => ?_
  rw [hmint] at htokens
  refine Ensures.mono (topUpStakeV2_covers hs clock amount n hsigner hkey ha hsender htokens hp.2
    p.2) fun r hr _ => ?_
  exact Ensures.mono hr fun s₁ hs₁ _ _ _ _ => hs₁.1

/-- A merge moves GODL between the vaults of its two stakes. -/
theorem processMergeStakeV2_checked (clock : Clock) (targetId sourceId : ℕ) (signerInfo mintInfo
    targetStakeInfo targetTokensInfo sourceStakeInfo sourceTokensInfo treasuryInfo systemProgram
    tokenProgram associatedTokenProgram : AccountInfo) :
    Ensures (processMergeStakeV2 clock targetId sourceId signerInfo mintInfo targetStakeInfo
      targetTokensInfo sourceStakeInfo sourceTokensInfo treasuryInfo systemProgram tokenProgram
      associatedTokenProgram s) fun _ => targetStakeInfo.key = .stakeV2Pda signerInfo.key targetId ∧
        sourceStakeInfo.key = .stakeV2Pda signerInfo.key sourceId ∧
        targetTokensInfo.key = .associatedTokenAddress targetStakeInfo.key mintAddress ∧
          sourceTokensInfo.key = .associatedTokenAddress sourceStakeInfo.key mintAddress := by
  simp only [processMergeStakeV2, mergeStakeV2, ensures_bind, ensures_require, ensures_fromOption,
    ensures_pure]
  intro _ _ hmint _ htarget _ _ _ _ _ _ _ hsource _ _ _ _ _ hstokens _ _ httokens _ _ _ _ _ _ _
  rw [hmint] at hstokens httokens
  refine fun _ => ensures_of_forall fun _ => ensures_of_forall fun _ => ensures_of_forall
    fun _ => ?_
  refine ensures_of_forall fun _ => ensures_of_forall fun _ => ensures_of_forall fun _ => ?_
  refine ensures_of_forall fun _ => ensures_of_forall fun _ => ensures_of_forall fun _ => ?_
  exact ensures_of_forall fun _ => ensures_of_forall fun _ =>
    ⟨htarget, hsource, httokens, hstokens⟩

/-- A merge empties one vault into another. -/
theorem moved_merge {tok : Pubkey → Option ℕ} {source target : Pubkey} {m n : ℕ}
    (hne : target ≠ source) (hm : tok target = some m) (hn : tok source = some n) :
    Moved (balances tok) (balances (Function.update (Function.update tok target (some (m + n)))
      source none)) source target n := by
  refine ⟨(balances_of_eq hn).ge, fun k => ?_⟩
  by_cases hs : k = source
  · subst hs
    simp [balances, hn, hne.symm]
  · by_cases ht : k = target
    · subst ht
      simp [balances, hm, hs]
    · simp [balances, hs, ht]

theorem StakeV2.combine_balance {x y z : StakeV2} {clock : Clock} {t u : Treasury}
    (h : x.combine y clock t = .ok (z, u)) : z.balance = x.balance + y.balance := by
  obtain ⟨v, w, p, q, n, version, hv, hw, -, -, -, -, rfl, -⟩ := combine_spec h
  have hx := (updateRewards_grown x t).elim hv
  have hy := (updateRewards_grown y t).elim hw
  simp only [hx.2, hy.2]

theorem processMergeStakeV2_vaults (hs : s.VaultsBacked) (clock : Clock) (targetId sourceId : ℕ)
    (signerInfo mintInfo targetStakeInfo targetTokensInfo sourceStakeInfo sourceTokensInfo
    treasuryInfo systemProgram tokenProgram associatedTokenProgram : AccountInfo) :
    Ensures (processMergeStakeV2 clock targetId sourceId signerInfo mintInfo targetStakeInfo
      targetTokensInfo sourceStakeInfo sourceTokensInfo treasuryInfo systemProgram tokenProgram
      associatedTokenProgram s) State.VaultsBacked := by
  refine Ensures.mono (Ensures.and (processMergeStakeV2_spec clock targetId sourceId signerInfo
    mintInfo targetStakeInfo targetTokensInfo sourceStakeInfo sourceTokensInfo treasuryInfo
    systemProgram tokenProgram associatedTokenProgram s) (processMergeStakeV2_checked clock targetId
    sourceId signerInfo mintInfo targetStakeInfo targetTokensInfo sourceStakeInfo sourceTokensInfo
    treasuryInfo systemProgram tokenProgram associatedTokenProgram)) ?_
  rintro s' ⟨⟨hkeys, hne, a, b, m, n, z, u, ha, hb, -, hm, hn, hcombine, rfl⟩, -, hkey, htarget,
    hsource⟩
  have hbalance := StakeV2.combine_balance hcombine
  have hput := hs.covers.putBack ha z u
  rw [htarget] at hm hne ⊢
  rw [hsource] at hn hne ⊢
  have hmoved := hput.moved (moved_merge hne hm hn)
  have herased := hmoved.eraseStakeV2 (k := sourceStakeInfo.key) (stakeV2_isStakeAddress hb)
  have hfull : b.stake.balance ≤ n := by
    have hbacked : s.stakesV2.view 0 (fun a => a.stake.balance)
        (.stakeV2Pda signerInfo.key sourceId) ≤ s.tokensAt (.associatedTokenAddress
          (.stakeV2Pda signerInfo.key sourceId) mintAddress) :=
      hs (.stakeV2Pda signerInfo.key sourceId)
    rwa [← hkey, Store.view_of_get hb, State.tokensAt, hn] at hbacked
  refine State.VaultsCover.backed (herased.funds rfl) fun k _ => ?_
  simp only [Function.update_apply, gain, Pi.sub_apply, Pi.add_apply, Pi.zero_apply]
  split_ifs <;> omega

theorem processStakeNft_vaults (hs : s.VaultsBacked) (id : ℕ) (signerInfo assetInfo
    collectionInfo stakeInfo treasuryInfo mplCoreInfo systemProgram : AccountInfo) :
    Ensures (processStakeNft id signerInfo assetInfo collectionInfo stakeInfo treasuryInfo
      mplCoreInfo systemProgram s) State.VaultsBacked := by
  simp only [processStakeNft, transferAsset, ensures_bind, ensures_require, ensures_fromOption,
    ensures_pure]
  intro _ _ _ _ _ a ha _ _ _
  refine Ensures.mono (StakeV2.migrateWeight_grown _ _) fun p hp => ?_
  refine Ensures.mono (StakeV2.stakeNft_balance _ _) fun r hr _ => ?_
  have hput := hs.putBack ha (hr.trans hp.2) r.2
  exact hput

theorem processUnstakeNft_vaults (hs : s.VaultsBacked) (id : ℕ) (signerInfo assetInfo
    collectionInfo stakeInfo treasuryInfo mplCoreInfo systemProgram : AccountInfo) :
    Ensures (processUnstakeNft id signerInfo assetInfo collectionInfo stakeInfo treasuryInfo
      mplCoreInfo systemProgram s) State.VaultsBacked := by
  simp only [processUnstakeNft, transferAsset, ensures_bind, ensures_require, ensures_fromOption,
    ensures_pure]
  intro _ _ _ _ _ a ha _ _ _
  refine Ensures.mono (StakeV2.migrateWeight_grown _ _) fun p hp => ?_
  refine Ensures.mono (StakeV2.unstakeNft_balance _ _) fun r hr _ => ?_
  have hput := hs.putBack ha (hr.trans hp.2) r.2
  exact hput

/-! ## Referrers -/

theorem creditReferrerSol_vaults (h : s.VaultsCover δ) (m : Miner) (minerInfo : AccountInfo)
    (share : ℕ) (rest : List AccountInfo) :
    Ensures (creditReferrerSol m minerInfo share rest s) fun s' => s'.VaultsCover δ := by
  unfold creditReferrerSol
  split
  · split
    · simp only [loadReferrer, ensures_bind, ensures_require, ensures_fromOption,
        ensures_addU64, ensures_pure]
      intro x hx _ _ _ _ _
      have hput := h.putReferrer (r := { x with
          rewardsSol := x.rewardsSol + share
          cumulativeRewardsSol := x.cumulativeRewardsSol + share })
        (s.referrers.key_of_get _ x hx) (Store.view_of_get hx)
      refine send_vaults (hput.mono fun k _ => ?_) _ _ _
      simp
    · exact ensures_throw.2 trivial
  · simp only [ensures_bind, ensures_require, ensures_pure]
    exact fun _ => h

/-- The referrer's share goes from the treasury to the vault of the referrer. -/
theorem creditReferrerGodl_vaults (h : s.VaultsCover δ) {treasuryTokensInfo mintInfo : AccountInfo}
    (htokens : treasuryTokensInfo.key = treasuryTokensAddress) (hmint : mintInfo.key = mintAddress)
    (m : Miner) (share : ℕ) (rest : List AccountInfo) :
    Ensures (creditReferrerGodl m treasuryTokensInfo mintInfo share rest s)
      fun s' => s'.VaultsCover δ := by
  unfold creditReferrerGodl
  split
  · split
    · simp only [loadReferrer, ensures_bind, ensures_require, ensures_fromOption,
        ensures_addU64, ensures_pure]
      intro x hx _ _ _ _ hdest _ _ _ _
      have hput := h.putReferrer (r := { x with
          rewardsGodl := x.rewardsGodl + share
          cumulativeRewardsGodl := x.cumulativeRewardsGodl + share })
        (s.referrers.key_of_get _ x hx) (Store.view_of_get hx)
      rw [hmint] at hdest
      refine Ensures.mono (transferTokens_vaults hput share htokens hdest) ?_
      rintro _ ⟨tok, rfl, hmoved⟩
      refine hmoved.mono fun k hk => ?_
      have hne : k ≠ .treasuryPda := hk.ne fun h => h
      simp only [gain, Pi.sub_apply, Pi.add_apply, hne, if_false]
      split_ifs <;> omega
    · exact ensures_throw.2 trivial
  · simp only [ensures_bind, ensures_require, ensures_pure]
    exact fun _ => h

theorem processClaimSol_vaults (hs : s.VaultsBacked) (clock : Clock) (signerInfo minerInfo
    systemProgram : AccountInfo) (rest : List AccountInfo) :
    Ensures (processClaimSol clock signerInfo minerInfo systemProgram rest s)
      State.VaultsBacked := by
  rw [processClaimSol]
  simp only [ensures_bind, ensures_require, ensures_fromOption]
  intro _ m _ _ _
  refine ensures_of_forall fun share => ensures_of_forall fun amount => ?_
  have hput : ({ s with miners := s.miners.put (m.claimSol clock).2 } : State).VaultsCover 0 :=
    hs.covers
  refine Ensures.mono (creditReferrerSol_vaults hput m minerInfo share rest) fun s₁ hs₁ => ?_
  have hlast := hs₁.backed fun _ _ => le_refl _
  refine ensures_ite.2 ⟨fun _ => ?_, fun _ => ensures_pure.2 hlast⟩
  exact Ensures.mono (send_vaults hs₁ _ _ _) fun s₂ hs₂ => hs₂.backed fun _ _ => le_refl _

theorem processClaimSolAndFundAutomation_vaults (hs : s.VaultsBacked) (clock : Clock) (signerInfo
    minerInfo automationV2Info systemProgram : AccountInfo) (rest : List AccountInfo) :
    Ensures (processClaimSolAndFundAutomation clock signerInfo minerInfo automationV2Info
      systemProgram rest s) State.VaultsBacked := by
  rw [processClaimSolAndFundAutomation]
  simp only [ensures_bind, ensures_require, ensures_fromOption]
  intro _ a _ _ _ _ _ m _ _ _
  refine ensures_of_forall fun share => ensures_of_forall fun amount => ?_
  have hput : ({ s with miners := s.miners.put (m.claimSol clock).2 } : State).VaultsCover 0 :=
    hs.covers
  refine Ensures.mono (creditReferrerSol_vaults hput m minerInfo share rest) fun s₁ hs₁ => ?_
  have hlast := hs₁.backed fun _ _ => le_refl _
  refine ensures_ite.2 ⟨fun _ => ?_, fun _ => ensures_pure.2 hlast⟩
  refine Ensures.bind (ensures_of_forall fun _ => trivial) fun balance _ => ?_
  have hfunded : ({ s₁ with
      automations := s₁.automations.put { a with balance := balance } } : State).VaultsCover 0 :=
    hs₁
  exact Ensures.mono (send_vaults hfunded _ _ _) fun s₂ hs₂ => hs₂.backed fun _ _ => le_refl _

/-- Any key pair may have signed. -/
abbrev IsKeypair (k : Pubkey) : Prop := k.isKeypair = true

/-- What only miners have rights to leaves the vaults covered. -/
theorem GoldMoved.covers {s' : State} (h : s.VaultsCover δ)
    (hmoved : GoldMoved IsKeypair (· = .miners) s s') : s'.VaultsCover δ :=
  h.untouched (hmoved.acts.untouched fun _ => id) (by decide) (by decide) (by decide)
    (by decide)

theorem processClaimGodl_vaults (hs : s.VaultsBacked) (clock : Clock) (signerInfo configInfo
    minerInfo mintInfo recipientInfo treasuryInfo treasuryTokensInfo systemProgram tokenProgram
    associatedTokenProgram goldVaultInfo minerExtendedInfo : AccountInfo)
    (rest : List AccountInfo) :
    Ensures (processClaimGodl clock signerInfo configInfo minerInfo mintInfo recipientInfo
      treasuryInfo treasuryTokensInfo systemProgram tokenProgram associatedTokenProgram
      goldVaultInfo minerExtendedInfo rest s) State.VaultsBacked := by
  simp only [processClaimGodl, ensures_bind, ensures_require, ensures_fromOption]
  intro hsigner m _ _ hmint _ htreasury htokens _ _ _ _ _ _ _
  have hkeypair : signerInfo.isSigner = true → IsKeypair signerInfo.key :=
    signerInfo.isKeypair_of_isSigner
  refine Ensures.mono (loadOrCreateMinerExtended_gold (R := (· = .miners)) rfl hkeypair _ _ _)
    fun p hp => ?_
  refine Ensures.mono (openTokenAccount_funds (R := (· = .miners)) hkeypair _ _ _)
    fun s₂ hs₂ => ?_
  have hinHand : ExtendedInHand m.authority s₂ p.1 := by
    obtain ⟨_, _, _, rfl, -⟩ := hs₂.2
    exact hp.2
  have hgold : GoldMoved IsKeypair (· = .miners) s s₂ := hp.1.trans hs₂.2.gold
  refine Ensures.mono (syncGoldRewards_gold (R := (· = .miners)) rfl hgold hinHand m)
    fun s₃ hs₃ => ?_
  refine ensures_of_forall fun r => ?_
  refine ensures_of_forall fun share => ensures_of_forall fun amount => ?_
  have hcovers : s₃.VaultsCover 0 := GoldMoved.covers hs.covers hs₃
  have hput : ({ s₃ with miners := s₃.miners.put r.2.1, treasury := r.2.2 } : State).VaultsCover
      0 := hcovers
  rw [htreasury.1, hmint] at htokens
  have hrecipient := hs₂.1
  rw [hmint] at hrecipient
  refine Ensures.mono (creditReferrerGodl_vaults hput htokens hmint m share rest) fun s₄ hs₄ => ?_
  have hlast := hs₄.backed fun _ _ => le_refl _
  refine ensures_ite.2 ⟨fun _ => ?_, fun _ => ensures_pure.2 hlast⟩
  refine Ensures.mono (transferTokens_vaults hs₄ amount htokens hrecipient) ?_
  rintro _ ⟨tok, rfl, hmoved⟩
  refine hmoved.backed fun k hk => ?_
  have hne : k ≠ Singleton.treasury.pda := hk.ne fun h => h
  simp only [gain, Pi.sub_apply, Pi.add_apply, Pi.zero_apply, hne, if_false]
  split_ifs <;> omega

theorem processInitializeReferrer_vaults (hs : s.VaultsBacked) (authorityInfo referrerInfo
    referrerTokensInfo mintInfo systemProgram tokenProgram associatedTokenProgram : AccountInfo) :
    Ensures (processInitializeReferrer authorityInfo referrerInfo referrerTokensInfo mintInfo
      systemProgram tokenProgram associatedTokenProgram s) State.VaultsBacked := by
  simp only [processInitializeReferrer, ensures_bind, ensures_require]
  intro _ _ _ _ _ _ _ _ _
  refine Ensures.mono (createAccount_vaults hs.covers _ _ _) ?_
  rintro _ ⟨-, l, rfl, hcreated⟩
  have hput := hcreated.putReferrer (r := ⟨authorityInfo.key, 0, 0, 0, 0, 0⟩) rfl rfl
  refine Ensures.mono (openTokenAccount_vaults hput _ _ _ _) ?_
  rintro _ ⟨-, l', tok, rfl, hopened⟩
  refine hopened.backed fun k _ => ?_
  simp only [gain, Pi.sub_apply, Pi.zero_apply]
  split_ifs <;> omega

theorem processSetReferrer_vaults (hs : s.VaultsBacked) (desired : Pubkey) (authorityInfo
    minerInfo : AccountInfo) (rest : List AccountInfo) :
    Ensures (processSetReferrer desired authorityInfo minerInfo rest s) State.VaultsBacked := by
  simp only [processSetReferrer, ensures_bind, ensures_require, ensures_fromOption, ensures_ite,
    ensures_pure]
  intro _ m _ _
  refine ⟨fun _ => hs, fun _ => ⟨fun _ => hs, fun _ => ⟨fun _ => ?_, fun _ => ?_⟩⟩⟩
  · exact ensures_throw.2 trivial
  split
  · simp only [loadReferrer, ensures_bind, ensures_require, ensures_fromOption, ensures_addU64,
      ensures_pure]
    intro x hx _ _ _ _ _
    have hput := hs.covers.putReferrer (r := { x with referrerCount := x.referrerCount + 1 })
      (s.referrers.key_of_get _ x hx) (Store.view_of_get hx)
    refine State.VaultsCover.backed (δ := 0) (hput.mono fun k _ => ?_) fun _ _ => le_refl _
    simp
  · exact ensures_throw.2 trivial

theorem processClaimReferral_vaults (hs : s.VaultsBacked) (authorityInfo referrerInfo
    referrerTokensInfo authorityTokensInfo mintInfo systemProgram tokenProgram
    associatedTokenProgram : AccountInfo) :
    Ensures (processClaimReferral authorityInfo referrerInfo referrerTokensInfo
      authorityTokensInfo mintInfo systemProgram tokenProgram associatedTokenProgram s)
      State.VaultsBacked := by
  rw [processClaimReferral]
  simp only [ensures_bind, ensures_require, ensures_fromOption]
  intro _ _ _ _ hmint _ _ _ _ x hx _ htokens _ _
  refine Ensures.mono (openTokenAccount_vaults hs.covers _ _ _ _) ?_
  rintro _ ⟨hauthority, l, tok, rfl, hopened⟩
  rw [hmint] at htokens hauthority
  refine ensures_ite.2 ⟨fun _ => ?_, fun _ => ?_⟩
  · exact ensures_pure.2 (hopened.backed fun _ _ => le_refl _)
  have hput := hopened.putReferrer (r := { x with rewardsGodl := 0, rewardsSol := 0 })
    (s.referrers.key_of_get _ x hx) (Store.view_of_get hx)
  refine ensures_optional (P := fun s₁ => s₁.VaultsCover 0) ?_ ?_ fun s₁ hs₁ => ?_
  · intro _
    refine Ensures.mono (transferTokens_vaults hput x.rewardsGodl htokens hauthority) ?_
    rintro _ ⟨tok', rfl, hmoved⟩
    refine hmoved.mono fun k _ => ?_
    simp only [gain, Pi.sub_apply, Pi.add_apply, Pi.zero_apply]
    split_ifs <;> omega
  · intro hzero
    refine hput.mono fun k _ => ?_
    simp only [gain, Pi.sub_apply, Pi.zero_apply]
    split_ifs <;> omega
  · have hlast := hs₁.backed fun _ _ => le_refl _
    refine ensures_ite.2 ⟨fun _ => ?_, fun _ => ensures_pure.2 hlast⟩
    exact Ensures.mono (send_vaults hs₁ _ _ _) fun s₂ hs₂ => hs₂.backed fun _ _ => le_refl _

/-! ## The OTC desk -/

theorem processInitializeOtcTreasury_vaults (hs : s.VaultsBacked) (signerInfo mintInfo
    otcTreasuryInfo otcTreasuryTokensInfo systemProgram tokenProgram
    associatedTokenProgram : AccountInfo) :
    Ensures (processInitializeOtcTreasury signerInfo mintInfo otcTreasuryInfo
      otcTreasuryTokensInfo systemProgram tokenProgram associatedTokenProgram s)
      State.VaultsBacked := by
  simp only [processInitializeOtcTreasury, ensures_bind, ensures_require]
  intro _ _ _ _ _ _ _ _ _ _
  refine Ensures.mono (createAccount_vaults hs.covers _ _ _) ?_
  rintro _ ⟨-, l, rfl, hcreated⟩
  have hput : ({ s with
      opened := Function.update s.opened .otcTreasury true
      otcTreasury := ⟨0, 0⟩
      lamports := l } : State).VaultsCover _ := hcreated.otcTreasury ⟨0, 0⟩
  refine Ensures.mono (openTokenAccount_vaults hput _ _ _ _) ?_
  rintro _ ⟨-, l', tok, rfl, hopened⟩
  refine hopened.backed fun k _ => ?_
  simp only [gain, Pi.sub_apply, Pi.zero_apply]
  split_ifs <;> omega

theorem processFundGodlOtc_vaults (hs : s.VaultsBacked) (amount : ℕ) (signerInfo mintInfo
    signerTokensInfo otcTreasuryInfo otcTreasuryTokensInfo tokenProgram : AccountInfo) :
    Ensures (processFundGodlOtc amount signerInfo mintInfo signerTokensInfo otcTreasuryInfo
      otcTreasuryTokensInfo tokenProgram s) State.VaultsBacked := by
  simp only [processFundGodlOtc, ensures_bind, ensures_require, ensures_fromOption,
    ensures_addU64, ensures_pure]
  intro hsigner _ _ hsource _ _ _ hkey _ _ hdest _ _ _ _
  rw [hkey] at hdest
  refine Ensures.mono (transferTokensFrom_vaults hs.covers amount hsource hdest) ?_
  rintro _ ⟨tok, rfl, hmoved⟩ _
  refine (hmoved.otcTreasury _).backed fun k hk => ?_
  have hne : k ≠ signerInfo.key := hk.ne (signer_keepsNoVault hsigner)
  simp only [gain, Pi.sub_apply, Pi.add_apply, Pi.zero_apply, hne, if_false]
  push_cast
  split_ifs <;> omega

theorem processWithdrawSolOtc_vaults (hs : s.VaultsBacked) (signerInfo otcTreasuryInfo chestInfo
    systemProgram : AccountInfo) :
    Ensures (processWithdrawSolOtc signerInfo otcTreasuryInfo chestInfo systemProgram s)
      State.VaultsBacked := by
  rw [processWithdrawSolOtc]
  simp only [ensures_bind, ensures_require]
  intro _ _ _ _ _ _ _
  refine ensures_ite.2 ⟨fun _ => ensures_pure.2 hs, fun _ => ?_⟩
  have hput := hs.covers.otcTreasury { s.otcTreasury with solBalance := 0 }
  refine Ensures.mono (send_vaults hput _ _ _) fun s' hs' => hs'.backed fun k _ => ?_
  simp

/-- The stake that is bought is filled out of the desk. -/
theorem openOtcStake_vaults (h : s.VaultsCover δ) (clock : Clock) (args : OtcTradeArgs)
    {a : OtcTradeAccounts} (hmint : a.mintInfo.key = mintAddress)
    (hotc : a.otcTreasuryTokensInfo.key = otcTreasuryTokensAddress)
    (hkey : a.stakeInfo.key = .stakeV2Pda a.buyerInfo.key args.stakeId) (n : ℕ) :
    Ensures (openOtcStake clock args a n s) fun r =>
      r.2.VaultsCover (δ - gain .otcTreasuryPda args.godlOut) ∧
        r.2.vaulted a.stakeInfo.key = r.1.balance := by
  simp only [openOtcStake, ensures_bind, ensures_require, ensures_pure]
  refine Ensures.mono (createAccount_vaults h _ _ _) ?_
  rintro _ ⟨hempty, l, rfl, hcreated⟩ _
  have hnone := (State.noData hempty).stakesV2
  rw [hkey] at hnone
  refine Ensures.mono (StakeV2.updateRewards_grown _ _) fun x hx => ?_
  have hopen := openStakeV2_vaults hcreated a.buyerInfo.key args.stakeId (x := x) hx.2 hnone
  refine Ensures.mono (openTokenAccount_vaults hopen _ _ _ _) ?_
  rintro _ ⟨hdest, l', tok, rfl, hopened⟩
  refine Ensures.mono (x.deposit_paid args.godlOut clock _ _) fun r hr hpaid => ?_
  have hput := hopened.putBack (a := .derived a.buyerInfo.key args.stakeId x)
    (Store.get_put_self s.stakesV2 (StakeV2Account.derived a.buyerInfo.key args.stakeId x))
    r.2.1 r.2.2
  rw [hmint, hkey] at hdest
  refine Ensures.mono (transferTokens_vaults hput r.1 hotc hdest) ?_
  rintro _ ⟨tok', rfl, hmoved⟩
  refine ⟨hmoved.mono fun k _ => ?_, ?_⟩
  · have hbalance : (StakeV2Account.derived a.buyerInfo.key args.stakeId x).stake.balance + r.1 =
        r.2.1.balance := hr
    simp only [gain, Pi.sub_apply, Pi.add_apply, StakeV2Account.derived] at hbalance ⊢
    split_ifs <;> omega
  · rw [hkey]
    refine State.vaulted_of_stakesV2 (a := { StakeV2Account.derived a.buyerInfo.key args.stakeId x
      with stake := r.2.1 }) ?_
    exact Store.get_put_self (s.stakesV2.put (.derived a.buyerInfo.key args.stakeId x))
      { StakeV2Account.derived a.buyerInfo.key args.stakeId x with stake := r.2.1 }

/-- The bonus is paid out of the desk. -/
theorem payOtcBonus_vaults (h : s.VaultsCover δ) (args : OtcTradeArgs) {a : OtcTradeAccounts}
    (hotc : a.otcTreasuryTokensInfo.key = otcTreasuryTokensAddress)
    (htreasury : a.treasuryTokensInfo.key = treasuryTokensAddress) (m : Miner) :
    Ensures (payOtcBonus args a m s) fun w =>
      w.2.VaultsCover (δ - gain .otcTreasuryPda args.godlBonus) ∧ w.2.stakesV2 = s.stakesV2 := by
  simp only [payOtcBonus, ensures_ite, ensures_bind, ensures_pure]
  refine ⟨fun _ => ?_, fun hzero => ?_⟩
  · refine Ensures.mono (transferTokens_vaults h _ hotc htreasury) ?_
    rintro _ ⟨tok, rfl, hmoved⟩
    have hkeypair : a.buyerInfo.isSigner = true → IsKeypair a.buyerInfo.key :=
      a.buyerInfo.isKeypair_of_isSigner
    refine Ensures.mono (creditUnrefined_gold (R := (· = .miners)) rfl hkeypair _ _ _ _ m)
      fun w hw => ?_
    refine ⟨(GoldMoved.covers hmoved hw.1).mono fun k hk => ?_, ?_⟩
    · have hne : k ≠ .treasuryPda := hk.ne fun h => h
      simp only [gain, Pi.sub_apply, Pi.add_apply, hne, if_false]
      omega
    · exact ((hw.1.acts.untouched fun _ => id).stakes (by decide)).2
  · have hbonus : args.godlBonus = 0 := by omega
    refine ⟨h.mono fun k _ => ?_, trivial⟩
    simp [hbonus]

theorem checkOtcTrade_stake (clock : Clock) (args : OtcTradeArgs) (a : OtcTradeAccounts)
    (s : State) :
    Ensures (checkOtcTrade clock args a s) fun _ =>
      a.stakeInfo.key = .stakeV2Pda a.buyerInfo.key args.stakeId := by
  simp only [checkOtcTrade, ensures_bind, ensures_require, ensures_fromOption, ensures_pure]
  intro _ _ _ _ _ _ _ _ _ _ _ _ _ _ _ _ _ _ _ _ _ hkey _ _ _ _ _ _ _ _ _ _ _
  exact hkey

theorem openOtcUser_covers (h : s.VaultsCover δ) (a : OtcTradeAccounts) :
    Ensures (openOtcUser a s) fun q => q.2.VaultsCover δ := by
  simp only [openOtcUser, ensures_ite, ensures_bind, ensures_pure, ensures_fromOption,
    ensures_require]
  refine ⟨fun _ => ?_, fun _ _ _ _ => h⟩
  refine Ensures.mono (createAccount_vaults h _ _ _) ?_
  rintro _ ⟨-, l, rfl, hcreated⟩
  exact hcreated

/-- What a trade does once its accounts are checked, up to the last check. -/
theorem otcTrade_covers (hs : s.VaultsBacked) (clock : Clock) (args : OtcTradeArgs)
    {a : OtcTradeAccounts} (hmint : a.mintInfo.key = mintAddress)
    (hotc : a.otcTreasuryTokensInfo.key = otcTreasuryTokensAddress)
    (htreasury : a.treasuryTokensInfo.key = treasuryTokensAddress)
    (hkey : a.stakeInfo.key = .stakeV2Pda a.buyerInfo.key args.stakeId) (n : ℕ) :
    Ensures (bookOtcTrade args a n s) fun s₁ =>
      Ensures (openMiner .invalidAccountData a.minerInfo a.buyerInfo.key a.buyerInfo s₁) fun p =>
        Ensures (openOtcUser a p.2) fun q =>
          Ensures (openOtcStake clock args a n q.2) fun r =>
            Ensures (payOtcBonus args a p.1 r.2) fun w =>
              w.2.VaultsBacked ∧ w.2.vaulted a.stakeInfo.key = r.1.balance := by
  simp only [bookOtcTrade, ensures_bind, ensures_addU64, ensures_require]
  intro _ _ _ hcovered _
  have hbooked := hs.covers.otcTreasury ⟨s.otcTreasury.solBalance + args.solIn,
    s.otcTreasury.godlBalance - (args.godlOut + args.godlBonus)⟩
  refine Ensures.mono (collect_vaults hbooked _ _ _) ?_
  rintro _ ⟨l, rfl, hcollected⟩
  have hkeypair : a.buyerInfo.isSigner = true → IsKeypair a.buyerInfo.key :=
    a.buyerInfo.isKeypair_of_isSigner
  refine Ensures.mono (openMiner_funds (R := (· = .miners)) hkeypair _ _ _) fun p hp => ?_
  have hminer := GoldMoved.covers hcollected hp.1.gold
  refine Ensures.mono (openOtcUser_covers hminer a) fun q hq => ?_
  refine Ensures.mono (openOtcStake_vaults hq clock args hmint hotc hkey n) fun r hr => ?_
  refine Ensures.mono (payOtcBonus_vaults hr.1 args hotc htreasury p.1) fun w hw => ⟨?_, ?_⟩
  · refine hw.1.backed fun k _ => ?_
    simp only [gain, Pi.sub_apply, Pi.zero_apply]
    split_ifs <;> omega
  · rw [← hr.2, hkey, State.vaulted, State.vaulted, hw.2]

theorem processExecuteOtcTrade_vaults (hs : s.VaultsBacked) (clock : Clock) (args : OtcTradeArgs)
    (a : OtcTradeAccounts) :
    Ensures (processExecuteOtcTrade clock args a s) State.VaultsBacked := by
  simp only [processExecuteOtcTrade, ensures_bind, ensures_addU64, ensures_require,
    ensures_fromOption, ensures_pure]
  refine Ensures.mono ((checkOtcTrade_accounts clock args a s).and
    (checkOtcTrade_stake clock args a s)) fun n hn => ?_
  obtain ⟨⟨-, hmint, hotc, htreasury⟩, hkey⟩ := hn
  refine Ensures.mono (otcTrade_covers hs clock args hmint hotc htreasury hkey n) fun s₁ hs₁ => ?_
  refine Ensures.mono hs₁ fun p hp => Ensures.mono hp fun q hq => Ensures.mono hq fun r hr => ?_
  exact Ensures.mono hr fun w hw _ _ _ _ _ _ _ => hw.1

end Godl
