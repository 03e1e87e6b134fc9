import Godl.Proof.Policy
import Godl.Proof.Ops

/-!
# What acts leave untouched

The rights of a call say which parts of the state it writes.  The rest stays as it is, and
vaults that it may not spend keep their tokens.

## Main definitions

* `Untouched R s s'` — what the rights in `R` leave as it is.

## Main results

* `Acts.untouched` — acts touch what their rights allow.
-/

namespace Godl

open Lib

/-- More signatures and more rights spend more. -/
theorem Spends.mono {signs signs' : Pubkey → Prop} {R R' : Right → Prop}
    (hsub : ∀ k, signs k → signs' k) (hR : ∀ r, R r → R' r) {k : Pubkey} (h : Spends signs R k) :
    Spends signs' R' k := by
  cases h with
  | signer h => exact .signer (hsub _ h)
  | stake hmay h => exact .stake (hR _ hmay) (hsub _ h)
  | stakeV2 hmay h => exact .stakeV2 (hR _ hmay) (hsub _ h)
  | referrer hmay h => exact .referrer (hR _ hmay) (hsub _ h)
  | treasury => exact .treasury
  | otcTreasury hmay => exact .otcTreasury (hR _ hmay)
  | goldVault => exact .goldVault

theorem signers_isKeypair {accounts : List AccountInfo} {k : Pubkey} (h : signers accounts k) :
    k.isKeypair = true := by
  obtain ⟨info, -, hsigner, rfl⟩ := h
  exact info.isKeypair_of_isSigner hsigner

/-- What rights in `R` leave as it is. -/
structure Untouched (R : Right → Prop) (s s' : State) : Prop where
  config : ¬ R .config → s'.config = s.config ∧ s'.configResized = s.configResized ∧
    s'.mintAuthority = s.mintAuthority
  rounds : ¬ R .rounds → s'.rounds = s.rounds ∧ s'.poolRounds = s.poolRounds ∧
    s'.board = s.board ∧ s'.vars = s.vars
  miners : ¬ R .miners → s'.miners = s.miners ∧ s'.minersExtended = s.minersExtended ∧
    s'.poolMembers = s.poolMembers
  automations : ¬ R .automations → s'.automations = s.automations
  referrals : ¬ R .referrals → s'.referrers = s.referrers
  stakes : ¬ R .stakes → s'.stakes = s.stakes ∧ s'.stakesV2 = s.stakesV2
  otc : ¬ R .otc → s'.otcTreasury = s.otcTreasury ∧ s'.otcUsers = s.otcUsers
  minted : ¬ R .mint → s'.mintSupply ≤ s.mintSupply
  burned : ¬ R .burn → s.mintSupply ≤ s'.mintSupply
  vaults : ∀ owner mint, ¬ Spends (fun k => k.isKeypair = true) R owner →
    s.tokensOf mint owner ≤ s'.tokensOf mint owner

section Acts

variable {signs : Pubkey → Prop} {R : Right → Prop} {s s' s'' : State}

theorem Untouched.refl (s : State) : Untouched R s s where
  config _ := ⟨rfl, rfl, rfl⟩
  rounds _ := ⟨rfl, rfl, rfl, rfl⟩
  miners _ := ⟨rfl, rfl, rfl⟩
  automations _ := rfl
  referrals _ := rfl
  stakes _ := ⟨rfl, rfl⟩
  otc _ := ⟨rfl, rfl⟩
  minted _ := le_refl _
  burned _ := le_refl _
  vaults _ _ _ := le_refl _

theorem Untouched.trans (h : Untouched R s s') (h' : Untouched R s' s'') : Untouched R s s'' where
  config hno := by
    obtain ⟨h₁, h₂, h₃⟩ := h.config hno
    obtain ⟨h₁', h₂', h₃'⟩ := h'.config hno
    exact ⟨h₁'.trans h₁, h₂'.trans h₂, h₃'.trans h₃⟩
  rounds hno := by
    obtain ⟨h₁, h₂, h₃, h₄⟩ := h.rounds hno
    obtain ⟨h₁', h₂', h₃', h₄'⟩ := h'.rounds hno
    exact ⟨h₁'.trans h₁, h₂'.trans h₂, h₃'.trans h₃, h₄'.trans h₄⟩
  miners hno := by
    obtain ⟨h₁, h₂, h₃⟩ := h.miners hno
    obtain ⟨h₁', h₂', h₃'⟩ := h'.miners hno
    exact ⟨h₁'.trans h₁, h₂'.trans h₂, h₃'.trans h₃⟩
  automations hno := (h'.automations hno).trans (h.automations hno)
  referrals hno := (h'.referrals hno).trans (h.referrals hno)
  stakes hno := by
    obtain ⟨h₁, h₂⟩ := h.stakes hno
    obtain ⟨h₁', h₂'⟩ := h'.stakes hno
    exact ⟨h₁'.trans h₁, h₂'.trans h₂⟩
  otc hno := by
    obtain ⟨h₁, h₂⟩ := h.otc hno
    obtain ⟨h₁', h₂'⟩ := h'.otc hno
    exact ⟨h₁'.trans h₁, h₂'.trans h₂⟩
  minted hno := (h'.minted hno).trans (h.minted hno)
  burned hno := (h.burned hno).trans (h'.burned hno)
  vaults owner mint hno := (h.vaults owner mint hno).trans (h'.vaults owner mint hno)

/-- Funds move, and leave only the vaults that may be spent. -/
theorem Untouched.funds {l : Pubkey → ℕ} {tok : Pubkey → Option ℕ} {supply : ℕ}
    (hminted : ¬ R .mint → supply ≤ s.mintSupply) (hburned : ¬ R .burn → s.mintSupply ≤ supply)
    (hvaults : ∀ owner mint, ¬ Spends (fun k => k.isKeypair = true) R owner →
      balances s.tokens (.associatedTokenAddress owner mint) ≤
        balances tok (.associatedTokenAddress owner mint)) :
    Untouched R s { s with lamports := l, tokens := tok, mintSupply := supply } :=
  { Untouched.refl s with minted := hminted, burned := hburned, vaults := hvaults }

/-- Tokens move, and leave only the vaults that may be spent. -/
theorem Untouched.moveTokens {tok : Pubkey → Option ℕ}
    (hvaults : ∀ owner mint, ¬ Spends (fun k => k.isKeypair = true) R owner →
      balances s.tokens (.associatedTokenAddress owner mint) ≤
        balances tok (.associatedTokenAddress owner mint)) :
    Untouched R s { s with tokens := tok } :=
  Untouched.funds (fun _ => le_refl _) (fun _ => le_refl _) hvaults

theorem untouched_emptyTokens {k : Pubkey} {o : Option ℕ} (hzero : balances s.tokens k = 0) :
    Untouched R s { s with tokens := Function.update s.tokens k o } := by
  refine Untouched.moveTokens fun owner mint _ => ?_
  by_cases hk : Pubkey.associatedTokenAddress owner mint = k
  · rw [hk, hzero]
    exact Nat.zero_le _
  · rw [balances_update_of_ne hk]

/-- **An act touches what its right allows.** -/
theorem Act.untouched (hsigns : ∀ k, signs k → k.isKeypair = true) (h : Act signs R s s') :
    Untouched R s s' := by
  have hsame := Untouched.refl (R := R) s
  cases h with
  | move dest hsource hn => exact { hsame with }
  | transfer howner hok =>
    obtain ⟨tok, rfl, hmoved, -⟩ := (s.transferTokens_spec _ _ _).elim hok
    refine Untouched.moveTokens fun owner' mint' hno => hmoved.le fun heq => hno ?_
    cases heq
    exact howner.mono hsigns fun _ => id
  | burn hmay hok =>
    obtain ⟨tok, rfl, -, hburned⟩ := (s.burnTokens_spec _ _).elim hok
    refine Untouched.funds (fun _ => Nat.sub_le ..) (fun hno => absurd hmay hno) ?_
    intro owner' mint' hno
    have hbalance := hburned (.associatedTokenAddress owner' mint')
    split at hbalance
    case isTrue heq =>
      cases heq
      exact absurd .treasury hno
    case isFalse => omega
  | mint hmay hok =>
    obtain ⟨tok, rfl, hminted⟩ := (s.mintGodl_spec _ _).elim hok
    refine Untouched.funds (fun hno => absurd hmay hno) (fun _ => Nat.le_add_right ..) ?_
    intro owner' mint' _
    have hbalance := hminted (.associatedTokenAddress owner' mint')
    omega
  | openTokens hnone => exact untouched_emptyTokens (balances_of_none hnone)
  | closeTokens hzero => exact untouched_emptyTokens (balances_of_eq hzero)
  | swap _ _ hl htok =>
    refine Untouched.funds (fun _ => le_refl _) (fun _ => le_refl _) fun owner mint hno => ?_
    rw [balances, balances, htok]
    rintro ⟨mint', heq | heq⟩
    · cases heq
      exact hno .treasury
    · cases heq
      exact hno .goldVault
  | game hmay => exact { hsame with rounds := fun hno => absurd hmay hno }
  | otcBooks hmay => exact { hsame with otc := fun hno => absurd hmay hno }
  | config hmay => exact { hsame with config := fun hno => absurd hmay hno }
  | mintAuthority hmay => exact { hsame with config := fun hno => absurd hmay hno }
  | miner hmay => exact { hsame with miners := fun hno => absurd hmay hno }
  | minerExtended hmay => exact { hsame with miners := fun hno => absurd hmay hno }
  | poolMember hmay => exact { hsame with miners := fun hno => absurd hmay hno }
  | automation hmay => exact { hsame with automations := fun hno => absurd hmay hno }
  | closeAutomation hmay => exact { hsame with automations := fun hno => absurd hmay hno }
  | referrer hmay => exact { hsame with referrals := fun hno => absurd hmay hno }
  | stake hmay => exact { hsame with stakes := fun hno => absurd hmay hno }
  | stakeV2 hmay => exact { hsame with stakes := fun hno => absurd hmay hno }
  | closeStakeV2 hmay => exact { hsame with stakes := fun hno => absurd hmay hno }
  | otcUser hmay => exact { hsame with otc := fun hno => absurd hmay hno }
  | log | books | openSingleton | asset => exact { hsame with }

theorem Acts.untouched (hsigns : ∀ k, signs k → k.isKeypair = true) (h : Acts signs R s s') :
    Untouched R s s' := by
  induction h with
  | refl => exact .refl s
  | tail _ hact ih => exact ih.trans (hact.untouched hsigns)

end Acts

end Godl
