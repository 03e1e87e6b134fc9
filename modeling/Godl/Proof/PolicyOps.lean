import Godl.Policy
import Godl.Proof.Frames

/-!
# The operations on accounts follow the policy

Each operation that a handler calls on lamports or tokens is one act.

## Main definitions

* `FundsMoved signs R s s'` — acts that move lamports and tokens and write nothing else.
-/

namespace Godl

open Lib

/-- Acts that move lamports and tokens and write nothing else. -/
def FundsMoved (signs : Pubkey → Prop) (R : Right → Prop) (s s' : State) : Prop :=
  ∃ l tok supply, s' = { s with lamports := l, tokens := tok, mintSupply := supply } ∧
    Acts signs R s s'

section Funds

variable {signs : Pubkey → Prop} {R : Right → Prop} {s s' s'' : State}

theorem FundsMoved.refl (s : State) : FundsMoved signs R s s := ⟨_, _, _, rfl, .refl⟩

theorem FundsMoved.acts (h : FundsMoved signs R s s') : Acts signs R s s' := by
  obtain ⟨_, _, _, -, h⟩ := h
  exact h

theorem FundsMoved.trans (h : FundsMoved signs R s s') (h' : FundsMoved signs R s' s'') :
    FundsMoved signs R s s'' := by
  obtain ⟨l, tok, supply, rfl, hacts⟩ := h
  obtain ⟨l', tok', supply', rfl, hacts'⟩ := h'
  exact ⟨l', tok', supply', rfl, hacts.trans hacts'⟩

/-- What moves funds goes on with what moves funds. -/
theorem FundsMoved.after {x : Result State} (h : FundsMoved signs R s s')
    (hx : Ensures x (FundsMoved signs R s')) : Ensures x (FundsMoved signs R s) :=
  Ensures.mono hx fun _ => h.trans

/-- Lamports leave a signer or an account of the program. -/
theorem moveLamports_funds {source : Pubkey} (dest : Pubkey) {n : ℕ}
    (hsource : signs source ∨ source.isKeypair = false ∨ (s.stakesV2.get source).isSome = true)
    (hn : n ≤ s.lamports source) : FundsMoved signs R s (s.moveLamports source dest n) :=
  ⟨_, s.tokens, s.mintSupply, rfl, .single (.move dest hsource hn)⟩

theorem send_funds {source : Pubkey} (dest : Pubkey) (n : ℕ) (hsource : source.isKeypair = false) :
    Ensures (s.send source dest n) (FundsMoved signs R s) := by
  simp only [State.send, ensures_bind, ensures_require, ensures_pure]
  exact moveLamports_funds dest (.inr (.inl hsource))

theorem collect_funds {payer : AccountInfo} (hpayer : payer.isSigner = true → signs payer.key)
    (dest : Pubkey) (n : ℕ) :
    Ensures (s.collect dest n payer) (FundsMoved signs R s) := by
  simp only [State.collect, ensures_bind, ensures_require, ensures_pure]
  exact fun hsigner => moveLamports_funds dest (.inl (hpayer hsigner))

theorem releaseLamports_funds {source : Pubkey} (dest : Pubkey)
    (hsource : source.isKeypair = false ∨ (s.stakesV2.get source).isSome = true) :
    FundsMoved signs R s (s.releaseLamports source dest) :=
  moveLamports_funds dest (.inr hsource) (le_refl _)

theorem createAccount_funds {payer : AccountInfo}
    (hpayer : payer.isSigner = true → signs payer.key) (target : AccountInfo) (len : ℕ) :
    Ensures (s.createAccount target len payer) (FundsMoved signs R s) := by
  simp only [State.createAccount, ensures_bind, ensures_require]
  exact fun _ => collect_funds hpayer _ _

theorem transferTokens_funds {source dest : Pubkey} {owner owner' mint : Pubkey} (n : ℕ)
    (hsource : source = .associatedTokenAddress owner mint)
    (hdest : dest = .associatedTokenAddress owner' mint) (howner : Spends signs R owner) :
    Ensures (s.transferTokens source dest n) (FundsMoved signs R s) := by
  subst hsource hdest
  intro s' hok
  obtain ⟨tok, rfl, -⟩ := (s.transferTokens_spec _ _ n).elim hok
  exact ⟨s.lamports, tok, s.mintSupply, rfl, .single (.transfer howner hok)⟩

theorem transferTokensFrom_funds {authority : AccountInfo} {source dest owner' mint : Pubkey}
    (n : ℕ) (hsign : authority.isSigner = true → signs authority.key)
    (hsource : source = .associatedTokenAddress authority.key mint)
    (hdest : dest = .associatedTokenAddress owner' mint) :
    Ensures (s.transferTokensFrom authority source dest n) (FundsMoved signs R s) := by
  simp only [State.transferTokensFrom, ensures_bind, ensures_require]
  exact fun hsigner => transferTokens_funds n hsource hdest (.signer (hsign hsigner))

theorem burnTokens_funds (mayBurn : R .burn) {source : Pubkey} (n : ℕ)
    (hsource : source = .associatedTokenAddress .treasuryPda mintAddress) :
    Ensures (s.burnTokens source n) (FundsMoved signs R s) := by
  subst hsource
  intro s' hok
  obtain ⟨tok, rfl, -⟩ := (s.burnTokens_spec _ n).elim hok
  exact ⟨s.lamports, tok, _, rfl, .single (.burn mayBurn hok)⟩

theorem mintGodl_funds (mayMint : R .mint) {dest : Pubkey} (n : ℕ)
    (hdest : dest = .associatedTokenAddress .treasuryPda mintAddress) :
    Ensures (s.mintGodl dest n) (FundsMoved signs R s) := by
  subst hdest
  intro s' hok
  obtain ⟨tok, rfl, -⟩ := (s.mintGodl_spec _ n).elim hok
  exact ⟨s.lamports, tok, _, rfl, .single (.mint mayMint hok)⟩

theorem createTokenAccount_funds {payer : AccountInfo}
    (hpayer : payer.isSigner = true → signs payer.key) (info : AccountInfo)
    (owner mint : Pubkey) :
    Ensures (s.createTokenAccount info owner mint payer) (FundsMoved signs R s) := by
  simp only [State.createTokenAccount, ensures_bind, ensures_require]
  intro _
  have hpaid : Ensures (s.createAccount info tokenAccountSize payer) (FundsMoved signs R s) :=
    createAccount_funds hpayer info tokenAccountSize
  refine Ensures.mono ((s.createAccount_spec info tokenAccountSize payer).and hpaid) ?_
  rintro _ ⟨⟨hempty, l, rfl, -⟩, hmoved⟩
  refine ensures_pure.2 (hmoved.trans ⟨l, _, s.mintSupply, rfl, .single (.openTokens ?_)⟩)
  exact (State.noData hempty).tokens

theorem openTokenAccount_funds {payer : AccountInfo}
    (hpayer : payer.isSigner = true → signs payer.key) (info : AccountInfo)
    (owner mint : Pubkey) :
    Ensures (s.openTokenAccount info owner mint payer) fun s' =>
      info.key = .associatedTokenAddress owner mint ∧ FundsMoved signs R s s' := by
  unfold State.openTokenAccount
  split
  · intro s' hok
    obtain ⟨_, hkey, -⟩ := bind_eq_ok.1 hok
    refine ⟨?_, createTokenAccount_funds hpayer info owner mint s' hok⟩
    exact (ensures_require.2 fun h => h :
      Ensures (checkSeeds info _) fun _ => info.key = .associatedTokenAddress owner mint).elim hkey
  · simp only [ensures_bind, ensures_require, ensures_fromOption, ensures_pure]
    exact fun hkey _ _ => ⟨hkey, .refl s⟩

theorem closeTokenAccount_funds {source owner mint : Pubkey} (dest : Pubkey)
    (hsource : source = .associatedTokenAddress owner mint) :
    Ensures (s.closeTokenAccount source dest) (FundsMoved signs R s) := by
  subst hsource
  simp only [State.closeTokenAccount, ensures_bind, ensures_require, ensures_pure]
  intro hzero
  have hreleased : FundsMoved signs R s
      (s.releaseLamports (.associatedTokenAddress owner mint) dest) :=
    releaseLamports_funds dest (.inl rfl)
  refine hreleased.trans ?_
  exact ⟨_, _, s.mintSupply, rfl, .single (.closeTokens hzero)⟩

/-- A step that is taken or left out, and what follows. -/
theorem ensures_optional {α : Type} {c : Prop} [Decidable c] {x : Result State}
    {f : State → Result α} {P : State → Prop} {Q : α → Prop} (hx : c → Ensures x P)
    (hs : ¬ c → P s) (hf : ∀ s', P s' → Ensures (f s') Q) :
    Ensures (if c then x >>= f else pure s >>= f) Q := by
  split
  · exact Ensures.bind (hx ‹_›) hf
  · exact Ensures.bind (ensures_pure.2 (hs ‹_›)) hf

end Funds

end Godl
