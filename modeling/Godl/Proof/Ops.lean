import Godl.Program.Open

/-!
# What the operations on accounts do

Each operation of the chain changes lamports or token balances and nothing else.  Its
specification names the new functions and says, by one equation per account, how they
differ from the old ones; a proof about a handler obtains the names and carries on with
the rest of the state unchanged by definition.

## Main definitions

* `Moved` — lamports or tokens moved from one account to another.
* `Grew K` — no account in `K` lost anything.
* the `*_spec` lemmas.
-/

namespace Godl

open Lib

/-- `n` units moved from `source` to `dest`; the two may be the same. -/
structure Moved (l l' : Pubkey → ℕ) (source dest : Pubkey) (n : ℕ) : Prop where
  covered : n ≤ l source
  balance : ∀ k, l' k + (if k = source then n else 0) = l k + (if k = dest then n else 0)

/-- No account in `K` lost anything. -/
def Grew (K : Pubkey → Prop) (l l' : Pubkey → ℕ) : Prop := ∀ k, K k → l k ≤ l' k

/-- The balances of the token accounts, zero where there is no account. -/
def balances (tokens : Pubkey → Option ℕ) (k : Pubkey) : ℕ := (tokens k).getD 0

section Balances

variable {tokens : Pubkey → Option ℕ} {k j : Pubkey} {b : ℕ}

theorem balances_of_eq (h : tokens k = some b) : balances tokens k = b := by
  simp [balances, h]

theorem balances_of_none (h : tokens k = none) : balances tokens k = 0 := by
  simp [balances, h]

@[simp] theorem balances_update_some :
    balances (Function.update tokens k (some b)) k = b := by
  simp [balances]

@[simp] theorem balances_update_none :
    balances (Function.update tokens k none) k = 0 := by
  simp [balances]

theorem balances_update_of_ne {o : Option ℕ} (h : j ≠ k) :
    balances (Function.update tokens k o) j = balances tokens j := by
  simp [balances, h]

end Balances

/-- The accounts without a key pair. -/
abbrev IsDerived (k : Pubkey) : Prop := k.isKeypair = false

section Moved

variable {l l' l'' : Pubkey → ℕ} {source dest k : Pubkey} {n : ℕ} {K : Pubkey → Prop}

theorem moved_update (hn : n ≤ l source) :
    Moved l (Function.update (Function.update l source (l source - n)) dest
      (Function.update l source (l source - n) dest + n)) source dest n := by
  refine ⟨hn, fun k => ?_⟩
  by_cases hd : k = dest
  · subst hd
    by_cases hs : k = source
    · subst hs; simp; omega
    · simp [hs]
  · by_cases hs : k = source
    · subst hs; simp [hd]; omega
    · simp [hd, hs]

theorem Moved.le (h : Moved l l' source dest n) (hk : k ≠ source) : l k ≤ l' k := by
  have := h.balance k
  rw [if_neg hk] at this
  omega

theorem Moved.grew (h : Moved l l' source dest n) (hK : ¬ K source) : Grew K l l' :=
  fun _ hk => h.le fun heq => hK (heq ▸ hk)

theorem Grew.refl (K : Pubkey → Prop) (l : Pubkey → ℕ) : Grew K l l := fun _ _ => le_refl _

theorem Grew.trans (h : Grew K l l') (h' : Grew K l' l'') : Grew K l l'' :=
  fun k hk => (h k hk).trans (h' k hk)

theorem Grew.mono {K' : Pubkey → Prop} (h : Grew K l l') (hK : ∀ k, K' k → K k) :
    Grew K' l l' := fun k hk => h k (hK k hk)

end Moved

namespace State

variable {s : State}

/-! ## Lamports -/

theorem moveLamports_spec {source : Pubkey} (dest : Pubkey) {n : ℕ} (hn : n ≤ s.lamports source) :
    ∃ l, s.moveLamports source dest n = { s with lamports := l } ∧
      Moved s.lamports l source dest n :=
  ⟨_, rfl, moved_update hn⟩

/-- Lamports leave one account of the program for another account. -/
theorem send_spec (s : State) (source dest : Pubkey) (n : ℕ) :
    Ensures (s.send source dest n) fun s' =>
      ∃ l, s' = { s with lamports := l } ∧ Moved s.lamports l source dest n := by
  simp only [send, ensures_bind, ensures_require, ensures_pure]
  exact moveLamports_spec dest

/-- A signer pays; no derived address loses lamports. -/
theorem collect_spec (s : State) (dest : Pubkey) (n : ℕ) (payer : AccountInfo) :
    Ensures (s.collect dest n payer) fun s' =>
      ∃ l, s' = { s with lamports := l } ∧ Moved s.lamports l payer.key dest n ∧
        Grew IsDerived s.lamports l := by
  simp only [collect, ensures_bind, ensures_require, ensures_pure]
  intro hsigner hn
  obtain ⟨l, heq, hl⟩ := moveLamports_spec dest hn
  refine ⟨l, heq, hl, hl.grew ?_⟩
  simp [payer.isKeypair_of_isSigner hsigner]

/-- All lamports of an account go to another one. -/
theorem releaseLamports_spec (s : State) (source dest : Pubkey) :
    ∃ l, s.releaseLamports source dest = { s with lamports := l } ∧
      Moved s.lamports l source dest (s.lamports source) :=
  moveLamports_spec _ (le_refl _)

/-- A new account: it was empty, and a signer paid for it. -/
theorem createAccount_spec (s : State) (target : AccountInfo) (len : ℕ) (payer : AccountInfo) :
    Ensures (s.createAccount target len payer) fun s' =>
      s.dataIsEmpty target.key = true ∧ ∃ l, s' = { s with lamports := l } ∧
        Moved s.lamports l payer.key target.key (minimumBalance len - s.lamports target.key) ∧
        Grew IsDerived s.lamports l := by
  simp only [createAccount, ensures_bind, ensures_require]
  intro hempty
  exact Ensures.mono (collect_spec s target.key _ payer) fun s' h => ⟨hempty, h⟩

/-! ## Tokens -/

/-- Tokens move between two accounts that exist. -/
theorem transferTokens_spec (s : State) (source dest : Pubkey) (n : ℕ) :
    Ensures (s.transferTokens source dest n) fun s' =>
      ∃ tok, s' = { s with tokens := tok } ∧
        Moved (balances s.tokens) (balances tok) source dest n ∧
        (∀ k, (s.tokens k).isSome → (tok k).isSome) := by
  simp only [transferTokens, ensures_bind, ensures_fromOption, ensures_require, ensures_pure]
  intro b hb hn t ht
  refine ⟨_, rfl, ⟨by rwa [balances_of_eq hb], fun k => ?_⟩, fun k hk => ?_⟩
  · by_cases hd : k = dest
    · subst hd
      rw [balances_update_some, if_pos rfl, ← balances_of_eq ht]
      by_cases hs : k = source
      · subst hs
        rw [balances_update_some, balances_of_eq hb, if_pos rfl]
        omega
      · rw [balances_update_of_ne hs, if_neg hs]
        omega
    · rw [balances_update_of_ne hd, if_neg hd]
      by_cases hs : k = source
      · subst hs
        rw [balances_update_some, balances_of_eq hb, if_pos rfl]
        omega
      · rw [balances_update_of_ne hs, if_neg hs]
  · by_cases hd : k = dest
    · simp [hd]
    · by_cases hs : k = source
      · subst hs; simp [hd]
      · simpa [hd, hs] using hk

theorem transferTokens_treasury (s : State) (source dest : Pubkey) (n : ℕ) :
    Ensures (s.transferTokens source dest n) fun s' => s'.treasury = s.treasury := by
  refine Ensures.mono (transferTokens_spec s source dest n) ?_
  rintro _ ⟨tok, rfl, -⟩
  rfl

/-- Burned tokens leave their account and the supply. -/
theorem burnTokens_spec (s : State) (source : Pubkey) (n : ℕ) :
    Ensures (s.burnTokens source n) fun s' =>
      ∃ tok, s' = { s with tokens := tok, mintSupply := s.mintSupply - n } ∧
        n ≤ s.mintSupply ∧
        (∀ k, balances tok k + (if k = source then n else 0) = balances s.tokens k) := by
  simp only [burnTokens, ensures_bind, ensures_fromOption, ensures_require, ensures_pure]
  intro b hb hn hsupply
  refine ⟨_, rfl, hsupply, fun k => ?_⟩
  by_cases hs : k = source
  · subst hs
    rw [balances_update_some, balances_of_eq hb, if_pos rfl]
    omega
  · rw [balances_update_of_ne hs, if_neg hs, Nat.add_zero]

theorem burnTokens_treasury (s : State) (source : Pubkey) (n : ℕ) :
    Ensures (s.burnTokens source n) fun s' => s'.treasury = s.treasury := by
  refine Ensures.mono (burnTokens_spec s source n) ?_
  rintro _ ⟨tok, rfl, -⟩
  rfl

/-- Minted tokens appear in their account and in the supply. -/
theorem mintGodl_spec (s : State) (dest : Pubkey) (n : ℕ) :
    Ensures (s.mintGodl dest n) fun s' =>
      ∃ tok, s' = { s with tokens := tok, mintSupply := s.mintSupply + n } ∧
        (∀ k, balances tok k = balances s.tokens k + (if k = dest then n else 0)) := by
  simp only [mintGodl, ensures_bind, ensures_fromOption, ensures_pure]
  intro b hb
  refine ⟨_, rfl, fun k => ?_⟩
  by_cases hs : k = dest
  · subst hs
    rw [balances_update_some, balances_of_eq hb, if_pos rfl]
  · rw [balances_update_of_ne hs, if_neg hs, Nat.add_zero]

/-- A token account opened or checked: no balance changes. -/
theorem openTokenAccount_spec (s : State) (info : AccountInfo) (owner mint : Pubkey)
    (payer : AccountInfo) :
    Ensures (s.openTokenAccount info owner mint payer) fun s' =>
      info.key = .associatedTokenAddress owner mint ∧
      ∃ l tok, s' = { s with lamports := l, tokens := tok } ∧
        Grew IsDerived s.lamports l ∧ balances tok = balances s.tokens := by
  unfold openTokenAccount
  split
  · simp only [createTokenAccount, checkSeeds, ensures_bind, ensures_require, ensures_pure]
    intro hkey
    refine Ensures.mono (createAccount_spec s info tokenAccountSize payer) ?_
    rintro _ ⟨hempty, l, rfl, -, hl⟩
    refine ⟨hkey, l, _, rfl, hl, ?_⟩
    have hnone : s.tokens info.key = none := by
      simp only [dataIsEmpty, Bool.and_eq_true] at hempty
      simpa using hempty.1.1.1.1.1.1.1.1.2
    funext k
    by_cases hk : k = info.key
    · subst hk
      simp [balances, hnone]
    · simp [balances, hk]
  · simp only [asAssociatedTokenAccount, checkAddress, ensures_bind, ensures_require,
      ensures_fromOption, ensures_pure]
    intro hkey _ _
    exact ⟨hkey, s.lamports, s.tokens, rfl, Grew.refl _ _, rfl⟩

/-- An empty token account disappears; no balance changes. -/
theorem closeTokenAccount_spec (s : State) (source dest : Pubkey) :
    Ensures (s.closeTokenAccount source dest) fun s' =>
      ∃ l tok, s' = { s with lamports := l, tokens := tok } ∧
        Moved s.lamports l source dest (s.lamports source) ∧
        balances tok = balances s.tokens := by
  simp only [closeTokenAccount, ensures_bind, ensures_require, ensures_pure]
  intro hzero
  obtain ⟨l, heq, hl⟩ := releaseLamports_spec s source dest
  rw [heq]
  refine ⟨l, _, rfl, hl, ?_⟩
  funext k
  by_cases hk : k = source
  · subst hk
    simp [balances, hzero]
  · simp [balances, hk]

/-- Only the balance of the wrapped SOL account changes, and it does not fall. -/
theorem syncNative_spec (s : State) (account : Pubkey) :
    Ensures (s.syncNative account) fun s' =>
      ∃ tok, s' = { s with tokens := tok } ∧
        ∀ k, k ≠ account → balances tok k = balances s.tokens k := by
  simp only [syncNative, ensures_bind, ensures_fromOption, ensures_subU64, ensures_require,
    ensures_pure]
  intro _ _ _ _
  refine ⟨_, rfl, fun k hk => ?_⟩
  simp [balances, hk]

end State

/-! ## Opening accounts -/

/-- A miner is opened or loaded: a fresh one is all zero. -/
theorem openMiner_spec (e : ProgramError) (minerInfo : AccountInfo) (authority : Pubkey)
    (payer : AccountInfo) (s : State) :
    Ensures (openMiner e minerInfo authority payer s) fun p =>
      ∃ l, p.2 = { s with lamports := l } ∧ Grew IsDerived s.lamports l ∧
        p.1.authority = authority ∧
        ((s.miners.get minerInfo.key = none ∧
            p.1 = { Miner.zeroed with authority := authority }) ∨
          s.miners.get minerInfo.key = some p.1) := by
  unfold openMiner
  split
  · simp only [ensures_bind, ensures_pure]
    refine Ensures.mono (State.createAccount_spec s minerInfo minerSize payer) ?_
    rintro _ ⟨hempty, l, rfl, -, hl⟩
    refine ⟨l, rfl, hl, trivial, .inl ⟨?_, trivial⟩⟩
    simp only [State.dataIsEmpty, Bool.and_eq_true] at hempty
    simpa using hempty.1.1.1.1.1.1.1.1.1.1.1.1.1.1.1.1.1.1
  · simp only [ensures_bind, ensures_fromOption, ensures_require, ensures_pure]
    intro m hm hauth
    exact ⟨s.lamports, rfl, Grew.refl _ _, hauth, .inr hm⟩

end Godl
