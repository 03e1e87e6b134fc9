import Godl.Proof.Frames
import Godl.Program.Processor

/-!
# The lamports that the books record

The treasury, the SOL motherlode, the OTC treasury, the miners, the referrers and the
automations keep a ledger of lamports.  Such an account is due its rent and what its
ledger records.  An instruction that moves none of the ledgers leaves what is due alone
and takes nothing out of these accounts; one that does is checked account by account.

## Main definitions

* `State.due` — what an account has to hold.
* `State.Backed` — every account holds what it is due.
* `Sound s₀ s` — nothing is due that was not, and no ledger account lost anything.
* `Holds P x` — the state that `x` returns satisfies `P`.
-/

namespace Godl

open Lib

/-- A miner holds its rent, the fee it set aside and the SOL it can claim. -/
def Miner.due (m : Miner) : ℕ := minimumBalance minerSize + m.checkpointFee + m.rewardsSol

/-- A referrer holds its rent and the SOL it can claim. -/
def Referrer.due (r : Referrer) : ℕ := minimumBalance referrerSize + r.rewardsSol

/-- An automation holds its rent and its balance. -/
def AutomationV2.due (a : AutomationV2) : ℕ := minimumBalance automationV2Size + a.balance

/-- What the account at an address has to hold. -/
def State.due (s : State) : Pubkey → ℕ
  | .treasuryPda =>
      if s.opened .treasury then minimumBalance treasurySize + s.treasury.balance else 0
  | .solMotherlodePda =>
      if s.opened .solMotherlode then
        minimumBalance solMotherlodeSize + s.solMotherlode.amount
      else 0
  | .otcTreasuryPda =>
      if s.opened .otcTreasury then
        minimumBalance otcTreasurySize + s.otcTreasury.solBalance
      else 0
  | .minerPda authority => s.miners.view 0 Miner.due (.minerPda authority)
  | .referrerPda authority => s.referrers.view 0 Referrer.due (.referrerPda authority)
  | .automationV2Pda authority =>
      s.automations.view 0 AutomationV2.due (.automationV2Pda authority)
  | _ => 0

/-- Every account holds what it is due. -/
def State.Backed (s : State) : Prop := ∀ k, s.due k ≤ s.lamports k

/-- The account keeps a ledger of lamports. -/
def KeepsLedger : Pubkey → Prop
  | .treasuryPda | .solMotherlodePda | .otcTreasuryPda => True
  | .minerPda _ | .referrerPda _ | .automationV2Pda _ => True
  | _ => False

/-- Nothing became due, no account with a ledger lost lamports, and what the treasury booked
is the same. -/
def Sound (s₀ s : State) : Prop :=
  s.due = s₀.due ∧ Grew KeepsLedger s₀.lamports s.lamports ∧
    s.treasury.balance = s₀.treasury.balance

/-! ## What is due -/

section Due

variable {s s₀ : State} {k : Pubkey}

theorem State.due_of_not_keepsLedger (hk : ¬ KeepsLedger k) : s.due k = 0 := by
  cases k <;> simp_all [KeepsLedger, State.due]

theorem Sound.refl (s : State) : Sound s s := ⟨rfl, Grew.refl _ _, rfl⟩

theorem Sound.trans {s₁ s₂ : State} (h : Sound s s₁) (h' : Sound s₁ s₂) : Sound s s₂ :=
  ⟨h'.1.trans h.1, h.2.1.trans h'.2.1, h'.2.2.trans h.2.2⟩

theorem Sound.backed (h : Sound s₀ s) (hbacked : s₀.Backed) : s.Backed := by
  intro k
  by_cases hk : KeepsLedger k
  · rw [h.1]
    exact (hbacked k).trans (h.2.1 k hk)
  · rw [State.due_of_not_keepsLedger hk]
    exact Nat.zero_le _

theorem KeepsLedger.isDerived (hk : KeepsLedger k) : IsDerived k := by
  cases k <;> first | rfl | cases hk

/-- A signer keeps no ledger. -/
theorem signer_keepsNoLedger {info : AccountInfo} (h : info.isSigner = true) :
    ¬ KeepsLedger info.key := by
  intro hk
  have hderived : info.key.isKeypair = false := hk.isDerived
  rw [info.isKeypair_of_isSigner h] at hderived
  cases hderived

theorem State.due_putMiner (s : State) (m : Miner) :
    ({ s with miners := s.miners.put m } : State).due = Function.update s.due m.pda m.due := by
  funext k
  cases k with
  | minerPda authority => simp only [State.due, Store.view_put, Function.update_apply]
  | _ => rw [Function.update_of_ne (by simp [Miner.pda])]; rfl

theorem State.due_putReferrer (s : State) (r : Referrer) :
    ({ s with referrers := s.referrers.put r } : State).due =
      Function.update s.due r.pda r.due := by
  funext k
  cases k with
  | referrerPda authority => simp only [State.due, Store.view_put, Function.update_apply]
  | _ => rw [Function.update_of_ne (by simp [Referrer.pda])]; rfl

theorem State.due_putAutomation (s : State) (a : AutomationV2) :
    ({ s with automations := s.automations.put a } : State).due =
      Function.update s.due a.pda a.due := by
  funext k
  cases k with
  | automationV2Pda authority => simp only [State.due, Store.view_put, Function.update_apply]
  | _ => rw [Function.update_of_ne (by simp [AutomationV2.pda])]; rfl

theorem State.due_eraseAutomation (s : State) (authority : Pubkey) :
    ({ s with automations := s.automations.erase (.automationV2Pda authority) } : State).due =
      Function.update s.due (.automationV2Pda authority) 0 := by
  funext k
  cases k with
  | automationV2Pda other =>
    simp only [State.due, Store.view, Store.get_erase, Function.update_apply]
    split <;> rfl
  | _ => rw [Function.update_of_ne (by simp)]; rfl

theorem due_miner {m : Miner} (h : s.miners.get k = some m) : s.due k = m.due := by
  obtain rfl := s.miners.key_of_get k m h
  exact Store.view_of_get h

theorem due_referrer {r : Referrer} (h : s.referrers.get k = some r) : s.due k = r.due := by
  obtain rfl := s.referrers.key_of_get k r h
  exact Store.view_of_get h

theorem due_automation {a : AutomationV2} (h : s.automations.get k = some a) :
    s.due k = a.due := by
  obtain rfl := s.automations.key_of_get k a h
  exact Store.view_of_get h

/-- What a stored miner is due, at its own address. -/
theorem due_miner_pda {m : Miner} (h : s.miners.get k = some m) : s.due m.pda = m.due := by
  rw [s.miners.key_of_get k m h]
  exact due_miner h

theorem due_referrer_pda {r : Referrer} (h : s.referrers.get k = some r) :
    s.due r.pda = r.due := by
  rw [s.referrers.key_of_get k r h]
  exact due_referrer h

end Due

/-! ## Computations -/

/-- A value that carries a state. -/
class HasState (α : Type) where
  state : α → State

instance : HasState State := ⟨id⟩

instance {α β : Type} [HasState β] : HasState (α × β) := ⟨fun p => HasState.state p.2⟩

/-- The state that is returned satisfies `P`. -/
def Holds {α : Type} [HasState α] (P : State → Prop) (x : Result α) : Prop :=
  Ensures x fun a => P (HasState.state a)

section Rules

variable {α β : Type} {P : State → Prop}

theorem holds_bind [HasState α] [HasState β] {x : Result α} {f : α → Result β} (hx : Holds P x)
    (hf : ∀ a, P (HasState.state a) → Holds P (f a)) : Holds P (x >>= f) :=
  Ensures.bind hx hf

/-- What is returned is the state itself. -/
theorem holds_then [HasState β] {x : Result State} {f : State → Result β} (hx : Holds P x)
    (hf : ∀ s, P s → Holds P (f s)) : Holds P (x >>= f) := holds_bind hx hf

theorem holds_skip [HasState β] {a : α} {f : α → Result β} (hf : Holds P (f a)) :
    Holds P (pure a >>= f) := by
  rwa [Holds, ensures_bind, ensures_pure]

/-- What is read does not matter. -/
theorem holds_any [HasState β] {x : Result α} {f : α → Result β} (hf : ∀ a, Holds P (f a)) :
    Holds P (x >>= f) := by
  rw [Holds, ensures_bind]
  exact ensures_of_forall hf

theorem holds_pure [HasState α] {a : α} (ha : P (HasState.state a)) :
    Holds P (pure a : Result α) := ensures_pure.2 ha

theorem holds_error [HasState α] {e : ProgramError} : Holds P (.error e : Result α) :=
  ensures_error.2 trivial

theorem holds_throw [HasState α] {e : ProgramError} : Holds P (throw e : Result α) :=
  ensures_throw.2 trivial

theorem holds_ite [HasState α] {c : Prop} [Decidable c] {x y : Result α} (hx : Holds P x)
    (hy : Holds P y) : Holds P (if c then x else y) := by
  split
  · exact hx
  · exact hy

end Rules

/-! ## Operations that are sound -/

section Operations

variable {s₀ s : State} (hs : Sound s₀ s)

include hs

/-- Lamports move, no account with a ledger losing any. -/
theorem Sound.lamports {l : Pubkey → ℕ} (hl : Grew KeepsLedger s.lamports l) :
    Sound s₀ { s with lamports := l } := ⟨hs.1, hs.2.1.trans hl, hs.2.2⟩

theorem collect_sound (dest : Pubkey) (n : ℕ) (payer : AccountInfo) :
    Holds (Sound s₀) (s.collect dest n payer) := by
  refine Ensures.mono (s.collect_spec dest n payer) ?_
  rintro _ ⟨l, rfl, -, hl⟩
  exact hs.lamports (hl.mono fun _ => KeepsLedger.isDerived)

theorem createAccount_sound (target : AccountInfo) (len : ℕ) (payer : AccountInfo) :
    Holds (Sound s₀) (s.createAccount target len payer) := by
  refine Ensures.mono (s.createAccount_spec target len payer) ?_
  rintro _ ⟨-, l, rfl, -, hl⟩
  exact hs.lamports (hl.mono fun _ => KeepsLedger.isDerived)

theorem transferTokens_sound (source dest : Pubkey) (n : ℕ) :
    Holds (Sound s₀) (s.transferTokens source dest n) := by
  refine Ensures.mono (s.transferTokens_spec source dest n) ?_
  rintro _ ⟨tok, rfl, -⟩
  exact hs

theorem transferTokensFrom_sound (authority : AccountInfo) (source dest : Pubkey) (n : ℕ) :
    Holds (Sound s₀) (s.transferTokensFrom authority source dest n) :=
  holds_any fun _ => transferTokens_sound hs source dest n

theorem burnTokens_sound (source : Pubkey) (n : ℕ) :
    Holds (Sound s₀) (s.burnTokens source n) := by
  refine Ensures.mono (s.burnTokens_spec source n) ?_
  rintro _ ⟨tok, rfl, -⟩
  exact hs

theorem openTokenAccount_sound (info : AccountInfo) (owner mint : Pubkey)
    (payer : AccountInfo) : Holds (Sound s₀) (s.openTokenAccount info owner mint payer) := by
  refine Ensures.mono (s.openTokenAccount_spec info owner mint payer) ?_
  rintro _ ⟨-, l, tok, rfl, hl, -⟩
  exact hs.lamports (hl.mono fun _ => KeepsLedger.isDerived)

theorem closeTokenAccount_sound {source : Pubkey} (dest : Pubkey) (h : ¬ KeepsLedger source) :
    Holds (Sound s₀) (s.closeTokenAccount source dest) := by
  refine Ensures.mono (s.closeTokenAccount_spec source dest) ?_
  rintro _ ⟨l, tok, rfl, hl, -⟩
  exact hs.lamports (hl.grew h)

theorem releaseLamports_sound {source : Pubkey} (dest : Pubkey) (h : ¬ KeepsLedger source) :
    Sound s₀ (s.releaseLamports source dest) := by
  obtain ⟨l, heq, hl⟩ := s.releaseLamports_spec source dest
  rw [heq]
  exact hs.lamports (hl.grew h)

theorem syncNative_sound (account : Pubkey) : Holds (Sound s₀) (s.syncNative account) := by
  refine Ensures.mono (s.syncNative_spec account) ?_
  rintro _ ⟨tok, rfl, -⟩
  exact hs

/-- The treasury may be written, but for its balance. -/
theorem Sound.treasury {t : Treasury} (ht : t.balance = s₀.treasury.balance) :
    Sound s₀ { s with treasury := t } := by
  refine ⟨?_, hs.2.1, ht⟩
  rw [← hs.1]
  funext k
  cases k <;> simp only [State.due, ht, hs.2.2]

/-- A singleton without a ledger may be opened. -/
theorem Sound.open {w : Singleton} (htreasury : w ≠ .treasury)
    (hmotherlode : w ≠ .solMotherlode) (hotc : w ≠ .otcTreasury) :
    Sound s₀ { s with opened := Function.update s.opened w true } := by
  refine ⟨?_, hs.2⟩
  rw [← hs.1]
  funext k
  cases k <;> simp only [State.due, Function.update_of_ne htreasury.symm,
    Function.update_of_ne hmotherlode.symm, Function.update_of_ne hotc.symm]

/-- A miner may be written back with what it was due. -/
theorem Sound.putMiner {m : Miner} (hm : s₀.due m.pda = m.due) :
    Sound s₀ { s with miners := s.miners.put m } := by
  refine ⟨?_, hs.2⟩
  rw [State.due_putMiner, hs.1, ← hm, Function.update_eq_self]

theorem Sound.putReferrer {r : Referrer} (hr : s₀.due r.pda = r.due) :
    Sound s₀ { s with referrers := s.referrers.put r } := by
  refine ⟨?_, hs.2⟩
  rw [State.due_putReferrer, hs.1, ← hr, Function.update_eq_self]

end Operations

end Godl
