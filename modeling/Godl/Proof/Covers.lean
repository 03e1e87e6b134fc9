import Godl.Proof.SoundHandlers
import Godl.Lib.Coverage

/-!
# Covering the books while they are written

A handler that moves a ledger writes the books and moves the lamports in separate
statements.  In between an account holds more or less than it is due; each statement
changes the difference at one or two accounts.

## Main definitions

* `State.Covers s δ` — the accounts with a ledger hold what they are due and `δ` more.
-/

namespace Godl

open Lib

/-- The accounts with a ledger hold what they are due and `δ` more. -/
def State.Covers (s : State) (δ : Pubkey → ℤ) : Prop := Covered KeepsLedger s.due s.lamports δ

section Rules

variable {s s' : State} {δ : Pubkey → ℤ} {l : Pubkey → ℕ} {source dest : Pubkey} {n : ℕ}

theorem State.Backed.covers (h : s.Backed) : s.Covers 0 := fun k _ => by
  have := h k
  simp only [Pi.zero_apply]
  omega

theorem State.Covers.backed (h : s.Covers δ) (hδ : ∀ k, 0 ≤ δ k) : s.Backed := by
  intro k
  by_cases hk : KeepsLedger k
  · exact Covered.exact h (fun k _ => hδ k) hk
  · rw [State.due_of_not_keepsLedger hk]
    exact Nat.zero_le _

namespace State.Covers

theorem sound (h : s.Covers δ) (hs : Sound s s') : s'.Covers δ := by
  rw [State.Covers, hs.1]
  exact Covered.grow h hs.2.1

theorem moved (h : s.Covers δ) (hl : Moved s.lamports l source dest n) :
    ({ s with lamports := l } : State).Covers (δ - gain source n + gain dest n) :=
  Covered.transfer h hl.balance

theorem received (h : s.Covers δ) (hsource : ¬ KeepsLedger source)
    (hl : Moved s.lamports l source dest n) :
    ({ s with lamports := l } : State).Covers (δ + gain dest n) :=
  Covered.receive h hsource hl.balance

theorem putMiner (h : s.Covers δ) {m : Miner} {k : Pubkey} {d : ℕ} (hkey : m.pda = k)
    (hd : s.due k = d) :
    ({ s with miners := s.miners.put m } : State).Covers (δ - gain k (m.due - d)) := by
  rw [State.Covers, State.due_putMiner, hkey, ← hd]
  exact Covered.rebook h k m.due

theorem putReferrer (h : s.Covers δ) {r : Referrer} {k : Pubkey} {d : ℕ} (hkey : r.pda = k)
    (hd : s.due k = d) :
    ({ s with referrers := s.referrers.put r } : State).Covers (δ - gain k (r.due - d)) := by
  rw [State.Covers, State.due_putReferrer, hkey, ← hd]
  exact Covered.rebook h k r.due

theorem putAutomation (h : s.Covers δ) {a : AutomationV2} {k : Pubkey} {d : ℕ} (hkey : a.pda = k)
    (hd : s.due k = d) :
    ({ s with automations := s.automations.put a } : State).Covers (δ - gain k (a.due - d)) := by
  rw [State.Covers, State.due_putAutomation, hkey, ← hd]
  exact Covered.rebook h k a.due

/-- The treasury books another balance. -/
theorem treasury (h : s.Covers δ) (hopen : s.opened .treasury = true) (t : Treasury) :
    ({ s with treasury := t } : State).Covers
      (δ - gain .treasuryPda (t.balance - s.treasury.balance)) := by
  have hdue : ({ s with treasury := t } : State).due =
      Function.update s.due .treasuryPda (minimumBalance treasurySize + t.balance) := by
    funext k
    cases k with
    | treasuryPda => simp [State.due, hopen]
    | _ => rw [Function.update_of_ne (by simp)]; rfl
  have hbefore : s.due .treasuryPda = minimumBalance treasurySize + s.treasury.balance := by
    simp [State.due, hopen]
  rw [State.Covers, hdue]
  refine (Covered.rebook h .treasuryPda _).mono fun k _ => ?_
  rw [hbefore]
  simp only [gain, Pi.sub_apply]
  split <;> omega

/-- The SOL motherlode books another amount. -/
theorem solMotherlode (h : s.Covers δ) (hopen : s.opened .solMotherlode = true) (n : ℕ) :
    ({ s with solMotherlode := ⟨n⟩ } : State).Covers
      (δ - gain .solMotherlodePda (n - s.solMotherlode.amount)) := by
  have hdue : ({ s with solMotherlode := ⟨n⟩ } : State).due =
      Function.update s.due .solMotherlodePda (minimumBalance solMotherlodeSize + n) := by
    funext k
    cases k with
    | solMotherlodePda => simp [State.due, hopen]
    | _ => rw [Function.update_of_ne (by simp)]; rfl
  have hbefore : s.due .solMotherlodePda =
      minimumBalance solMotherlodeSize + s.solMotherlode.amount := by
    simp [State.due, hopen]
  rw [State.Covers, hdue]
  refine (Covered.rebook h .solMotherlodePda _).mono fun k _ => ?_
  rw [hbefore]
  simp only [gain, Pi.sub_apply]
  split <;> omega

/-- The OTC desk books another balance. -/
theorem otcTreasury (h : s.Covers δ) (hopen : s.opened .otcTreasury = true) (o : OtcTreasury) :
    ({ s with otcTreasury := o } : State).Covers
      (δ - gain .otcTreasuryPda (o.solBalance - s.otcTreasury.solBalance)) := by
  have hdue : ({ s with otcTreasury := o } : State).due =
      Function.update s.due .otcTreasuryPda (minimumBalance otcTreasurySize + o.solBalance) := by
    funext k
    cases k with
    | otcTreasuryPda => simp [State.due, hopen]
    | _ => rw [Function.update_of_ne (by simp)]; rfl
  have hbefore : s.due .otcTreasuryPda =
      minimumBalance otcTreasurySize + s.otcTreasury.solBalance := by
    simp [State.due, hopen]
  rw [State.Covers, hdue]
  refine (Covered.rebook h .otcTreasuryPda _).mono fun k _ => ?_
  rw [hbefore]
  simp only [gain, Pi.sub_apply]
  split <;> omega

end State.Covers

/-- An account is created with its rent, before anything is booked for it. -/
theorem createAccount_covers (h : s.Covers δ) (target : AccountInfo) (len : ℕ)
    {payer : AccountInfo} (hpayer : payer.isSigner = true) (hδ : δ target.key ≤ 0) :
    Ensures (s.createAccount target len payer) fun s' => ∃ l, s' = { s with lamports := l } ∧
      Covered KeepsLedger (Function.update s.due target.key (minimumBalance len)) l δ := by
  refine Ensures.mono (s.createAccount_spec target len payer) ?_
  rintro _ ⟨-, l, rfl, hl, -⟩
  exact ⟨l, rfl, Covered.create h (signer_keepsNoLedger hpayer) hδ hl.balance⟩

/-- A miner is opened or loaded, with the lamports it will be due once it is stored. -/
theorem openMiner_covers (hs : s.Backed) (e : ProgramError) {minerInfo payer : AccountInfo}
    {authority : Pubkey} (hkey : minerInfo.key = .minerPda authority)
    (hpayer : payer.isSigner = true) :
    Ensures (openMiner e minerInfo authority payer s) fun p => p.1.pda = minerInfo.key ∧
      ∃ l, p.2 = { s with lamports := l } ∧
        p.2.Covers (gain minerInfo.key (p.1.due - s.due minerInfo.key)) := by
  unfold openMiner
  split
  · simp only [ensures_bind, ensures_pure]
    refine Ensures.mono (createAccount_covers hs.covers minerInfo minerSize hpayer
      (le_refl _)) ?_
    rintro _ ⟨l, rfl, hl⟩
    refine ⟨hkey.symm, l, rfl, (Covered.unbook hl).mono fun k _ => ?_⟩
    simp only [gain, Pi.add_apply, Pi.zero_apply, Miner.due, Miner.zeroed]
    split_ifs <;> omega
  · simp only [ensures_bind, ensures_fromOption, ensures_require, ensures_pure]
    intro m hm hauth
    refine ⟨s.miners.key_of_get _ m hm, s.lamports, rfl, hs.covers.mono fun k _ => ?_⟩
    simp [due_miner hm]

/-- What the miner in hand is due is due once it is stored. -/
theorem openedMiner_backed {m : Miner} {k : Pubkey} (hkey : m.pda = k)
    (h : s.Covers (gain k (m.due - s.due k))) :
    State.Backed { s with miners := s.miners.put m } := by
  refine State.Covers.backed (h.putMiner hkey rfl) fun j => ?_
  simp only [Pi.sub_apply]
  omega

/-- An automation is opened or loaded, with the lamports it will be due. -/
theorem openAutomation_covers (hs : s.Backed) {automationV2Info signerInfo : AccountInfo}
    (hkey : automationV2Info.key = .automationV2Pda signerInfo.key)
    (hsigner : signerInfo.isSigner = true) :
    Ensures (openAutomation automationV2Info signerInfo s) fun p =>
      p.1.pda = automationV2Info.key ∧ p.2.due = s.due ∧
        p.2.Covers (gain automationV2Info.key (p.1.due - s.due automationV2Info.key)) := by
  unfold openAutomation
  split
  · simp only [ensures_bind, ensures_pure]
    refine Ensures.mono (createAccount_covers hs.covers automationV2Info automationV2Size hsigner
      (le_refl _)) ?_
    rintro _ ⟨l, rfl, hl⟩
    refine ⟨hkey.symm, rfl, (Covered.unbook hl).mono fun k _ => ?_⟩
    simp only [gain, Pi.add_apply, Pi.zero_apply, AutomationV2.due, AutomationV2.zeroed]
    split_ifs <;> omega
  · simp only [ensures_bind, ensures_fromOption, ensures_require, ensures_pure]
    intro a ha _
    refine ⟨s.automations.key_of_get _ a ha, trivial, hs.covers.mono fun k _ => ?_⟩
    simp [due_automation ha]

/-- An automation is closed: nothing is due to it, and its lamports go where they may. -/
theorem closeAutomation_covers (h : s.Covers δ) (a : AutomationV2) (authority : Pubkey) :
    (closeAutomation a authority s).Covers (Function.update δ a.pda 0) := by
  obtain ⟨l, heq, hl⟩ := s.releaseLamports_spec a.pda authority
  have hdue : (closeAutomation a authority s).due = Function.update s.due a.pda 0 := by
    rw [closeAutomation, heq]
    exact State.due_eraseAutomation _ a.authority
  rw [State.Covers, hdue, closeAutomation, heq]
  exact Covered.release h hl.balance

end Rules

end Godl
