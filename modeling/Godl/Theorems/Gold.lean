import Godl.Proof.SyncPanics
import Godl.Theorems.Ledger

/-!
# The gold rewards

The gold vault never owes more than it received, in every order of distributions, claims
and changes of unrefined GODL.  Handlers of the old layout change unrefined GODL without
settling the gold it earns; they are shut off before the first distribution.

## Main definitions

* `xautReceived` — what a step brought into the vault.
* `GoldChange` — what a step does to the gold.
* `gold_covered` — claims and everything owed are covered by what was received.
-/

namespace Godl

open Lib

/-- The XAUt0 that the vault received in a step that buys or deposits gold. -/
def xautReceived (t : Transition State Label) : ℕ :=
  match t.label.instruction with
  | some (.buyGold _) | some (.depositGold _) =>
      t.after.tokensAt goldVaultXautAddress - t.before.tokensAt goldVaultXautAddress
  | _ => 0

/-- The XAUt0 that settling an extended account would credit now. -/
def State.goldPending (s : State) (e : MinerExtended) : ℕ :=
  (e.position (s.unrefined e.authority)).pending goldScale s.goldVault.xautRewardsFactor.bits

/-- The times of the calls of a history, newest first. -/
def callTimes (h : History) : List ℤ := h.filterMap (·.label.time)

/-- What a step does to the gold: it is settled and claimed, a handler of the old layout
changes the weights behind its back, or XAUt0 is distributed. -/
inductive GoldChange (t : Transition State Label) : Prop
  | settled {paid : ℕ} (h : GoldStep t.before t.after paid)
      (htokens : balances t.before.tokens goldVaultXautAddress ≤
        balances t.after.tokens goldVaultXautAddress + paid) (hreceived : xautReceived t = 0)
  | legacy {time : ℤ} (htime : t.label.time = some time) (hearly : time < legacyInstructionExpiryTs)
      (h : SameGold t.before t.after) (htokens : t.after.tokens = t.before.tokens)
      (hreceived : xautReceived t = 0)
  | distributed {xaut : ℕ} {time : ℤ} (htime : t.label.time = some time)
      (hlate : legacyInstructionExpiryTs ≤ time) (h : GoldDistributed t.before t.after xaut)
      (hreceived : xautReceived t = xaut)

section Change

variable {allowed : GodlInstruction → Prop} {s s' : State} {l : Label}
  {clock : Clock} {ix : GodlInstruction} {accounts : List AccountInfo} {cpi : Cpi}

theorem xautReceived_eq_zero (hkind : ix.kind ≠ .distributeGold) :
    xautReceived ⟨s, .call clock ix accounts cpi, s'⟩ = 0 := by
  cases ix <;> first
    | rfl
    | exact absurd rfl hkind

theorem GoldDistributed.xautReceived {xaut : ℕ} (h : GoldDistributed s s' xaut)
    (hkind : ix.kind = .distributeGold) :
    xautReceived ⟨s, .call clock ix accounts cpi, s'⟩ = xaut := by
  have hreceived : s'.tokensAt goldVaultXautAddress = s.tokensAt goldVaultXautAddress + xaut :=
    h.received
  cases ix
  case buyGold => simp only [Godl.xautReceived, Label.instruction, hreceived]; omega
  case depositGold => simp only [Godl.xautReceived, Label.instruction, hreceived]; omega
  all_goals cases hkind

theorem GoldChange.of_step (hkind : ix.kind ≠ .distributeGold) (h : GoldStep s s' 0)
    (htokens : balances s.tokens goldVaultXautAddress ≤
      balances s'.tokens goldVaultXautAddress) :
    GoldChange ⟨s, .call clock ix accounts cpi, s'⟩ :=
  .settled h htokens (xautReceived_eq_zero hkind)

theorem GoldChange.of_same (hkind : ix.kind ≠ .distributeGold) (h : SameGold s s')
    (hledger : SameLedger s s') (htokens : balances s.tokens goldVaultXautAddress ≤
      balances s'.tokens goldVaultXautAddress) :
    GoldChange ⟨s, .call clock ix accounts cpi, s'⟩ :=
  .of_step hkind (goldStep_of_same h hledger.ledgers) htokens

/-- **What a step does to the gold**, once the program and its vault are set up. -/
theorem StepEffect.goldChange (h : StepEffect allowed s s' l)
    (hsetup : s.opened .treasury = true) (hvault : s.opened .goldVault = true) :
    GoldChange ⟨s, l, s'⟩ := by
  cases h with
  | world hidle =>
    exact .settled (goldStep_of_same hidle.gold hidle.ledger.ledgers) hidle.funds.goldTokens rfl
  | @call clock ix accounts cpi hallowed heffect =>
    cases hix : ix.kind
    all_goals rw [hix] at heffect
    case quiet =>
      exact .of_same (by simp [hix]) heffect.gold heffect.ledger heffect.funds.goldTokens
    case initializeProgram =>
      have hclosed : s.opened .treasury = false := heffect
      rw [hsetup] at hclosed
      cases hclosed
    case checkpoint legacy =>
      obtain ⟨hexpiry, a, ⟨rfl⟩ | ⟨m, hm, -, -, rfl⟩ | ⟨_, _, _, _, _, _, hcredited⟩⟩ := heffect
      · exact .of_same (by simp [hix]) (.refl _) (.refl _) (le_refl _)
      · exact .of_same (by simp [hix]) ⟨rfl, rfl⟩ (forfeit_sameLedger hm) (le_refl _)
      · by_cases hlegacy : legacy = true
        · exact .legacy rfl (hexpiry hlegacy) (hcredited.legacyGold hlegacy).1 hcredited.tokens
            (xautReceived_eq_zero (by simp [hix]))
        · exact .of_step (by simp [hix]) (hcredited.gold hlegacy) (by rw [hcredited.tokens])
    case deploy =>
      obtain ⟨_, _, _, _, _, _, _, _, hwagered, -⟩ := heffect
      exact .of_step (by simp [hix]) hwagered.gold (by rw [hwagered.tokens])
    case reset =>
      obtain ⟨_, _, _, _, _, hreset⟩ := heffect
      refine .of_same (by simp [hix]) hreset.sameGold hreset.sameLedger ?_
      rw [hreset.tokens]
      exact Nat.le_add_right _ _
    case close =>
      obtain ⟨_, hclosed⟩ := heffect
      exact .of_same (by simp [hix]) hclosed.gold hclosed.ledger (by rw [hclosed.tokens])
    case unrefined =>
      obtain ⟨_, _, htraded, hfunds, -⟩ := heffect
      exact .of_step (by simp [hix]) htraded.gold hfunds.goldTokens
    case stakes =>
      obtain ⟨_, hstep⟩ := heffect
      exact .of_same (by simp [hix]) hstep.gold hstep.ledger hstep.funds.goldTokens
    case bury =>
      obtain ⟨_, hburied, -⟩ := heffect
      exact .of_same (by simp [hix]) hburied.gold hburied.ledger hburied.goldTokens
    case buryTokens =>
      obtain ⟨_, hburied⟩ := heffect
      exact .of_same (by simp [hix]) hburied.gold hburied.ledger hburied.goldTokens
    case motherlode =>
      obtain ⟨_, hinjected⟩ := heffect
      exact .of_same (by simp [hix]) hinjected.gold hinjected.ledger hinjected.funds.goldTokens
    case rebaseTotalStaked =>
      obtain ⟨_, rfl⟩ := heffect
      exact .of_step (by simp [hix]) (goldStep_of_same ⟨rfl, rfl⟩ rfl) (le_refl _)
    case rebaseTotalUnclaimed =>
      obtain ⟨_, rfl⟩ := heffect
      exact .of_step (by simp [hix]) (goldStep_of_same ⟨rfl, rfl⟩ rfl) (le_refl _)
    case initializeGoldVault =>
      have hclosed := heffect.closed
      rw [hvault] at hclosed
      cases hclosed
    case distributeGold =>
      obtain ⟨hlate, xaut, hdistributed⟩ := heffect
      exact .distributed rfl hlate hdistributed (hdistributed.xautReceived hix)
    case claimGold =>
      obtain ⟨paid, hclaimed⟩ := heffect
      exact .settled hclaimed.gold hclaimed.paid.le (xautReceived_eq_zero (by simp [hix]))

end Change

/-! ## Covered along every run -/

section Covered

variable {env : Env} {s s' : State} {l : Label} {h : History} {received : ℕ}

/-- The address of the miner that an extended account belongs to. -/
def Pubkey.extendedMiner : Pubkey → Pubkey
  | .minerExtendedPda authority => .minerPda authority
  | k => k

/-- The unrefined GODL of the miners of extended accounts is part of all there is. -/
theorem sum_unrefined_le (s : State) :
    s.minersExtended.sum (fun e => s.unrefined e.authority) ≤ s.unrefinedSum := by
  refine Store.sum_le_sum_of_view Pubkey.extendedMiner ?_ ?_
  · intro j hj k hk hjk
    rw [Finset.mem_coe, s.minersExtended.mem_keys, Option.isSome_iff_exists] at hj hk
    obtain ⟨e, he⟩ := hj
    obtain ⟨e', he'⟩ := hk
    rw [← s.minersExtended.key_of_get j e he, ← s.minersExtended.key_of_get k e' he'] at hjk ⊢
    simpa [MinerExtended.pda, Pubkey.extendedMiner] using hjk
  · intro k e he
    rw [← s.minersExtended.key_of_get k e he]
    simp only [MinerExtended.pda, Pubkey.extendedMiner, State.unrefined, State.ledgers, Store.view]
    cases s.miners.get (.minerPda e.authority) <;> exact le_refl _

/-- The weights of all extended accounts, scaled up, are at most all unrefined GODL. -/
theorem sum_goldWeight_le (s : State) :
    s.minersExtended.sum (fun e => goldWeight (s.unrefined e.authority)) * goldFactorScale ≤
      s.unrefinedSum * 2 ^ 48 := by
  have hweight : ∀ n, goldFactorScale * goldWeight n ≤ 2 ^ 48 * n := by
    intro n
    rw [Nat.mul_comm (2 ^ 48)]
    exact Nat.mul_div_le _ _
  calc _ = s.minersExtended.sum fun e =>
          goldFactorScale * goldWeight (s.unrefined e.authority) := by
        rw [Store.sum_mul_left, Nat.mul_comm]
    _ ≤ s.minersExtended.sum fun e => 2 ^ 48 * s.unrefined e.authority :=
        Store.sum_le_sum fun _ e _ => hweight _
    _ = 2 ^ 48 * s.minersExtended.sum fun e => s.unrefined e.authority := Store.sum_mul_left ..
    _ ≤ 2 ^ 48 * s.unrefinedSum := Nat.mul_le_mul_left _ (sum_unrefined_le s)
    _ = s.unrefinedSum * 2 ^ 48 := Nat.mul_comm _ _

/-- **A distribution adds at most what it distributes** to what all extended accounts are
owed, as long as the treasury's total is right. -/
theorem GoldDistributed.owed_le {xaut : ℕ} (h : GoldDistributed s s' xaut)
    (htotal : s.treasury.totalUnclaimed = s.unrefinedSum) :
    s'.goldOwed ≤ s.goldOwed +
      (s'.goldVault.totalXautDistributed - s.goldVault.totalXautDistributed) * goldScale := by
  have hfactor := h.vault.factor
  have hgrow : s.goldVault.xautRewardsFactor.bits ≤ s'.goldVault.xautRewardsFactor.bits := by
    rw [hfactor]
    exact Nat.le_add_right _ _
  have hraise := Store.sum_owed_raise_le s.minersExtended
    (fun e => e.position (s.unrefined e.authority)) (S := goldScale) hgrow (le_refl _)
  rw [hfactor, Nat.add_sub_cancel_left, htotal] at hraise
  rw [State.goldOwed, State.goldOwed, h.minersExtended, unrefined_congr h.ledger.ledgers,
    hfactor, htotal]
  generalize s'.goldVault.totalXautDistributed - s.goldVault.totalXautDistributed = n at hraise ⊢
  have hweights := sum_goldWeight_le s
  have hbound : n * goldFactorScale * 2 ^ 48 / s.unrefinedSum *
      s.minersExtended.sum (fun e => goldWeight (s.unrefined e.authority)) ≤ n * goldScale := by
    refine Nat.le_of_mul_le_mul_right (c := goldFactorScale) ?_ (by decide)
    calc _ = n * goldFactorScale * 2 ^ 48 / s.unrefinedSum *
          (s.minersExtended.sum (fun e => goldWeight (s.unrefined e.authority)) *
            goldFactorScale) := Nat.mul_assoc _ _ _
      _ ≤ n * goldFactorScale * 2 ^ 48 / s.unrefinedSum * (s.unrefinedSum * 2 ^ 48) :=
          Nat.mul_le_mul_left _ hweights
      _ = n * goldFactorScale * 2 ^ 48 / s.unrefinedSum * s.unrefinedSum * 2 ^ 48 :=
          (Nat.mul_assoc _ _ _).symm
      _ ≤ n * goldFactorScale * 2 ^ 48 * 2 ^ 48 :=
          Nat.mul_le_mul_right _ (Nat.div_mul_le_self _ _)
      _ = n * goldScale * goldFactorScale := by
          rw [goldScale_eq]
          ring
  exact hraise.trans (Nat.add_le_add_left hbound _)

/-- Accounts that are up to date are owed what they settled, whatever their miners hold. -/
theorem goldOwed_of_upToDate (h : s.GoldUpToDate) :
    s.goldOwed = s.minersExtended.sum fun e => e.xautRewards * goldScale := by
  refine Store.sum_congr fun k e he => ?_
  simp [Position.owed, MinerExtended.position, h k e he]

/-- What was received is booked, what was distributed covers what was claimed and what is
owed, and the vault's tokens cover what was not claimed. -/
structure State.GoldCovered (s : State) (received : ℕ) : Prop where
  setup : s.opened .treasury = true
  vault : s.opened .goldVault = true
  unclaimed : s.treasury.totalUnclaimed = s.unrefinedSum
  booked : s.goldVault.totalXautDistributed + s.goldVault.pendingXaut = received
  covered : s.goldOwed + s.goldVault.totalXautClaimed * goldScale ≤
    s.goldVault.totalXautDistributed * goldScale
  backed : received ≤ balances s.tokens goldVaultXautAddress + s.goldVault.totalXautClaimed

/-- A step keeps the gold covered; a legacy handler may run only while all extended
accounts are up to date. -/
theorem GoldChange.covered {t : Transition State Label} (h : GoldChange t)
    (hcovered : t.before.GoldCovered received)
    (hsetup : t.after.opened .treasury = true) (hvault : t.after.opened .goldVault = true)
    (htotal : t.after.treasury.totalUnclaimed = t.after.unrefinedSum)
    (hearly : ∀ time, t.label.time = some time → time < legacyInstructionExpiryTs →
      t.before.GoldUpToDate) :
    t.after.GoldCovered (xautReceived t + received) := by
  have hbooked := hcovered.booked
  have hle := hcovered.covered
  have hbacked := hcovered.backed
  cases h with
  | @settled paid h htokens hreceived =>
    have howed := h.owed
    refine ⟨hsetup, hvault, htotal, ?_, ?_, ?_⟩
    · rw [h.distributed, h.pending, hreceived]
      omega
    · rw [h.claimed, h.distributed, Nat.add_mul]
      omega
    · rw [h.claimed, hreceived]
      omega
  | @legacy time htime hbefore h htokens hreceived =>
    have hdate := hearly time htime hbefore
    have hdate' : t.after.GoldUpToDate := by
      rw [State.GoldUpToDate, h.minersExtended, h.goldVault]
      exact hdate
    refine ⟨hsetup, hvault, htotal, ?_, ?_, ?_⟩
    · rw [h.goldVault, hreceived]
      omega
    · rw [goldOwed_of_upToDate hdate', h.minersExtended, h.goldVault,
        ← goldOwed_of_upToDate hdate]
      exact hle
    · rw [htokens, h.goldVault, hreceived]
      omega
  | @distributed xaut time htime hlate h hreceived =>
    have howed := h.owed_le hcovered.unclaimed
    have hgrows := h.vault.grows
    refine ⟨hsetup, hvault, htotal, ?_, ?_, ?_⟩
    · rw [h.vault.booked, hreceived]
      omega
    · rw [h.vault.claimed]
      have hmul : t.after.goldVault.totalXautDistributed * goldScale =
          t.before.goldVault.totalXautDistributed * goldScale +
            (t.after.goldVault.totalXautDistributed - t.before.goldVault.totalXautDistributed) *
              goldScale := by
        rw [← Nat.add_mul, Nat.add_sub_cancel' hgrows]
      omega
    · rw [h.received, h.vault.claimed, hreceived]
      omega

/-- A step before the first distribution leaves every extended account up to date. -/
theorem GoldChange.upToDate {t : Transition State Label} (h : GoldChange t)
    (hdate : t.before.GoldUpToDate)
    (hearly : ∀ time, t.label.time = some time → time < legacyInstructionExpiryTs) :
    t.after.GoldUpToDate := by
  cases h with
  | settled h => exact h.upToDate hdate
  | legacy _ _ h =>
    rw [State.GoldUpToDate, h.minersExtended, h.goldVault]
    exact hdate
  | distributed htime hlate => exact absurd (hearly _ htime) (not_lt.2 hlate)

/-- A vault that distributed nothing covers what no account is owed. -/
theorem State.goldCovered_of_empty (hsetup : s.opened .treasury = true)
    (hvault : s.opened .goldVault = true) (hextended : s.minersExtended = .empty)
    (hpending : s.goldVault.pendingXaut = 0) (hdistributed : s.goldVault.totalXautDistributed = 0)
    (hclaimed : s.goldVault.totalXautClaimed = 0)
    (htotal : s.treasury.totalUnclaimed = s.unrefinedSum) : s.GoldCovered 0 := by
  refine ⟨hsetup, hvault, htotal, by rw [hpending, hdistributed], ?_, Nat.zero_le _⟩
  rw [State.goldOwed, State.goldOwedWith, hextended, Store.sum_empty, hclaimed, hdistributed,
    Nat.zero_mul, Nat.add_zero]

/-- Gold stays covered along every run whose calls are in order of time. -/
theorem State.GoldCovered.run (hcovered : s.GoldCovered 0) (hdate : s.GoldUpToDate)
    (hrun : Run (Step env anyInstruction) s h s')
    (hclock : (callTimes h).Pairwise (· ≥ ·))
    (hrebase : ∀ x ∈ h, (∃ expected new, x.label.instruction =
        some (.rebaseTotalUnclaimed expected new)) →
      x.after.treasury.totalUnclaimed = x.after.unrefinedSum) :
    s'.GoldCovered (total xautReceived h) := by
  refine (hrun.induct (P := fun h u => (callTimes h).Pairwise (· ≥ ·) →
    (∀ x ∈ h, (∃ expected new, x.label.instruction =
        some (.rebaseTotalUnclaimed expected new)) →
      x.after.treasury.totalUnclaimed = x.after.unrefinedSum) →
    u.GoldCovered (total xautReceived h) ∧
      ((∀ time ∈ callTimes h, time < legacyInstructionExpiryTs) → u.GoldUpToDate))
    (fun _ _ => ⟨hcovered, fun _ => hdate⟩) ?_ hclock hrebase).1
  intro h t l u ih hstep hclock hrebase
  have htimes : callTimes (⟨t, l, u⟩ :: h) = l.time.toList ++ callTimes h := by
    cases htime : l.time <;> simp [callTimes, htime]
  rw [htimes, List.pairwise_append] at hclock
  obtain ⟨-, hclock', horder⟩ := hclock
  obtain ⟨ih, ihdate⟩ := ih hclock' fun x hx => hrebase x (List.mem_cons_of_mem _ hx)
  have heffect := hstep.effect
  have hchange := heffect.goldChange ih.setup ih.vault
  -- The total is right after the step: the step moved it along, or it was overwritten.
  have htotal : u.treasury.totalUnclaimed = u.unrefinedSum := by
    by_cases hix : ∃ expected new, l.instruction = some (.rebaseTotalUnclaimed expected new)
    · exact hrebase ⟨t, l, u⟩ (List.mem_cons_self ..) hix
    · have hkeeps : StepEffect GodlInstruction.KeepsTotalUnclaimed t u l := by
        refine heffect.imp fun ix hlabel _ => ?_
        cases ix <;> first
          | trivial
          | exact (hix ⟨_, _, hlabel⟩).elim
      obtain ⟨_, _, hledger⟩ := hkeeps.ledgerStep (fun ix hix => hix.kind_ne) ih.setup
      have := hledger.unclaimed
      have := ih.unclaimed
      omega
  -- Times only grow, so before an early call there are only early ones.
  have hearly : ∀ time, l.time = some time → time < legacyInstructionExpiryTs →
      t.GoldUpToDate := by
    intro time htime hlt
    refine ihdate fun time' hmem => lt_of_le_of_lt (horder time ?_ time' hmem) hlt
    rw [htime]
    exact List.mem_singleton_self time
  refine ⟨?_, fun hall => ?_⟩
  · have hopened := fun w (hw : t.opened w = true) => heffect.opened ih.setup hw
    simpa only [total_cons] using hchange.covered ih (hopened _ ih.setup) (hopened _ ih.vault)
      htotal hearly
  · rw [htimes] at hall
    refine hchange.upToDate (ihdate fun time hmem => hall time (List.mem_append_right _ hmem)) ?_
    intro time htime
    refine hall time (List.mem_append_left _ ?_)
    rw [show l.time = some time from htime]
    exact List.mem_singleton_self time

/-- What an account can claim after settling is in the vault. -/
theorem State.GoldCovered.claim_le (hcovered : s.GoldCovered received) {k : Pubkey}
    {e : MinerExtended} (hget : s.minersExtended.get k = some e) :
    e.xautRewards + s.goldPending e ≤ s.tokensAt goldVaultXautAddress := by
  have howed := Store.le_sum (fun e => (e.position (s.unrefined e.authority)).owed goldScale
    s.goldVault.xautRewardsFactor.bits) hget
  have hpaid := Position.reward_add_pending_le goldScale s.goldVault.xautRewardsFactor.bits
    (e.position (s.unrefined e.authority))
  have hle := hcovered.covered
  have hbooked := hcovered.booked
  have hbacked := hcovered.backed
  have hpart : (e.xautRewards + s.goldPending e + s.goldVault.totalXautClaimed) * goldScale ≤
      s.goldVault.totalXautDistributed * goldScale := by
    rw [Nat.add_mul]
    exact (Nat.add_le_add_right (hpaid.trans howed) _).trans hle
  have := Nat.le_of_mul_le_mul_right hpart (by rw [goldScale_eq]; decide)
  change _ ≤ balances s.tokens goldVaultXautAddress
  omega

/-- **Claimed gold, everything that settling would credit now, and what is pending are
covered by the XAUt0 that the vault received**, along every run from an empty vault whose
calls are in order of time and whose total of unrefined GODL is right.  So the vault's tokens
cover every claim, and settling never fails on its assertions. -/
theorem gold_covered (hsetup : s.opened .treasury = true) (hvault : s.opened .goldVault = true)
    (hextended : s.minersExtended = .empty) (hpending : s.goldVault.pendingXaut = 0)
    (hdistributed : s.goldVault.totalXautDistributed = 0)
    (hclaimed : s.goldVault.totalXautClaimed = 0)
    (htotal : s.treasury.totalUnclaimed = s.miners.sum fun m => m.rewardsGodl)
    (hrun : Run (Step env anyInstruction) s h s')
    (hclock : (callTimes h).Pairwise (· ≥ ·))
    (hrebase : ∀ x ∈ h, (∃ expected new, x.label.instruction =
        some (.rebaseTotalUnclaimed expected new)) →
      x.after.treasury.totalUnclaimed = x.after.miners.sum fun m => m.rewardsGodl) :
    total xautReceived h =
      s'.goldVault.totalXautDistributed + s'.goldVault.pendingXaut ∧
    s'.goldVault.totalXautClaimed +
        s'.minersExtended.sum (fun e => e.xautRewards + s'.goldPending e) +
        s'.goldVault.pendingXaut ≤ total xautReceived h ∧
    (s'.minersExtended.All fun e =>
      Ensures (e.updateRewards s'.goldVault (s'.unrefined e.authority)) fun e' =>
        e'.xautRewards = e.xautRewards + s'.goldPending e ∧
        e'.xautRewards ≤ s'.tokensAt goldVaultXautAddress) ∧
    ∀ clock ix accounts cpi, ix.SettlesGold →
      processInstruction env clock ix accounts cpi s' ≠
        .error (.panic .minerExtendedAuthorityMismatch) ∧
      processInstruction env clock ix accounts cpi s' ≠ .error (.panic .minerExtendedAbsent) := by
  have hdate : s.GoldUpToDate := by
    rw [State.GoldUpToDate, hextended]
    exact Store.all_empty _
  have hcovered := (State.goldCovered_of_empty hsetup hvault hextended hpending hdistributed
    hclaimed htotal).run hdate hrun hclock hrebase
  have hsum := Store.sum_reward_add_pending_le goldScale s'.goldVault.xautRewardsFactor.bits
    (fun e => e.position (s'.unrefined e.authority)) s'.minersExtended
  refine ⟨hcovered.booked.symm, ?_, fun k e hget => ?_, fun clock ix accounts cpi hix => ?_⟩
  · have hle : (s'.goldVault.totalXautClaimed +
        s'.minersExtended.sum (fun e => e.xautRewards + s'.goldPending e)) * goldScale ≤
        s'.goldVault.totalXautDistributed * goldScale := by
      rw [Nat.add_mul, Nat.add_comm]
      exact (Nat.add_le_add_right hsum _).trans hcovered.covered
    have hbooked := hcovered.booked
    have := Nat.le_of_mul_le_mul_right hle (by rw [goldScale_eq]; decide)
    omega
  · refine Ensures.mono (e.updateRewards_spec _ _) fun e' hposition => ?_
    obtain ⟨_, hposition, -⟩ := hposition
    have hrewards : e'.xautRewards = e.xautRewards + s'.goldPending e :=
      congrArg Position.reward hposition
    exact ⟨hrewards, hrewards ▸ hcovered.claim_le hget⟩
  · have hclean := processInstruction_noSyncPanic hix env clock accounts cpi s'
    exact ⟨hclean.ne (.inl rfl), hclean.ne (.inr rfl)⟩

end Covered

/-- A miner is paid unrefined GODL, gold is deposited, and the miner claims it. -/
def goldScript : List Call :=
  injectScript ++
  [.plain 3 legacyInstructionExpiryTs (.depositGold 50) [.signer 5, .writable .boardPda,
    .writable .configPda, .writable .treasuryPda, .writable .goldVaultPda,
    .writable (.associatedTokenAddress (.key 5) xautMint), .writable goldVaultXautAddress,
    .writable xautMint, .program splTokenId, .program godlApiId],
   .plain 4 legacyInstructionExpiryTs .claimGold [.signer 7, .writable (.minerPda (.key 7)),
    .writable (.minerExtendedPda (.key 7)), .writable .goldVaultPda,
    .writable goldVaultXautAddress, .writable (.associatedTokenAddress (.key 7) xautMint),
    .writable xautMint, .program systemProgramId, .program splTokenId,
    .program associatedTokenProgramId]]

/-- The funded state, with XAUt0 in the bury authority's hands. -/
def goldState : State := { fundedState with
  tokens := fun k =>
    if k = goldVaultXautAddress then some 0
    else if k = .associatedTokenAddress (.key 5) xautMint then some 80
    else if k = .associatedTokenAddress (.key 7) xautMint then some 0
    else fundedState.tokens k }

/-- Of 50 deposited the only miner gets 49. -/
theorem gold_covered_deposit : ∃ (h : History) (s' : State),
    Run (Step .plain anyInstruction) goldState h s' ∧ h.length = 4 ∧
    s'.goldVault.totalXautClaimed = 49 ∧
    s'.goldVault.totalXautClaimed + s'.goldVault.pendingXaut ≤ total xautReceived h := by
  obtain ⟨h, s', hrun, hlabels, hclaimed⟩ := exists_run_of_perform .plain anyInstruction
    goldState goldScript (fun s => s.goldVault.totalXautClaimed = 49) (fun _ _ => trivial)
    (by decide +kernel)
  have htimes : callTimes h = (h.map (·.label)).filterMap Label.time := by
    rw [List.filterMap_map]
    rfl
  have hcovered := gold_covered rfl rfl rfl rfl rfl rfl (by decide +kernel) hrun
    (by rw [htimes, hlabels]; decide +kernel) (by
      rintro x hx ⟨_, _, hix⟩
      have hmem := List.mem_map_of_mem (f := (·.label)) hx
      rw [hlabels] at hmem
      simp [goldScript, injectScript, Call.label, Call.plain] at hmem
      rcases hmem with hl | hl | hl | hl <;> simp [hl, Label.instruction] at hix)
  exact ⟨h, s', hrun, by simpa [goldScript, injectScript] using congrArg List.length hlabels,
    by simpa using hclaimed, by have := hcovered.2.1; omega⟩

end Godl
