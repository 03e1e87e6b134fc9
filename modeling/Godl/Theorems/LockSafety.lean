import Godl.Theorems.Gold
import Godl.Theorems.Locks

/-!
# Lock safety

A stake may be topped up, compounded, merged, emptied, closed and opened again in any order, by
its owner and by strangers.  Whatever is done, its lock never ends earlier than it did, and GODL
leaves its vault only when the owner withdraws after the lock, merges the stake into another
one, or closes it after it was emptied.

## Main definitions

* `StakeV2.unlockTime` — when the lock of a stake is over.
* `GodlInstruction.Releases` — how GODL may leave the vault of a stake.
* `LockSafe` — what every step of a run keeps to.

## Main results

* `processInstruction_releases` — GODL leaves the vault of a stake in no other way.
* `lock_safety` — every step of a run is safe, and a stake that is never closed keeps its lock.
-/

namespace Godl

open Lib

/-- When the lock of a stake is over.  `StakeV2.lockEnd` is the same time, or the last one that
an i64 holds when that is earlier. -/
def StakeV2.unlockTime (x : StakeV2) : ℤ := x.createdAt + max x.lockDuration 0

/-- How a call may let GODL leave the vault of a v2 stake: it withdraws after the lock, moves
everything into the vault of another stake of the same user, or closes an empty stake. -/
def GodlInstruction.Releases (ix : GodlInstruction) (clock : Clock) (s s' : State) (user : Pubkey)
    (id : ℕ) : Prop :=
  match ix with
  | .withdrawV2 id' _ => id' = id ∧ ∃ a, s.stakesV2.get (.stakeV2Pda user id) = some a ∧
      a.stake.lockEnd ≤ clock.unixTimestamp
  | .mergeStakeV2 targetId sourceId => sourceId = id ∧ targetId ≠ id ∧
      s'.tokensOf mintAddress (.stakeV2Pda user targetId) =
        s.tokensOf mintAddress (.stakeV2Pda user targetId) +
          s.tokensOf mintAddress (.stakeV2Pda user id)
  | .closeStakeV2 id' => id' = id ∧ ∃ a, s.stakesV2.get (.stakeV2Pda user id) = some a ∧
      a.stake.balance = 0
  | _ => False

/-- A step takes nothing out of locks: those of stakes that stay end no earlier, that of a merged
stake ends no earlier than either one, and vaults are emptied only as they may be. -/
structure LockSafe (x : Transition State Label) : Prop where
  kept : ∀ k a b, x.before.stakesV2.get k = some a → x.after.stakesV2.get k = some b →
    a.stake.unlockTime ≤ b.stake.unlockTime
  merged : ∀ target source, x.label.Merges target source → ∃ a b c,
    x.before.stakesV2.get target = some a ∧ x.before.stakesV2.get source = some b ∧
      x.after.stakesV2.get target = some c ∧ a.stake.unlockTime ≤ c.stake.unlockTime ∧
        b.stake.unlockTime ≤ c.stake.unlockTime
  released : ∀ user id, x.after.tokensOf mintAddress (.stakeV2Pda user id) <
      x.before.tokensOf mintAddress (.stakeV2Pda user id) → ∃ clock ix accounts cpi,
    x.label = .call clock ix accounts cpi ∧ signers accounts user ∧
      ix.Releases clock x.before x.after user id

/-! ## Locks -/

section Unlock

variable {clock : Clock} {compounds : Prop} {merges : Pubkey → Pubkey → Prop} {s s' : State}
  {k : Pubkey} {a a' : StakeV2Account} {time : ℤ}

/-- A lock that starts no earlier and is as long ends no earlier. -/
theorem StakeV2.unlockTime_le {x y : StakeV2} (hcreated : x.createdAt ≤ y.createdAt)
    (hlock : x.lockDuration ≤ y.lockDuration) : x.unlockTime ≤ y.unlockTime :=
  add_le_add hcreated (max_le_max_right 0 hlock)

/-- Every v2 stake was created by some time. -/
def State.StakesStarted (s : State) (time : ℤ) : Prop :=
  s.stakesV2.All fun a => a.stake.createdAt ≤ time

/-- A stake is created, or starts over, at the time of the call. -/
theorem StakesV2Step.started (h : StakesV2Step clock compounds merges s s')
    (hstarted : s.StakesStarted time) (htime : clock.unixTimestamp ≤ time) :
    s'.StakesStarted time := by
  rw [State.StakesStarted]
  cases h with
  | same hstakes =>
    rw [hstakes]
    exact hstarted
  | @called a x' hget hstakes hcalled =>
    have hold := hstarted _ _ hget
    rw [hstakes]
    refine Store.All.put hstarted ?_
    obtain hrestarted | ⟨hsame, -⟩ := hcalled.lock
    · exact hrestarted.trans_le htime
    · exact hsame.trans_le hold
  | created hget hstakes hfresh =>
    rw [hstakes]
    exact Store.All.put hstarted (hfresh.createdAt.trans_le htime)
  | merged hmerges hstakes hfresh =>
    rw [hstakes]
    exact Store.All.erase (Store.All.put hstarted (hfresh.createdAt.trans_le htime)) _
  | closed hstakes =>
    rw [hstakes]
    exact Store.All.erase hstarted _

/-- **The lock of a stake that stays never ends earlier.** -/
theorem StakesV2Step.unlockTime_le (h : StakesV2Step clock compounds merges s s')
    (hstarted : s.StakesStarted clock.unixTimestamp) (hget : s.stakesV2.get k = some a)
    (hget' : s'.stakesV2.get k = some a') : a.stake.unlockTime ≤ a'.stake.unlockTime := by
  have hsame : s'.stakesV2.get k = s.stakesV2.get k →
      a.stake.unlockTime ≤ a'.stake.unlockTime := by
    intro hsame
    rw [hsame, hget] at hget'
    cases hget'
    exact le_refl _
  have hcreated := hstarted k a hget
  cases h with
  | same hstakes => exact hsame (by rw [hstakes])
  | @called b x' hold hstakes hcalled =>
    by_cases hk : k = b.address
    · subst hk
      rw [hstakes, get_restaked] at hget'
      rw [hold] at hget
      cases hget
      cases hget'
      refine StakeV2.unlockTime_le ?_ hcalled.lockDuration.ge
      obtain hrestarted | ⟨hkept, -⟩ := hcalled.lock
      · exact hcreated.trans_eq hrestarted.symm
      · exact hkept.ge
    · exact hsame (by rw [hstakes, get_restaked_of_ne s b x' hk])
  | @created b hnone hstakes hfresh =>
    by_cases hk : k = b.address
    · subst hk
      rw [hnone] at hget
      cases hget
    · exact hsame (by rw [hstakes, Store.get_put_of_ne _ hk])
  | @merged b c z hmerges hstakes hfresh htarget hsource hne hcredited hlock =>
    have hkc : k ≠ c.address := by
      rintro rfl
      rw [hstakes, Store.get_erase_self] at hget'
      cases hget'
    by_cases hk : k = b.address
    · subst hk
      rw [hstakes, Store.get_erase, if_neg hkc, get_restaked] at hget'
      rw [htarget] at hget
      cases hget
      cases hget'
      exact StakeV2.unlockTime_le (hcreated.trans_eq hfresh.createdAt.symm)
        (hlock ▸ le_max_left _ _)
    · exact hsame (by rw [hstakes, Store.get_erase, if_neg hkc, get_restaked_of_ne s b z hk])
  | @closed j hstakes =>
    have hkj : k ≠ j := by
      rintro rfl
      rw [hstakes, Store.get_erase_self] at hget'
      cases hget'
    exact hsame (by rw [hstakes, Store.get_erase, if_neg hkj])

/-- What a call does to the v2 stakes, also before the program is set up. -/
theorem processInstruction_stakesV2Step (env : Env) (clock : Clock) (ix : GodlInstruction)
    (accounts : List AccountInfo) (cpi : Cpi) (s : State) :
    Ensures (processInstruction env clock ix accounts cpi s) fun s' =>
      StakesV2Step clock ix.Compounds (ix.Merges accounts) s s' := by
  by_cases hmay : ix.May .stakes
  · have hkind : ix.kind = .stakes ∨ ix.kind = .unrefined := by
      cases ix <;> first
        | exact hmay.elim
        | exact .inl rfl
        | exact .inr rfl
    obtain hstakes | hunrefined := hkind
    · exact Ensures.mono (processInstruction_stakes hstakes env clock accounts cpi s)
        fun _ hstep => hstep.2
    · exact processInstruction_unrefined hunrefined env clock accounts cpi s
  · refine Ensures.mono (processInstruction_acts env clock ix accounts cpi s) fun s' hacts => ?_
    have hsame := hacts.untouched fun _ => signers_isKeypair
    exact .same (hsame.stakes hmay).2

/-- The lock of a merged stake ends no earlier than that of either one. -/
theorem processInstruction_merged {ix : GodlInstruction} {accounts : List AccountInfo}
    {target source : Pubkey} (hmerges : ix.Merges accounts target source)
    (hstarted : s.StakesStarted clock.unixTimestamp) (env : Env) (cpi : Cpi) :
    Ensures (processInstruction env clock ix accounts cpi s) fun s' => ∃ a b c,
      s.stakesV2.get target = some a ∧ s.stakesV2.get source = some b ∧
        s'.stakesV2.get target = some c ∧ a.stake.unlockTime ≤ c.stake.unlockTime ∧
          b.stake.unlockTime ≤ c.stake.unlockTime := by
  cases ix
  case mergeStakeV2 targetId sourceId =>
    simp only [processInstruction, wrongLength]
    split
    · rename_i signerInfo mintInfo targetStakeInfo targetTokensInfo sourceStakeInfo
        sourceTokensInfo treasuryInfo systemProgram tokenProgram associatedTokenProgram
      obtain ⟨_, hhead, rfl, rfl⟩ := hmerges
      cases hhead
      refine Ensures.mono (Ensures.and (processMergeStakeV2_spec clock targetId sourceId signerInfo
        mintInfo targetStakeInfo targetTokensInfo sourceStakeInfo sourceTokensInfo treasuryInfo
        systemProgram tokenProgram associatedTokenProgram s) (processMergeStakeV2_checked clock
        targetId sourceId signerInfo mintInfo targetStakeInfo targetTokensInfo sourceStakeInfo
        sourceTokensInfo treasuryInfo systemProgram tokenProgram associatedTokenProgram)) ?_
      rintro s' ⟨⟨hne, -, a, b, m, n, z, u, ha, hb, -, -, -, hcombine, rfl⟩, htarget, hsource, -, -⟩
      have hx := StakeV2.combine_contains hcombine (.inl (.refl _)) (hstarted _ a ha)
      have hy := StakeV2.combine_contains hcombine (.inr (.refl _)) (hstarted _ b hb)
      rw [← htarget, ← hsource]
      refine ⟨a, b, { a with stake := z }, ha, hb, ?_,
        StakeV2.unlockTime_le hx.createdAt hx.lockDuration,
        StakeV2.unlockTime_le hy.createdAt hy.lockDuration⟩
      rw [Store.get_erase, if_neg hne]
      exact s.get_putStakeV2 ha z
    · exact ensures_error.2 True.intro
  all_goals exact hmerges.elim

end Unlock

/-! ## Vaults -/

/-- No vault of a v2 stake loses GODL, but the one of the stake at `k`. -/
def State.SparesVaults (s s' : State) (k : Pubkey) : Prop :=
  ∀ user id, Pubkey.stakeV2Pda user id ≠ k →
    s.tokensOf mintAddress (.stakeV2Pda user id) ≤ s'.tokensOf mintAddress (.stakeV2Pda user id)

section Release

variable {s s' s'' : State} {k : Pubkey}

theorem State.SparesVaults.refl (s : State) (k : Pubkey) : s.SparesVaults s k :=
  fun _ _ _ => le_refl _

/-- Spared vaults stay spared when balances do not change. -/
theorem State.SparesVaults.of_balances (h : s.SparesVaults s' k)
    (hsame : balances s''.tokens = balances s'.tokens) : s.SparesVaults s'' k := by
  intro user id hne
  refine (h user id hne).trans_eq ?_
  exact (congrFun hsame _).symm

theorem openTokenAccount_spares (h : s.SparesVaults s' k) (info : AccountInfo)
    (owner mint : Pubkey) (payer : AccountInfo) :
    Ensures (s'.openTokenAccount info owner mint payer) (s.SparesVaults · k) := by
  refine Ensures.mono (s'.openTokenAccount_spec info owner mint payer) ?_
  rintro _ ⟨-, l, tok, rfl, -, hsame⟩
  exact h.of_balances hsame

theorem closeTokenAccount_spares (h : s.SparesVaults s' k) (source dest : Pubkey) :
    Ensures (s'.closeTokenAccount source dest) (s.SparesVaults · k) := by
  refine Ensures.mono (s'.closeTokenAccount_spec source dest) ?_
  rintro _ ⟨l, tok, rfl, -, hsame⟩
  exact h.of_balances hsame

/-- Tokens leave the vault at `k`, or one that is not a stake's. -/
theorem transferTokens_spares (h : s.SparesVaults s' k) {source owner mint : Pubkey}
    (hsource : source = .associatedTokenAddress owner mint)
    (howner : owner = k ∨ owner = .treasuryPda) (dest : Pubkey) (n : ℕ) :
    Ensures (s'.transferTokens source dest n) (s.SparesVaults · k) := by
  refine Ensures.mono (s'.transferTokens_spec source dest n) ?_
  rintro _ ⟨tok, rfl, hmoved, -⟩ user id hne
  refine (h user id hne).trans (hmoved.le ?_)
  rw [hsource]
  intro heq
  obtain ⟨rfl, -⟩ := Pubkey.associatedTokenAddress.inj heq
  rcases howner with howner | howner
  · exact hne howner
  · cases howner

theorem processWithdrawV2_spares (clock : Clock) (id amount : ℕ) (signerInfo mintInfo recipientInfo
    stakeInfo stakeTokensInfo treasuryInfo systemProgram tokenProgram
    associatedTokenProgram : AccountInfo) (s : State) :
    Ensures (processWithdrawV2 clock id amount signerInfo mintInfo recipientInfo stakeInfo
      stakeTokensInfo treasuryInfo systemProgram tokenProgram associatedTokenProgram s) fun s' =>
        signerInfo.isSigner = true ∧ s.SparesVaults s' (.stakeV2Pda signerInfo.key id) := by
  simp only [processWithdrawV2, ensures_bind, ensures_require, ensures_fromOption, ensures_pure]
  intro hsigner _ _ hkey a ha _ _ htokens _ _ _ _ _ _
  rw [hkey] at htokens
  have hstart := State.SparesVaults.refl s (.stakeV2Pda signerInfo.key id)
  refine ensures_of_forall fun p _ _ => ?_
  refine Ensures.mono (openTokenAccount_spares hstart _ _ _ _) fun s₁ hs₁ => ?_
  refine ensures_of_forall fun r => ?_
  have hput : s.SparesVaults { s₁.putStakeV2 a r.2.1 with treasury := r.2.2 }
      (.stakeV2Pda signerInfo.key id) := hs₁.of_balances rfl
  exact Ensures.mono (transferTokens_spares hput htokens (.inl rfl) _ _)
    fun s₂ hs₂ _ _ _ _ => ⟨hsigner, hs₂⟩

theorem processCloseStakeV2_spares (clock : Clock) (id : ℕ) (signerInfo mintInfo recipientInfo
    stakeInfo stakeTokensInfo treasuryInfo treasuryTokensInfo systemProgram tokenProgram
    associatedTokenProgram : AccountInfo) (s : State) :
    Ensures (processCloseStakeV2 clock id signerInfo mintInfo recipientInfo stakeInfo
      stakeTokensInfo treasuryInfo treasuryTokensInfo systemProgram tokenProgram
      associatedTokenProgram s) fun s' => signerInfo.isSigner = true ∧
        (∃ a, s.stakesV2.get (.stakeV2Pda signerInfo.key id) = some a ∧ a.stake.balance = 0) ∧
          s.SparesVaults s' (.stakeV2Pda signerInfo.key id) := by
  rw [processCloseStakeV2]
  simp only [ensures_bind, ensures_require, ensures_fromOption, ensures_addU64, ensures_pure]
  intro hsigner _ _ _ hkey a ha _ _ htreasury _ htreasuryTokens _ _ _ _ _ hempty _ hstakeTokens
    residual _
  refine ensures_of_forall fun p _ => ?_
  rw [htreasury.1] at htreasuryTokens
  rw [hkey] at hstakeTokens ha
  have hstart := State.SparesVaults.refl s (.stakeV2Pda signerInfo.key id)
  refine ensures_optional (P := (s.SparesVaults · (.stakeV2Pda signerInfo.key id)))
    (fun _ => openTokenAccount_spares hstart _ _ _ _) (fun _ => hstart) fun s₁ hs₁ => ?_
  refine ensures_optional (P := (s.SparesVaults · (.stakeV2Pda signerInfo.key id)))
    (fun _ => transferTokens_spares hs₁ htreasuryTokens (.inr rfl) _ _) (fun _ => hs₁)
    fun s₂ hs₂ => ?_
  refine ensures_optional (P := (s.SparesVaults · (.stakeV2Pda signerInfo.key id)))
    (fun _ => transferTokens_spares hs₂ hstakeTokens (.inl rfl) _ _) (fun _ => hs₂)
    fun s₃ hs₃ => ?_
  refine Ensures.bind (closeTokenAccount_spares hs₃ _ _) fun s₄ hs₄ => ensures_pure.2 ?_
  exact ⟨hsigner, ⟨a, ha, hempty⟩, hs₄.of_balances rfl⟩

/-- A merge empties the vault of the source into that of the target. -/
theorem processMergeStakeV2_moves (clock : Clock) (targetId sourceId : ℕ) (signerInfo mintInfo
    targetStakeInfo targetTokensInfo sourceStakeInfo sourceTokensInfo treasuryInfo systemProgram
    tokenProgram associatedTokenProgram : AccountInfo) (s : State) :
    Ensures (processMergeStakeV2 clock targetId sourceId signerInfo mintInfo targetStakeInfo
      targetTokensInfo sourceStakeInfo sourceTokensInfo treasuryInfo systemProgram tokenProgram
      associatedTokenProgram s) fun s' => signerInfo.isSigner = true ∧ targetId ≠ sourceId ∧
        s'.tokensOf mintAddress (.stakeV2Pda signerInfo.key targetId) =
          s.tokensOf mintAddress (.stakeV2Pda signerInfo.key targetId) +
            s.tokensOf mintAddress (.stakeV2Pda signerInfo.key sourceId) ∧
        s.SparesVaults s' (.stakeV2Pda signerInfo.key sourceId) := by
  refine Ensures.mono ((processMergeStakeV2_spec clock targetId sourceId signerInfo mintInfo
    targetStakeInfo targetTokensInfo sourceStakeInfo sourceTokensInfo treasuryInfo systemProgram
    tokenProgram associatedTokenProgram s).and ((processMergeStakeV2_checked clock targetId sourceId
    signerInfo mintInfo targetStakeInfo targetTokensInfo sourceStakeInfo sourceTokensInfo
    treasuryInfo systemProgram tokenProgram associatedTokenProgram).and (processMergeStakeV2_signed
    clock targetId sourceId signerInfo mintInfo targetStakeInfo targetTokensInfo sourceStakeInfo
    sourceTokensInfo treasuryInfo systemProgram tokenProgram associatedTokenProgram s))) ?_
  rintro s' ⟨⟨hne, hvaults, a, b, m, n, z, u, -, -, -, hm, hn, -, rfl⟩,
    ⟨htarget, hsource, httokens, hstokens⟩, hsigner⟩
  rw [htarget] at httokens
  rw [hsource] at hstokens
  rw [httokens] at hm hvaults
  rw [hstokens] at hn hvaults
  have hm' : s.tokensOf mintAddress (.stakeV2Pda signerInfo.key targetId) = m := balances_of_eq hm
  have hn' : s.tokensOf mintAddress (.stakeV2Pda signerInfo.key sourceId) = n := balances_of_eq hn
  have hfull : balances (Function.update (Function.update s.tokens targetTokensInfo.key
      (some (m + n))) sourceTokensInfo.key none) (.associatedTokenAddress
        (.stakeV2Pda signerInfo.key targetId) mintAddress) = m + n := by
    rw [httokens, hstokens, balances_update_of_ne hvaults, balances_update_some]
  refine ⟨hsigner, fun hids => hne (by rw [htarget, hsource, hids]), ?_, fun user id hid => ?_⟩
  · rw [hm', hn']
    exact hfull
  · by_cases hother : Pubkey.stakeV2Pda user id = .stakeV2Pda signerInfo.key targetId
    · rw [hother, hm']
      exact (Nat.le_add_right m n).trans_eq hfull.symm
    · refine le_of_eq (Eq.symm ?_)
      change balances (Function.update (Function.update s.tokens targetTokensInfo.key
        (some (m + n))) sourceTokensInfo.key none) _ = balances s.tokens _
      rw [httokens, hstokens, balances_update_of_ne (by simpa using hid),
        balances_update_of_ne (by simpa using hother)]

/-- A vault that is not spared is the one that was emptied. -/
theorem State.SparesVaults.of_lt (h : s.SparesVaults s' k) {user : Pubkey} {id : ℕ}
    (hlt : s'.tokensOf mintAddress (.stakeV2Pda user id) <
      s.tokensOf mintAddress (.stakeV2Pda user id)) : .stakeV2Pda user id = k := by
  by_contra hne
  exact absurd (h user id hne) (not_le.2 hlt)

/-- **GODL leaves the vault of a stake in no other way**, and its owner signs. -/
theorem processInstruction_releases (env : Env) (clock : Clock) (ix : GodlInstruction)
    (accounts : List AccountInfo) (cpi : Cpi) (s : State) (user : Pubkey) (id : ℕ) :
    Ensures (processInstruction env clock ix accounts cpi s) fun s' =>
      s'.tokensOf mintAddress (.stakeV2Pda user id) <
        s.tokensOf mintAddress (.stakeV2Pda user id) →
      signers accounts user ∧ ix.Releases clock s s' user id := by
  by_cases hmay : ix.May .vaults
  · cases ix
    case withdrawV2 =>
      simp only [processInstruction, wrongLength]
      split
      · refine Ensures.mono ((processWithdrawV2_unlocked _ _ _ _ _ _ _ _ _ _ _ _ s).and
          (processWithdrawV2_spares _ _ _ _ _ _ _ _ _ _ _ _ s)) ?_
        rintro s' ⟨hlock, hsigner, hspares⟩ hlt
        obtain ⟨rfl, rfl⟩ := Pubkey.stakeV2Pda.inj (hspares.of_lt hlt)
        exact ⟨signers_cons _ _ hsigner, rfl, hlock⟩
      · exact ensures_error.2 True.intro
    case closeStakeV2 =>
      simp only [processInstruction, wrongLength]
      split
      · refine Ensures.mono (processCloseStakeV2_spares _ _ _ _ _ _ _ _ _ _ _ _ s) ?_
        rintro s' ⟨hsigner, hempty, hspares⟩ hlt
        obtain ⟨rfl, rfl⟩ := Pubkey.stakeV2Pda.inj (hspares.of_lt hlt)
        exact ⟨signers_cons _ _ hsigner, rfl, hempty⟩
      · exact ensures_error.2 True.intro
    case mergeStakeV2 =>
      simp only [processInstruction, wrongLength]
      split
      · refine Ensures.mono (processMergeStakeV2_moves _ _ _ _ _ _ _ _ _ _ _ _ _ s) ?_
        rintro s' ⟨hsigner, hids, hmoved, hspares⟩ hlt
        obtain ⟨rfl, rfl⟩ := Pubkey.stakeV2Pda.inj (hspares.of_lt hlt)
        exact ⟨signers_cons _ _ hsigner, rfl, hids, hmoved⟩
      · exact ensures_error.2 True.intro
    all_goals exact hmay.elim
  · refine Ensures.mono (processInstruction_acts env clock ix accounts cpi s) fun s' hacts hlt => ?_
    have hsame := hacts.untouched fun _ => signers_isKeypair
    refine absurd (hsame.vaults _ mintAddress fun hspends => ?_) (not_le.2 hlt)
    cases hspends with
    | signer hkeypair => cases hkeypair
    | stakeV2 hvaults => exact hmay hvaults

end Release

/-! ## Runs -/

section Runs

variable {env : Env} {allowed : GodlInstruction → Prop} {s t : State} {l : Label} {h : History}
  {time : ℤ}

/-- Stakes are created in the past. -/
theorem Step.started (hstep : Step env allowed s l t) (hstarted : s.StakesStarted time)
    (htime : ∀ now, l.time = some now → now ≤ time) : t.StakesStarted time := by
  cases hstep with
  | call _ hok =>
    exact ((processInstruction_stakesV2Step _ _ _ _ _ _).elim hok).started hstarted (htime _ rfl)
  | world hworld =>
    rw [State.StakesStarted, hworld.accounts]
    exact hstarted

theorem started_of_run (hrun : Run (Step env allowed) s h t) (hstarted : s.StakesStarted time)
    (htimes : ∀ now ∈ callTimes h, now ≤ time) : t.StakesStarted time :=
  hrun.keeps (P := (·.StakesStarted time)) hstarted fun y hy hstep hbefore =>
    hstep.started hbefore fun _ hnow => htimes _ (List.mem_filterMap.2 ⟨y, hy, hnow⟩)

/-- A step is safe when the stakes were created in its past. -/
theorem Step.lockSafe (hstep : Step env allowed s l t)
    (hstarted : ∀ now, l.time = some now → s.StakesStarted now) : LockSafe ⟨s, l, t⟩ := by
  cases hstep with
  | @call clock ix accounts cpi _ _ hok =>
    have hpast := hstarted _ rfl
    have hchange := (processInstruction_stakesV2Step _ _ _ _ _ _).elim hok
    refine ⟨fun k a b => hchange.unlockTime_le hpast, fun target source hmerges => ?_,
      fun user id hlt => ?_⟩
    · exact (processInstruction_merged hmerges hpast env cpi).elim hok
    · obtain ⟨hsigns, hreleases⟩ :=
        (processInstruction_releases env clock ix accounts cpi s user id).elim hok hlt
      exact ⟨clock, ix, accounts, cpi, rfl, hsigns, hreleases⟩
  | world hworld =>
    refine ⟨fun k a b ha hb => ?_, fun _ _ hmerges => hmerges.elim, fun user id hlt => ?_⟩
    · dsimp only at ha hb
      rw [hworld.accounts] at hb
      rw [ha, Option.some.injEq] at hb
      rw [hb]
    · exact absurd (hworld.tokens (.stakeV2Pda user id) mintAddress rfl) (not_le.2 hlt)

/-- **Locks are safe.**  In every run whose calls are in order of time, no step ends a lock
earlier: that of a stake that stays ends when it did or later, and that of a merged stake no
earlier than either one.  GODL leaves the vault of a stake only when its owner withdraws after
the lock, merges it into another stake of its own, or closes it when it is empty. -/
theorem lock_safety (hrun : Run (Step env allowed) s h t)
    (hclock : (callTimes h).Pairwise (· ≥ ·))
    (hstarted : ∀ time ∈ callTimes h, s.stakesV2.All fun a => a.stake.createdAt ≤ time) :
    (∀ x ∈ h, LockSafe x) ∧
    ∀ k a b, s.stakesV2.get k = some a → t.stakesV2.get k = some b →
      (∀ x ∈ h, (x.after.stakesV2.get k).isSome = true) →
        a.stake.unlockTime ≤ b.stake.unlockTime := by
  have hsafe : ∀ x ∈ h, LockSafe x := by
    intro x hx
    obtain ⟨h₂, h₁, rfl⟩ := List.append_of_mem hx
    obtain ⟨hbefore, hstep, -⟩ := hrun.split
    refine hstep.lockSafe fun now hnow => ?_
    have htimes : callTimes (h₂ ++ x :: h₁) = callTimes h₂ ++ now :: callTimes h₁ := by
      simp [callTimes, hnow]
    rw [htimes] at hclock hstarted
    have hpast := (List.pairwise_cons.1 (List.pairwise_append.1 hclock).2.1).1
    exact started_of_run hbefore (hstarted now (by simp)) hpast
  refine ⟨hsafe, fun k a b ha hb halive => ?_⟩
  have hlast := (hrun.chain (P := fun u => ∃ c, u.stakesV2.get k = some c ∧
    a.stake.unlockTime ≤ c.stake.unlockTime) ⟨a, ha, le_refl _⟩ ?_).2
  · obtain ⟨c, hc, hle⟩ := hlast
    rw [hb, Option.some.injEq] at hc
    rwa [hc]
  · rintro x hx ⟨c, hc, hle⟩
    obtain ⟨d, hd⟩ := Option.isSome_iff_exists.1 (halive x hx)
    exact ⟨d, hd, hle.trans ((hsafe x hx).kept k c d hc hd)⟩

end Runs

/-- Two stakes are filled, one without a lock is emptied in part, and the locked one is merged
into it. -/
theorem lock_safety_merged : ∃ (h : History) (t : State) (x : Transition State Label)
    (a b c : StakeV2Account), Run (Step .plain anyInstruction) unstakedState h t ∧
    h.length = 4 ∧ x ∈ h ∧ x.label = mergeSecond.label ∧
    x.before.stakesV2.get (.stakeV2Pda (.key 7) 1) = some a ∧
    x.before.stakesV2.get (.stakeV2Pda (.key 7) 2) = some b ∧
    x.after.stakesV2.get (.stakeV2Pda (.key 7) 1) = some c ∧
    a.stake.unlockTime ≤ c.stake.unlockTime ∧ b.stake.unlockTime ≤ c.stake.unlockTime ∧
    (t.stakesV2.get (.stakeV2Pda (.key 7) 1)).any
      (fun d => d.stake.unlockTime = 5 + maxLockDuration) = true := by
  obtain ⟨h, t, hrun, hlabels, hlast⟩ := exists_run_of_perform .plain anyInstruction unstakedState
    [.depositV2 2 400 maxLockDuration, .depositV2 1 600 0, .withdrawV2 1 1 250, mergeSecond]
    (fun t => (t.stakesV2.get (.stakeV2Pda (.key 7) 1)).any
      fun d => d.stake.unlockTime = 5 + maxLockDuration) (fun _ _ => trivial) (by decide +kernel)
  have htimes : callTimes h = (h.map (·.label)).filterMap Label.time := by
    rw [List.filterMap_map]
    rfl
  obtain ⟨hsafe, -⟩ := lock_safety hrun (by rw [htimes, hlabels]; decide +kernel)
    fun _ _ => Store.all_empty _
  have hmem : mergeSecond.label ∈ h.map (·.label) := by
    rw [hlabels]
    simp
  obtain ⟨x, hx, hlabel⟩ := List.mem_map.1 hmem
  have hmerges : x.label.Merges (.stakeV2Pda (.key 7) 1) (.stakeV2Pda (.key 7) 2) := by
    rw [hlabel]
    exact ⟨.signer 7, rfl, rfl, rfl⟩
  obtain ⟨a, b, c, ha, hb, hc, hfirst, hsecond⟩ := (hsafe x hx).merged _ _ hmerges
  have hlength : h.length = 4 := by simpa using congrArg List.length hlabels
  exact ⟨h, t, x, a, b, c, hrun, hlength, hx, hlabel, ha, hb, hc, hfirst, hsecond, hlast⟩

end Godl
