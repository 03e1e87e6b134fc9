import Godl.Proof.Merge
import Godl.Theorems.Custody
import Godl.Theorems.Yield

/-!
# Custody of accrued yield

A stake is settled only when an instruction touches it, so that a part of its yield is in no
record yet.  That part is kept like the rest: what a stake was credited with and what settling
it would add do not shrink together, unless its owner signs, or the executor of the owner.

## Main definitions

* `State.accrued` — what a user holds of an asset, with what is still to be credited.
* `Earned` — the stakes of those who did not sign gain what they are credited with.

## Main results

* `State.accrued_yield`, `State.accrued_yieldV2` — it is what settling the stake credits.
* `Act.earned` — every act leaves the stakes of the others like that.
* `Step.accrued_le`, `accrued_le_of_run` — accrued yield is kept by every step and every run.
-/

namespace Godl

open Lib

/-- What a user holds of an asset; of the yield of a stake, with what settling the stake would
add to it. -/
def State.accrued (s : State) : Asset → ℕ
  | .yield user =>
      s.stakes.view 0 (fun x => x.rewards +
        x.position.pending factorScale s.treasury.stakeRewardsFactor.bits) (.stakePda user)
  | .yieldV2 user id =>
      s.stakesV2.view 0 (fun a => if a.stake.pda = a.address then
        a.stake.rewards + a.stake.pendingAt s.treasury.stakeRewardsFactor else 0)
        (.stakeV2Pda user id)
  | a => s.holding a

/-- Settling a v1 stake credits what accrued. -/
theorem State.accrued_yield {s : State} {user : Pubkey} {x x' : Stake}
    (hget : s.stakes.get (.stakePda user) = some x)
    (hok : x.updateRewards s.treasury = .ok x') : s.accrued (.yield user) = x'.rewards := by
  obtain ⟨-, -, hsettled⟩ := (x.updateRewards_spec s.treasury).elim hok
  rw [State.accrued, Store.view_of_get hget]
  exact (congrArg Position.reward hsettled).symm

/-- Settling a v2 stake credits what accrued. -/
theorem State.accrued_yieldV2 {s : State} {user : Pubkey} {id : ℕ} {a : StakeV2Account}
    {x' : StakeV2} (hget : s.stakesV2.get (.stakeV2Pda user id) = some a)
    (hplace : a.stake.pda = a.address) (hok : a.stake.updateRewards s.treasury = .ok x') :
    s.accrued (.yieldV2 user id) = x'.rewards := by
  obtain ⟨-, -, hsettled⟩ := (a.stake.updateRewards_spec s.treasury).elim hok
  rw [State.accrued, Store.view_of_get hget, if_pos hplace]
  exact (congrArg Position.reward hsettled).symm

/-! ## What others may write -/

section Acts

variable {signs : Pubkey → Prop} {R : Right → Prop} {s s' s'' : State}

/-- The v1 stakes of those who did not sign stay as they are, and a v2 stake at its own address
whose owner and executor did not sign gains what it is credited with. -/
structure Earned (signs : Pubkey → Prop) (s s' : State) : Prop where
  stakes : ∀ user, ¬ signs user → s'.stakes.get (.stakePda user) = s.stakes.get (.stakePda user)
  stakesV2 : ∀ user id a, ¬ (Asset.yieldV2 user id).Authorized signs s →
    s.stakesV2.get (.stakeV2Pda user id) = some a → a.stake.pda = a.address →
    ∃ a', s'.stakesV2.get (.stakeV2Pda user id) = some a' ∧ a'.stake.pda = a'.address ∧
      a.stake.Earns a'.stake

theorem Earned.of_eq (hstakes : s'.stakes = s.stakes) (hstakesV2 : s'.stakesV2 = s.stakesV2) :
    Earned signs s s' where
  stakes user _ := by rw [hstakes]
  stakesV2 user id a _ hget hplace := ⟨a, by rw [hstakesV2, hget], hplace, .refl _⟩

theorem Earned.trans (h : Earned signs s s') (h' : Earned signs s' s'') :
    Earned signs s s'' where
  stakes user hno := (h'.stakes user hno).trans (h.stakes user hno)
  stakesV2 user id a hno hget hplace := by
    obtain ⟨a', hget', hplace', hearns⟩ := h.stakesV2 user id a hno hget hplace
    have hno' : ¬ (Asset.yieldV2 user id).Authorized signs s' := by
      rintro (hsign | ⟨b, hb, -, hexecutor⟩)
      · exact hno (.inl hsign)
      · rw [hget', Option.some.injEq] at hb
        subst hb
        exact hno (.inr ⟨a, hget, hplace, hearns.executor ▸ hexecutor⟩)
    obtain ⟨a'', hget'', hplace'', hearns'⟩ := h'.stakesV2 user id a' hno' hget' hplace'
    exact ⟨a'', hget'', hplace'', hearns.trans hearns'⟩

theorem earned_stake (x : Stake) (h : signs x.authority) :
    Earned signs s { s with stakes := s.stakes.put x } := by
  refine ⟨fun user hno => Store.get_put_of_ne _ ?_, fun user id a _ hget hplace =>
    ⟨a, hget, hplace, .refl _⟩⟩
  intro hk
  cases hk
  exact hno h

/-- A v2 stake is written by its owner, or gains what it is credited with. -/
theorem earned_stakeV2 (x : StakeV2Account) (h : OwnsStake signs x.address ∨ StakeKept signs s x) :
    Earned signs s { s with stakesV2 := s.stakesV2.put x } := by
  refine ⟨fun _ _ => rfl, fun user id a hno hget hplace => ?_⟩
  by_cases hk : Pubkey.stakeV2Pda user id = x.address
  · rcases h with ⟨user', id', hk', hsign⟩ | ⟨old, hold, hpda, -, hearns⟩
    · cases hk.trans hk'
      exact absurd (.inl hsign) hno
    · -- The account that is written is the one at this address.
      rw [← hk, hget, Option.some.injEq] at hold
      subst hold
      have hkey : a.address = x.address := (s.stakesV2.key_of_get _ a hget).trans hk
      refine ⟨x, by rw [hk, Store.get_put_self], hpda.trans (hplace.trans hkey), ?_⟩
      rcases hearns with h | h | h
      · exact h
      · exact absurd (.inr ⟨a, hget, hplace, h⟩) hno
      · rw [hkey, ← hk] at hplace
        cases hplace
        exact absurd (.inl h) hno
  · exact ⟨a, (Store.get_put_of_ne _ hk).trans hget, hplace, .refl _⟩

/-- The admin sweeps misplaced stakes only. -/
theorem earned_closeStakeV2 {k : Pubkey}
    (h : OwnsStake signs k ∨ (signs s.config.admin ∧
      ∃ x, s.stakesV2.get k = some x ∧ x.stake.balance = 0 ∧ k ≠ x.stake.pda)) :
    Earned signs s { s with stakesV2 := s.stakesV2.erase k } := by
  refine ⟨fun _ _ => rfl, fun user id a hno hget hplace => ?_⟩
  have hne : Pubkey.stakeV2Pda user id ≠ k := by
    rintro rfl
    rcases h with ⟨user', id', hk, hsign⟩ | ⟨-, x, hx, -, hmisplaced⟩
    · cases hk
      exact hno (.inl hsign)
    · rw [hget, Option.some.injEq] at hx
      subst hx
      exact hmisplaced ((s.stakesV2.key_of_get _ a hget).symm.trans hplace.symm)
  exact ⟨a, by rw [Store.get_erase, if_neg hne, hget], hplace, .refl _⟩

/-- **An act leaves a stake alone or credits it, unless its owner or executor signed.** -/
theorem Act.earned (h : Act signs R s s') : Earned signs s s' := by
  cases h with
  | move dest hsource hn =>
    obtain ⟨l, heq, -⟩ := State.moveLamports_spec dest hn
    rw [heq]
    exact .of_eq rfl rfl
  | transfer howner hok =>
    obtain ⟨tok, rfl, -⟩ := (s.transferTokens_spec _ _ _).elim hok
    exact .of_eq rfl rfl
  | burn _ hok =>
    obtain ⟨tok, rfl, -⟩ := (s.burnTokens_spec _ _).elim hok
    exact .of_eq rfl rfl
  | mint _ hok =>
    obtain ⟨tok, rfl, -⟩ := (s.mintGodl_spec _ _).elim hok
    exact .of_eq rfl rfl
  | stake _ x h => exact earned_stake x h
  | stakeV2 _ x h => exact earned_stakeV2 x h
  | closeStakeV2 _ h => exact earned_closeStakeV2 h
  | openTokens | closeTokens | swap | game | log | books | otcBooks | openSingleton | config
  | miner | minerExtended | poolMember | automation | closeAutomation | referrer | otcUser | asset
  | mintAuthority => exact .of_eq rfl rfl

theorem Acts.earned (h : Acts signs R s s') : Earned signs s s' := by
  induction h with
  | refl => exact .of_eq rfl rfl
  | tail _ hact ih => exact ih.trans hact.earned

end Acts

/-! ## Merges -/

section Merges

variable {env : Env} {clock : Clock} {ix : GodlInstruction} {accounts : List AccountInfo}
  {cpi : Cpi} {s s' : State} {target source : Pubkey}

/-- Only the owner of both stakes merges them. -/
theorem GodlInstruction.Merges.signed (h : ix.Merges accounts target source)
    (hok : processInstruction env clock ix accounts cpi s = .ok s') :
    ∃ user targetId sourceId, signers accounts user ∧ target = .stakeV2Pda user targetId ∧
      source = .stakeV2Pda user sourceId := by
  cases ix
  case mergeStakeV2 targetId sourceId =>
    obtain ⟨signerInfo, hhead, htarget, hsource⟩ := h
    have hsigner : signerInfo.isSigner = true := by
      simp only [processInstruction] at hok
      split at hok
      · cases hhead
        exact (processMergeStakeV2_signed _ _ _ _ _ _ _ _ _ _ _ _ _ s).elim hok
      · cases hok
    exact ⟨signerInfo.key, targetId, sourceId,
      ⟨signerInfo, List.mem_of_mem_head? hhead, hsigner, rfl⟩, htarget, hsource⟩
  all_goals exact h.elim

end Merges

/-! ## Runs -/

section Runs

variable {env : Env} {s t u : State} {h : History} {a : Asset} {signs : Pubkey → Prop} {l : Label}

/-- Only the owner of a stake merges it. -/
theorem Step.mergesStake_signed {user : Pubkey} {id : ℕ} (hstep : Step env anyInstruction s l u)
    (hmerges : l.MergesStake (.stakeV2Pda user id)) : l.signers user := by
  cases hstep with
  | call _ hok =>
    obtain ⟨j, hmerges | hmerges⟩ := hmerges
    · obtain ⟨user', targetId, sourceId, hsign, hk, -⟩ := hmerges.signed hok
      cases hk
      exact hsign
    · obtain ⟨user', targetId, sourceId, hsign, -, hk⟩ := hmerges.signed hok
      cases hk
      exact hsign
  | world => exact hmerges.elim

theorem Step.earned (hsub : ∀ k, l.signers k → signs k) (hstep : Step env anyInstruction s l u) :
    Earned signs s u := by
  cases hstep with
  | call _ hok =>
    exact Acts.earned (Acts.mono hsub ((processInstruction_acts env _ _ _ _ s).elim hok))
  | world hworld =>
    rw [hworld.accounts]
    exact .of_eq rfl rfl

/-- The factor of the stakes never falls. -/
theorem Step.stakeRewardsFactor_le (hstep : Step env anyInstruction s l u)
    (hsetup : s.opened .treasury = true) :
    s.treasury.stakeRewardsFactor.bits ≤ u.treasury.stakeRewardsFactor.bits := by
  rcases hstep.effect.yield hsetup with ⟨-, hfactor⟩ | hburied
  · rw [hfactor]
  · rw [hburied.factor]
    exact Nat.le_add_right _ _

/-- **A step keeps what accrued**, unless those who signed may take it away. -/
theorem Step.accrued_le (hsigns : ∀ k, signs k → k.isKeypair = true)
    (hsub : ∀ k, l.signers k → signs k) (ha : a.IsBooked ∨ l ≠ .world)
    (hsetup : s.opened .treasury = true) (hno : ¬ a.Authorized signs s)
    (hstep : Step env anyInstruction s l u) : s.accrued a ≤ u.accrued a := by
  have hearned := hstep.earned hsub
  have hfactor := hstep.stakeRewardsFactor_le hsetup
  cases a with
  | yield user =>
    rw [State.accrued, State.accrued, Store.view, Store.view, hearned.stakes user hno]
    cases s.stakes.get (.stakePda user) with
    | none => exact le_refl _
    | some x => exact Nat.add_le_add_left (Position.pending_mono factorScale hfactor _) _
  | yieldV2 user id =>
    rw [State.accrued]
    cases hget : s.stakesV2.get (.stakeV2Pda user id) with
    | none =>
      rw [Store.view_of_none hget]
      exact Nat.zero_le _
    | some a =>
      rw [Store.view_of_get hget]
      split
      case isFalse => exact Nat.zero_le _
      case isTrue hplace =>
        obtain ⟨a', hget', hplace', hearns⟩ := hearned.stakesV2 user id a hno hget hplace
        rw [State.accrued, Store.view_of_get hget', if_pos hplace']
        -- What was pending at the old factor is credited, or still pending.
        have hmerge : ¬ l.MergesStake (.stakeV2Pda user id) := fun hmerges =>
          hno (.inl (hsub _ (hstep.mergesStake_signed hmerges)))
        have hcredited : a'.stake.lifetimeRewards +
            a'.stake.pendingAt s.treasury.stakeRewardsFactor =
              a.stake.lifetimeRewards + a.stake.pendingAt s.treasury.stakeRewardsFactor :=
          (hstep.accrued hsetup hget hget' hmerge).credited_add_pending
        have hrewards := hearns.lifetimeRewards
        calc a.stake.rewards + a.stake.pendingAt s.treasury.stakeRewardsFactor
            = a'.stake.rewards + a'.stake.pendingAt s.treasury.stakeRewardsFactor := by omega
          _ ≤ a'.stake.rewards + a'.stake.pendingAt u.treasury.stakeRewardsFactor :=
            Nat.add_le_add_left (Position.pending_mono factorScale hfactor _) _
  | _ => exact (hstep.kept hsigns hsub ha hno).1

/-- **Nobody loses accrued yield unless they sign.**  In every run of a program that is set up,
an asset whose owner and executors signed no call does not shrink, counting what settling a
stake would add to its yield. -/
theorem accrued_le_of_run (hsetup : s.opened .treasury = true)
    (hrun : Run (Step env anyInstruction) s h t) (ha : a.IsBooked ∨ ∀ x ∈ h, x.label ≠ .world)
    (hno : ¬ a.Authorized h.signers s) : s.accrued a ≤ t.accrued a := by
  have hkept := hrun.keeps (P := fun u => u.opened .treasury = true ∧
    ¬ a.Authorized h.signers u ∧ s.accrued a ≤ u.accrued a) ⟨hsetup, hno, le_refl _⟩ ?_
  · exact hkept.2.2
  rintro x hx hstep ⟨hopened, hno', hle⟩
  have hsub : ∀ k, x.label.signers k → h.signers k := fun k hk => ⟨x, hx, hk⟩
  have hbooked := ha.imp_right fun hcalls => hcalls x hx
  refine ⟨hstep.effect.opened hopened hopened,
    (hstep.kept (fun _ => History.signers_isKeypair) hsub hbooked hno').2,
    hle.trans ?_⟩
  exact hstep.accrued_le (fun _ => History.signers_isKeypair) hsub hbooked hopened hno'

end Runs

end Godl
