import Godl.Proof.Referrals
import Godl.Script

/-!
# Referrals

Whoever refers a miner is named once: no call renames it, although several of them open
miners.  A referrer therefore counts its miners, and every claim of a miner is split between
this one referrer and the claimant.

## Main definitions

* `State.Referred` — every referrer counts its miners, and nobody refers to itself.
* `referred_of_run` — this holds along every run.
* `referrer_once` — the referrer that is named stays.
* `referrals_kept` — the book of referrals.
-/

namespace Godl

open Lib

/-- The book of referrals is right. -/
structure State.Referred (s : State) : Prop where
  count : ∀ a, s.referrerCount (.referrerPda a) =
    s.miners.count fun m => m.referrer = .referrerPda a
  foreign : ∀ a, s.referrer (.minerPda a) ≠ .referrerPda a

section Step

variable {env : Env} {clock : Clock} {ix : GodlInstruction} {s t : State} {r : Registry}

/-- Before there are miners and referrers the book is empty. -/
theorem referred_of_empty (hminers : s.miners = .empty) (hreferrers : s.referrers = .empty) :
    s.Referred := by
  constructor
  · intro a
    rw [State.referrerCount, hreferrers, hminers, Store.count_eq_sum, Store.sum_empty]
    rfl
  · intro a
    rw [State.referrer, hminers]
    exact Pubkey.noConfusion

/-- Who is counted is seen in the view of the miners alone. -/
theorem count_of_referrer (href : t.referrer = s.referrer) (a : Pubkey) :
    (t.miners.count fun m => m.referrer = .referrerPda a) =
      s.miners.count fun m => m.referrer = .referrerPda a := by
  rw [Store.count_eq_sum, Store.count_eq_sum]
  exact Store.sum_eq_of_view (z := Pubkey.default) (f := Miner.referrer)
    (g := fun p => if decide (p = Pubkey.referrerPda a) = true then 1 else 0) href rfl

/-- A miner that had no referrer counts for the one that it names. -/
theorem count_of_named {k p : Pubkey} (hfree : s.referrer k = Pubkey.default)
    (href : t.referrer = Function.update s.referrer k p) (a : Pubkey) :
    (t.miners.count fun m => m.referrer = .referrerPda a) =
      (s.miners.count fun m => m.referrer = .referrerPda a) +
        if p = .referrerPda a then 1 else 0 := by
  have hsum := Store.sum_view_update (z := Pubkey.default) (f := Miner.referrer)
    (g := fun p => if decide (p = Pubkey.referrerPda a) = true then 1 else 0) rfl href
  have hview : s.miners.view Pubkey.default Miner.referrer k = Pubkey.default := hfree
  rw [hview] at hsum
  simp only [decide_eq_true_eq] at hsum
  rw [if_neg (Pubkey.noConfusion : Pubkey.default ≠ .referrerPda a)] at hsum
  rw [Store.count_eq_sum, Store.count_eq_sum]
  simp only [decide_eq_true_eq]
  exact hsum

/-- A step of the registry keeps the book right. -/
theorem State.Referred.step (hs : s.Referred) (hstep : Registry.Step ix s t.registry) :
    t.Referred := by
  have href : t.referrer = t.registry.referrer := rfl
  have hcount : t.referrerCount = t.registry.referrerCount := rfl
  generalize t.registry = r at hstep href hcount
  cases hstep with
  | kept =>
    constructor
    · intro a
      rw [hcount, count_of_referrer href]
      exact hs.count a
    · intro a
      rw [href]
      exact hs.foreign a
  | config c _ =>
    constructor
    · intro a
      rw [hcount, count_of_referrer href]
      exact hs.count a
    · intro a
      rw [href]
      exact hs.foreign a
  | locked authority hfree =>
    dsimp only at href hcount
    constructor
    · intro a
      rw [hcount, count_of_named hfree href, if_neg Pubkey.noConfusion]
      exact hs.count a
    · intro a
      rw [href]
      by_cases ha : a = authority
      · subst ha
        rw [Function.update_self]
        exact Pubkey.noConfusion
      · rw [Function.update_of_ne fun h => ha (Pubkey.minerPda.inj h)]
        exact hs.foreign a
  | named authority other hne hfree =>
    dsimp only at href hcount
    constructor
    · intro a
      rw [hcount, count_of_named hfree href, ← hs.count a]
      by_cases ha : other = a
      · subst ha
        rw [Function.update_self, if_pos rfl]
      · have hkey : Pubkey.referrerPda other ≠ .referrerPda a :=
          fun h => ha (Pubkey.referrerPda.inj h)
        rw [Function.update_of_ne hkey.symm, if_neg hkey]
        rfl
    · intro a
      rw [href]
      by_cases ha : a = authority
      · subst ha
        rw [Function.update_self]
        exact fun h => hne (Pubkey.referrerPda.inj h)
      · rw [Function.update_of_ne fun h => ha (Pubkey.minerPda.inj h)]
        exact hs.foreign a

/-- A step of the registry renames no referrer. -/
theorem referrer_of_step (hstep : Registry.Step ix s t.registry) {k : Pubkey}
    (hk : s.referrer k ≠ Pubkey.default) : t.referrer k = s.referrer k := by
  have href : t.referrer = t.registry.referrer := rfl
  generalize t.registry = r at hstep href
  rw [href]
  cases hstep with
  | kept => rfl
  | config c _ => rfl
  | locked authority hfree =>
    exact Function.update_of_ne (fun h => hk (by rw [h, hfree])) _ _
  | named authority other hne hfree =>
    exact Function.update_of_ne (fun h => hk (by rw [h, hfree])) _ _

/-- Every step of a run is one of the registry. -/
theorem registry_of_step {allowed : GodlInstruction → Prop} {l : Label}
    (hstep : Step env allowed s l t) : ∃ ix, Registry.Step ix s t.registry := by
  cases hstep with
  | call _ hok => exact ⟨_, (processInstruction_registry _ _ _ _ _ s).elim hok⟩
  | world hworld =>
    have hregistry : t.registry = s.registry := by
      rw [hworld.accounts]
      rfl
    rw [hregistry]
    exact ⟨.log, .kept⟩

end Step

section Run

variable {env : Env} {allowed : GodlInstruction → Prop} {s t : State} {h : History}

/-- **The book of referrals is right along every run.** -/
theorem referred_of_run (hminers : s.miners = .empty) (hreferrers : s.referrers = .empty)
    (hrun : Run (Step env allowed) s h t) : t.Referred := by
  refine hrun.invariant (P := State.Referred) (referred_of_empty hminers hreferrers) ?_
  intro t l u ht hstep
  obtain ⟨ix, hregistry⟩ := registry_of_step hstep
  exact ht.step hregistry

/-- **Who is named stays**: neither the instructions that open miners nor any other one
change it. -/
theorem referrer_once {x : Transition State Label} {k : Pubkey} {m : Miner}
    (hrun : Run (Step env allowed) s h t) (hx : x ∈ h) (hm : x.before.miners.get k = some m)
    (hnamed : m.referrer ≠ Pubkey.default) :
    ∃ m', x.after.miners.get k = some m' ∧ m'.referrer = m.referrer := by
  obtain ⟨h₁, -, hstep⟩ := hrun.of_mem hx
  obtain ⟨ix, hregistry⟩ := registry_of_step hstep
  have hbefore : x.before.referrer k = m.referrer := referrer_of_get hm
  have hafter : x.after.referrer k = m.referrer := by
    rw [← hbefore]
    refine referrer_of_step hregistry ?_
    rwa [hbefore]
  cases hget : x.after.miners.get k with
  | none =>
    have hnone : x.after.referrer k = Pubkey.default := Store.view_of_none hget
    exact absurd (hafter.symm.trans hnone) hnamed
  | some m' => exact ⟨m', rfl, (referrer_of_get hget).symm.trans hafter⟩

/-- **The book of referrals.**  Along every run the referrer that a miner names stays, every
referrer counts the miners that name it, no miner names its own authority, and every claim
pays and credits the referrer that is named, and no other, so that its share and the rest are
what is claimed. -/
theorem referrals_kept (hminers : s.miners = .empty) (hreferrers : s.referrers = .empty)
    (hrun : Run (Step env allowed) s h t) :
    (∀ x ∈ h, ∀ k m, x.before.miners.get k = some m → m.referrer ≠ Pubkey.default →
      ∃ m', x.after.miners.get k = some m' ∧ m'.referrer = m.referrer) ∧
    (∀ k r, t.referrers.get k = some r →
      r.referrerCount = t.miners.count fun m => m.referrer = k) ∧
    (∀ k m, t.miners.get k = some m → m.referrer ≠ .referrerPda m.authority) ∧
    ∀ clock accounts cpi u,
      (processInstruction env clock .claimSol accounts cpi t = .ok u →
        ∃ m share rest, SolClaimed clock referralBps m m.authority t u share rest) ∧
      (processInstruction env clock .claimSolAndFundAutomation accounts cpi t = .ok u →
        ∃ m share rest, SolClaimed clock (referralBps / 10) m (.automationV2Pda m.authority)
          t u share rest) ∧
      (processInstruction env clock .claimGodl accounts cpi t = .ok u →
        ∃ m amount share rest, GodlClaimed clock m t u amount share rest) := by
  have hreferred := referred_of_run hminers hreferrers hrun
  refine ⟨fun x hx k m hm hnamed => referrer_once hrun hx hm hnamed, ?_, ?_, ?_⟩
  · intro k r hr
    have hkey : .referrerPda r.authority = k := t.referrers.key_of_get k r hr
    have hcount := hreferred.count r.authority
    rw [hkey, State.referrerCount, Store.view_of_get hr] at hcount
    exact hcount
  · intro k m hm
    have hkey : .minerPda m.authority = k := t.miners.key_of_get k m hm
    have hforeign := hreferred.foreign m.authority
    rwa [hkey, referrer_of_get hm] at hforeign
  · intro clock accounts cpi u
    refine ⟨fun hok => ?_, fun hok => ?_, fun hok => ?_⟩
    · refine Ensures.elim (Q := fun u => ∃ m share rest,
        SolClaimed clock referralBps m m.authority t u share rest) ?_ hok
      simp only [processInstruction]
      split
      · exact processClaimSol_spec _ _ _ _ _
      · exact ensures_error.2 trivial
    · refine Ensures.elim (Q := fun u => ∃ m share rest,
        SolClaimed clock (referralBps / 10) m (.automationV2Pda m.authority) t u share rest)
        ?_ hok
      simp only [processInstruction]
      split
      · exact processClaimSolAndFundAutomation_spec _ _ _ _ _ _
      · exact ensures_error.2 trivial
    · refine Ensures.elim (Q := fun u => ∃ m amount share rest,
        GodlClaimed clock m t u amount share rest) ?_ hok
      simp only [processInstruction]
      split
      · exact processClaimGodl_split _ _ _ _ _ _ _ _ _ _ _ _ _ _
      · exact ensures_error.2 trivial

end Run

/-- Player 7 names the key pair 8 as its referrer and wins the round. -/
def referralScript : List Call :=
  [.plain 1 1 .initializeReferrer [.signer 8, .writable (.referrerPda (.key 8)),
     .writable (.associatedTokenAddress (.referrerPda (.key 8)) mintAddress),
     .writable mintAddress, .program systemProgramId, .program splTokenId,
     .program associatedTokenProgramId],
   openingBet,
   .plain 11 2 (.setReferrer (.referrerPda (.key 8))) [.signer 7,
     .writable (.minerPda (.key 7)), .writable (.referrerPda (.key 8))],
   .reset 400 1 (.minerPda (.key 7)) (.poolMemberPda (.key 7)),
   .checkpoint 500 9 7 1 (.poolRoundPda 1) (.poolMemberPda (.key 7))]

/-- It claims its SOL. -/
def referralClaim : Call :=
  .plain 501 3 .claimSol [.signer 7, .writable (.minerPda (.key 7)), .program systemProgramId,
    .writable (.referrerPda (.key 8))]

/-- Of the 1872 lamports that player 7 wins, its referrer gets 9. -/
theorem referrals_kept_claim : ∃ (h : History) (t u : State) (m : Miner) (share rest : ℕ),
    Run (Step .plain anyInstruction) (State.table 1 25#256) h t ∧
    t.referrerCount (.referrerPda (.key 8)) = 1 ∧
    t.referrer (.minerPda (.key 7)) = .referrerPda (.key 8) ∧
    SolClaimed referralClaim.clock referralBps m m.authority t u share rest ∧
    u.referrers.view 0 (·.rewardsSol) (.referrerPda (.key 8)) = 9 := by
  obtain ⟨h, t, hrun, -, ht⟩ := exists_run_of_perform .plain anyInstruction
    (State.table 1 25#256) referralScript
    (fun t => t.referrerCount (.referrerPda (.key 8)) = 1 &&
      t.referrer (.minerPda (.key 7)) = .referrerPda (.key 8) &&
      returns (processInstruction .plain referralClaim.clock referralClaim.ix
        referralClaim.accounts referralClaim.cpi t) fun u =>
          u.referrers.view 0 (·.rewardsSol) (.referrerPda (.key 8)) = 9)
    (fun _ _ => trivial) (by decide +kernel)
  rw [Bool.and_eq_true, Bool.and_eq_true] at ht
  obtain ⟨u, hu, hrewards⟩ := exists_of_returns ht.2
  obtain ⟨-, -, -, hclaims⟩ := referrals_kept rfl rfl hrun
  obtain ⟨m, share, rest, hclaimed⟩ := (hclaims _ _ _ u).1 hu
  exact ⟨h, t, u, m, share, rest, hrun, of_decide_eq_true ht.1.1, of_decide_eq_true ht.1.2,
    hclaimed, of_decide_eq_true hrewards⟩

end Godl
