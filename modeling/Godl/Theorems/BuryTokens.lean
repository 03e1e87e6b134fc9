import Godl.Proof.Effect
import Godl.Theorems.Ledger

/-!
# Burying tokens that are owed

The treasury's GODL account backs the motherlode, the unrefined and the refined GODL of the
miners, the yield of the stakers, and the rewards of rounds that checkpoints have yet to
credit.  Burying tokens asks for no more than that the account holds them, so it may take what
is owed.

## Main definitions

* `State.liabilities` — what the account backs.
* `buryTokens_covers_iff` — when it still covers that after tokens were buried.
* `buryTokens_takes_owed` — a run after which it does not.
-/

namespace Godl

open Lib

/-! ## Liabilities -/

/-- The round account that a checkpoint names. -/
def Label.checkpointRound : Label → Option Pubkey
  | .call _ .checkpoint accounts _ => accounts[3]?.map (·.key)
  | .call _ .checkpointWithMinerExtended accounts _ => accounts[3]?.map (·.key)
  | _ => none

/-- The GODL that a step credits out of the round at `k`. -/
def creditedGodl (k : Pubkey) (x : Transition State Label) : ℕ :=
  if x.label.checkpointRound = some k then
    x.after.treasury.totalUnclaimed - x.before.treasury.totalUnclaimed
  else 0

namespace State

/-- The rewards of rounds that were reset and not closed, less what checkpoints credited. -/
def uncreditedRewards (h : History) (s : State) : ℕ :=
  s.rounds.sum fun r =>
    if r.id < s.board.roundId then
      r.topMinerReward + r.motherlode - total (creditedGodl r.pda) h
    else 0

/-- What all stakers can claim when their factor stands at `F`. -/
def stakeYield (s : State) (F : ℕ) : ℕ :=
  s.stakes.sum (fun x => x.position.reward + x.position.pending factorScale F) +
    s.stakesV2.sum fun a => a.stake.position.reward + a.stake.position.pending factorScale F

/-- What the treasury's GODL account backs when the stakers' factor stands at `F`. -/
def liabilities (h : History) (s : State) (F : ℕ) : ℕ :=
  s.treasury.motherlode + s.treasury.totalUnclaimed + s.treasury.totalRefined + s.stakeYield F +
    s.uncreditedRewards h

/-- The account covers what it backs. -/
def CoversLiabilities (h : History) (s : State) : Prop :=
  s.liabilities h s.treasury.stakeRewardsFactor.bits ≤ s.tokensAt treasuryTokensAddress

/-- What the stakers get of an amount that is buried. -/
def buriedShare (s : State) (amount : ℕ) : ℕ :=
  if 0 < s.treasury.totalStaked then amount * stakersBps / denominatorBps else 0

/-- The stakers' factor once an amount is buried. -/
def buriedFactor (s : State) (amount : ℕ) : ℕ :=
  s.treasury.stakeRewardsFactor.bits +
    s.buriedShare amount * factorScale / s.treasury.totalStaked

end State

section Bury

variable {env : Env} {clock : Clock} {accounts : List AccountInfo} {cpi : Cpi} {amount : ℕ}
  {s s' t : State} {h : History}

/-! ## What is buried -/

theorem stakersShare_eq (amount : ℕ) (s : State) :
    Ensures (stakersShare amount s) fun shared => shared = s.buriedShare amount := by
  by_cases hpos : 0 < s.treasury.totalStaked
  · simp only [stakersShare, State.buriedShare, if_pos hpos, ensures_bind, ensures_mulU64,
      ensures_pure]
    exact fun _ => trivial
  · simp only [stakersShare, State.buriedShare, if_neg hpos, ensures_pure]

/-- The rest leaves the treasury's account, to the warchest or for good. -/
theorem buryRest_takes {a : BuryAccounts} (n : ℕ)
    (hkey : a.treasuryGodlInfo.key = treasuryTokensAddress)
    (hwarchest : a.warchestGodlInfo.key = treasuryTokensAddress → warchestActive a = false) :
    Ensures (buryRest a n s) fun r =>
      r.2.tokensAt treasuryTokensAddress + n = s.tokensAt treasuryTokensAddress := by
  simp only [buryRest, ensures_ite, ensures_bind, ensures_pure]
  refine ⟨fun _ => ⟨fun hactive => ?_, fun _ => ?_⟩, fun hzero => by omega⟩
  · refine Ensures.mono (State.transferTokens_spec _ _ _ _) ?_
    rintro _ ⟨tok, rfl, hmoved, -⟩
    have hbalance := hmoved.balance treasuryTokensAddress
    have hne : treasuryTokensAddress ≠ a.warchestGodlInfo.key := by
      intro heq
      rw [hwarchest heq.symm] at hactive
      cases hactive
    rw [if_pos hkey.symm, if_neg hne] at hbalance
    exact hbalance
  · refine Ensures.mono (State.burnTokens_spec _ _ _) ?_
    rintro _ ⟨tok, rfl, -, hburned⟩
    have hbalance := hburned treasuryTokensAddress
    rw [if_pos hkey.symm] at hbalance
    exact hbalance

/-- What is not shared leaves the treasury's account. -/
theorem buryShares_takes {a : BuryAccounts}
    (hkey : a.treasuryGodlInfo.key = treasuryTokensAddress)
    (hwarchest : a.warchestGodlInfo.key = treasuryTokensAddress → warchestActive a = false) :
    Ensures (buryShares clock a false amount 0 s) fun s' =>
      s'.tokensAt treasuryTokensAddress + (amount - s.buriedShare amount) =
        s.tokensAt treasuryTokensAddress ∧
      s'.treasury.stakeRewardsFactor.bits = s.buriedFactor amount := by
  simp only [buryShares, raiseStakeFactor, ensures_bind, ensures_ite, ensures_pure,
    Fixed.ensures_ofFraction, Fixed.ensures_add, ensures_mulU64, ensures_subU64]
  refine Ensures.mono (stakersShare_eq amount s) fun shared hshared => ?_
  subst hshared
  -- The admin's share is a constant zero.
  have hadmin : amount * adminBps / denominatorBps = 0 := by simp
  simp only [hadmin, Nat.sub_zero]
  have hrest : ∀ u : State, u.tokens = s.tokens →
      u.treasury.stakeRewardsFactor.bits = s.buriedFactor amount →
      Ensures (buryRest a (amount - s.buriedShare amount) u) fun r =>
        (r.2.programLog (.bury r.1 (s.buriedShare amount) 0 r.2.mintSupply
            clock.unixTimestamp)).tokensAt treasuryTokensAddress +
          (amount - s.buriedShare amount) = s.tokensAt treasuryTokensAddress ∧
        (r.2.programLog (.bury r.1 (s.buriedShare amount) 0 r.2.mintSupply
            clock.unixTimestamp)).treasury.stakeRewardsFactor.bits = s.buriedFactor amount := by
    intro u htokens hfactor
    have hxaut : a.treasuryGodlInfo.key ≠ goldVaultXautAddress := by simp [hkey]
    refine Ensures.mono ((buryRest_takes _ hkey hwarchest).and (buryRest_spec _ hxaut)) ?_
    rintro r ⟨htakes, hdrain, -⟩
    have hbefore : u.tokensAt treasuryTokensAddress = s.tokensAt treasuryTokensAddress := by
      rw [State.tokensAt, htokens, State.tokensAt]
    rw [hbefore] at htakes
    refine ⟨htakes, ?_⟩
    rw [← hfactor]
    exact congrArg Fixed.bits hdrain.stakes.factor
  refine ⟨fun _ _ _ _ => ⟨fun hzero => absurd hzero (lt_irrefl 0), fun _ _ _ => ?_⟩,
    fun hskip _ => ⟨fun hzero => absurd hzero (lt_irrefl 0), fun _ _ _ => ?_⟩⟩
  · exact hrest _ rfl (by rw [State.buriedFactor, factorScale_eq])
  · refine hrest s rfl ?_
    -- The raise was skipped because there are no stakers or because nothing is shared.
    have hzero : s.buriedShare amount = 0 := by
      by_contra hne
      have hpos : 0 < s.treasury.totalStaked := by
        by_contra hnone
        exact hne (if_neg hnone)
      exact hskip ⟨hpos, .inr (Nat.pos_of_ne_zero hne)⟩
    simp [State.buriedFactor, hzero]

/-- What the checks on the accounts of a bury say about the warchest. -/
theorem checkBuryAccounts_warchest (a : BuryAccounts) (s : State) :
    Ensures (checkBuryAccounts a s) fun _ =>
      a.warchestGodlInfo.key = treasuryTokensAddress → warchestActive a = false := by
  simp only [checkBuryAccounts, ensures_bind, ensures_require, ensures_fromOption, ensures_ite,
    ensures_pure]
  intro _ _ _ _ _ _ _ _ _ _ _ _ _ _
  refine ⟨fun _ hchest _ hgodl _ _ _ _ heq => ?_, fun hinactive _ _ _ => ?_⟩
  · rw [hgodl, hchest] at heq
    cases heq
  · exact Bool.eq_false_iff.2 hinactive

theorem processBuryTokens_takes (clock : Clock) (amount : ℕ) (a : BuryAccounts) (s : State) :
    Ensures (processBuryTokens clock amount a s) fun s' =>
      s'.tokensAt treasuryTokensAddress + (amount - s.buriedShare amount) =
        s.tokensAt treasuryTokensAddress ∧
      s'.treasury.stakeRewardsFactor.bits = s.buriedFactor amount := by
  simp only [processBuryTokens, ensures_bind, ensures_require]
  refine Ensures.mono ((checkBuryAccounts_spec a s).and (checkBuryAccounts_warchest a s)) ?_
  rintro n ⟨⟨hkey, -, -⟩, hwarchest⟩ _ _
  exact buryShares_takes hkey hwarchest

/-- Burying tokens leaves every liability but the yield of the stakers alone. -/
theorem Buried.liabilities {shared : ℕ} (hburied : Buried s s' shared)
    {x : Transition State Label} (hx : x.label.checkpointRound = none) (F : ℕ) :
    s'.liabilities (x :: h) F = s.liabilities h F := by
  have hcredited : ∀ k, total (creditedGodl k) (x :: h) = total (creditedGodl k) h := by
    intro k
    rw [total_cons, creditedGodl, hx]
    simp
  simp only [State.liabilities, State.stakeYield, State.uncreditedRewards, hcredited]
  rw [hburied.motherlode, hburied.ledger.totalUnclaimed, hburied.ledger.totalRefined,
    hburied.stakes, hburied.stakesV2, hburied.game.rounds, hburied.game.board]

theorem buryTokens_takes
    (hok : processInstruction env clock (.buryTokens amount) accounts cpi s = .ok s') :
    (∃ shared, Buried s s' shared) ∧
      s'.tokensAt treasuryTokensAddress + (amount - s.buriedShare amount) =
        s.tokensAt treasuryTokensAddress ∧
      s'.treasury.stakeRewardsFactor.bits = s.buriedFactor amount := by
  refine Ensures.elim (Q := fun s' => (∃ shared, Buried s s' shared) ∧
    s'.tokensAt treasuryTokensAddress + (amount - s.buriedShare amount) =
      s.tokensAt treasuryTokensAddress ∧
    s'.treasury.stakeRewardsFactor.bits = s.buriedFactor amount) ?_ hok
  simp only [processInstruction]
  split
  · exact (processBuryTokens_spec _ _ _ _).and (processBuryTokens_takes _ _ _ _)
  · exact ensures_error.2 trivial

/-- **When burying tokens leaves what is owed**: what leaves the account must be left over
beside the liabilities, which the stakers' new factor raises. -/
theorem buryTokens_covers_iff
    (hok : processInstruction env clock (.buryTokens amount) accounts cpi s = .ok s') :
    s'.CoversLiabilities (⟨s, .call clock (.buryTokens amount) accounts cpi, s'⟩ :: h) ↔
      s.liabilities h (s.buriedFactor amount) + (amount - s.buriedShare amount) ≤
        s.tokensAt treasuryTokensAddress := by
  obtain ⟨⟨shared, hburied⟩, htakes, hfactor⟩ := buryTokens_takes hok
  rw [State.CoversLiabilities, hfactor, hburied.liabilities rfl]
  omega

end Bury

/-- While no round was reset there is nothing to credit. -/
theorem liabilities_of_no_reset {s : State}
    (hnone : s.rounds.sum (fun r => if r.id < s.board.roundId then 1 else 0) = 0) (h : History)
    (F : ℕ) : s.liabilities h F = s.liabilities [] F := by
  have hsum : s.uncreditedRewards h = s.uncreditedRewards [] := by
    refine Store.sum_congr fun k r hr => ?_
    have hle := Store.le_sum (fun r : Round => if r.id < s.board.roundId then 1 else 0) hr
    rw [hnone] at hle
    dsimp only
    by_cases hid : r.id < s.board.roundId
    · rw [if_pos hid] at hle
      omega
    · rw [if_neg hid, if_neg hid]
  rw [State.liabilities, State.liabilities, hsum]

/-- A set-up program whose bury authority holds 500 GODL and whose treasury holds 300 that
nobody is owed. -/
def surplusState : State :=
  { fundedState with
    tokens := fun k =>
      if k = treasuryTokensAddress then some 300
      else if k = .associatedTokenAddress (.key 5) mintAddress then some 500
      else if k = .associatedTokenAddress adminGodlFee mintAddress then some 0
      else none
    mintSupply := 800 }

/-- The bury authority buries tokens. -/
def buryTokensCall (amount : ℕ) : Call :=
  .plain 3 3 (.buryTokens amount) [.signer 5, .writable .boardPda, .writable .configPda,
    .writable mintAddress, .writable .treasuryPda, .writable treasuryTokensAddress,
    .writable adminGodlFee, .writable (.associatedTokenAddress adminGodlFee mintAddress),
    .program Pubkey.default, .program Pubkey.default, .program splTokenId, .program godlApiId]

/-- No round was reset yet. -/
def State.noReset (s : State) : Bool :=
  s.rounds.sum (fun r => if r.id < s.board.roundId then 1 else 0) = 0

/-- The account covers what it backs while no round was reset. -/
def State.coversNow (s : State) : Bool :=
  s.liabilities [] s.treasury.stakeRewardsFactor.bits ≤ s.tokensAt treasuryTokensAddress

theorem coversLiabilities_iff {s : State} (hnone : s.noReset = true) (h : History) :
    s.CoversLiabilities h ↔ s.coversNow = true := by
  rw [State.CoversLiabilities, liabilities_of_no_reset (of_decide_eq_true hnone), State.coversNow,
    decide_eq_true_iff]

/-- A miner is paid 100 unrefined GODL, then tokens are buried. -/
theorem exists_bury (amount : ℕ) (Q : State → Bool)
    (hok : returns (perform .plain injectScript surplusState) (fun s =>
      s.noReset && s.coversNow &&
      returns (processInstruction .plain (buryTokensCall amount).clock (buryTokensCall amount).ix
        (buryTokensCall amount).accounts (buryTokensCall amount).cpi s) Q) = true) :
    ∃ h s s', Run (Step .plain anyInstruction) surplusState h s ∧ s.CoversLiabilities h ∧
      processInstruction .plain (buryTokensCall amount).clock (buryTokensCall amount).ix
        (buryTokensCall amount).accounts (buryTokensCall amount).cpi s = .ok s' ∧ Q s' = true := by
  obtain ⟨h, s, hrun, -, hs⟩ := exists_run_of_perform .plain anyInstruction surplusState
    injectScript _ (fun _ _ => trivial) hok
  rw [Bool.and_eq_true, Bool.and_eq_true] at hs
  obtain ⟨s', hs', hQ⟩ := exists_of_returns hs.2
  exact ⟨h, s, s', hrun, (coversLiabilities_iff hs.1.1 h).2 hs.1.2, hs', hQ⟩

/-- Burying the surplus of 300 leaves what is owed. -/
theorem buryTokens_covers_surplus : ∃ (h : History) (s s' : State) (x : Transition State Label),
    Run (Step .plain anyInstruction) surplusState h s ∧ s.CoversLiabilities h ∧
    processInstruction .plain (buryTokensCall 300).clock (buryTokensCall 300).ix
      (buryTokensCall 300).accounts (buryTokensCall 300).cpi s = .ok s' ∧
    s.liabilities h (s.buriedFactor 300) + (300 - s.buriedShare 300) ≤
      s.tokensAt treasuryTokensAddress ∧ s'.CoversLiabilities (x :: h) := by
  obtain ⟨h, s, s', hrun, hbefore, hok, hs'⟩ := exists_bury 300
    (fun s' => s'.noReset && s'.coversNow) (by decide +kernel)
  rw [Bool.and_eq_true] at hs'
  have hafter := (coversLiabilities_iff hs'.1 (⟨s, (buryTokensCall 300).label, s'⟩ :: h)).2 hs'.2
  exact ⟨h, s, s', _, hrun, hbefore, hok, (buryTokens_covers_iff hok).1 hafter, hafter⟩

/-- **Burying tokens takes what is owed**: all 400 GODL of the account, 100 of them a miner's. -/
theorem buryTokens_takes_owed : ¬ ∀ (env : Env) (clock : Clock) (accounts : List AccountInfo)
    (cpi : Cpi) (amount : ℕ) (h : History) (s s' : State),
    Run (Step env anyInstruction) surplusState h s → s.CoversLiabilities h →
    processInstruction env clock (.buryTokens amount) accounts cpi s = .ok s' →
    s'.CoversLiabilities (⟨s, .call clock (.buryTokens amount) accounts cpi, s'⟩ :: h) := by
  intro hclaim
  obtain ⟨h, s, s', hrun, hbefore, hok, hs'⟩ := exists_bury 400
    (fun s' => s'.noReset && !s'.coversNow) (by decide +kernel)
  rw [Bool.and_eq_true] at hs'
  have hafter := (coversLiabilities_iff hs'.1 _).1 (hclaim _ _ _ _ _ _ _ _ hrun hbefore hok)
  rw [hafter] at hs'
  cases hs'.2

end Godl
