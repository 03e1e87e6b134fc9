import Godl.Proof.Latch
import Godl.Proof.Payouts
import Godl.Proof.PoolBook
import Godl.Theorems.CrankReset
import Godl.Theorems.ResetArithmetic

/-!
# When a round can pay its winners

A reset takes its fees once, from the totals of the round; a checkpoint takes the fee of each
winner on its own.  Both round down, and the second one more often: the round can be left with
less than it has to pay.  It is left with enough exactly when the fees of the winners, each
rounded down, still cover the fees of the reset.

## Main definitions

* `State.FeesCovered` — the fees of the winners cover those of the reset.
* `round_solvent_iff` — then, and only then, the round can pay all its winners.
* `round_insolvent` — two players of whom the second cannot be paid.
-/

namespace Godl

open Lib

/-! ## Sums over the winners -/

/-- The fees of the winners. -/
def State.winnerFees (s : State) (round : Round) (ws : Square) : ℕ :=
  s.miners.sum fun m => if m.roundId = round.id then winnerFee (m.deployed ws) else 0

/-- The shares of the winners in `pot`. -/
def State.winnerShares (s : State) (round : Round) (ws : Square) (pot : ℕ) : ℕ :=
  s.miners.sum fun m =>
    if m.roundId = round.id then pot * m.deployed ws / round.deployed ws else 0

/-- What the current round holds beyond its rent and what was deployed in it, the admin fee
included should it be its own collector. -/
def State.surplus (s : State) (variant : ResetVariant) (a : ResetAccounts) (round : Round) : ℕ :=
  s.lamports (.roundPda round.id) + adminGain variant a round.adminFee (.roundPda round.id) -
    (minimumBalance roundSize + round.totalDeployed)

/-- The fees that a reset takes are covered by those on the losing squares and by those of the
winners, together with what is left of the winnings and with the surplus. -/
def State.FeesCovered (s : State) (variant : ResetVariant) (a : ResetAccounts) (round : Round) :
    Prop :=
  ∀ r, round.rng = some r → 0 < round.deployed (Round.winningSquare r) →
    round.adminFee + round.motherlodeFee +
        s.winnerShares round (Round.winningSquare r)
          (round.losingShared (Round.winningSquare r)) ≤
      round.losingFees (Round.winningSquare r) + s.winnerFees round (Round.winningSquare r) +
        round.losingShared (Round.winningSquare r) + s.surplus variant a round

section Sums

variable {s : State} {round round' : Round} {ws : Square} {r : BitVec 64}

/-- The deployments of the miners on a square add up to what lies there. -/
theorem Round.Tiled.sum_deployed (h : round.Tiled s) (hid : round.id = s.board.roundId)
    (sq : Square) :
    s.miners.sum (fun m => if m.roundId = round.id then m.deployed sq else 0) =
      round.deployed sq := by
  set g : Miner.Wager → ℕ := fun w => if w.roundId = round.id then w.deployed sq else 0 with hg
  have hview : s.miners.sum (fun m => g m.wager) = ∑ k ∈ s.miners.keys, s.staked sq k := by
    have hz : g ⟨0, 0, fun _ => 0, fun _ => 0⟩ = 0 := ite_self 0
    rw [Store.sum_eq_sum_view (f := Miner.wager) hz (Finset.Subset.refl _)]
    refine Finset.sum_congr rfl fun k _ => ?_
    rw [State.staked, hg, hid]
    rfl
  refine hview.trans ((h.tiles sq).sum_len fun k hk => ?_)
  have hnone : s.miners.get k = none := by simpa [s.miners.mem_keys] using hk
  rw [State.staked, State.wagers, Store.view_of_none hnone]
  exact ite_self 0

/-- What the winners get is what they deployed, less their fees, and their shares. -/
theorem Round.Tiled.payouts_winners (h : round.Tiled s) (hid : round.id = s.board.roundId)
    (hsame : round'.id = round.id) (hdeployed : round'.deployed = round.deployed)
    (hrng : round'.rng = some r) :
    s.payouts round' + s.winnerFees round (Round.winningSquare r) =
      round.deployed (Round.winningSquare r) +
        s.winnerShares round (Round.winningSquare r) round'.totalWinnings := by
  rw [← h.sum_deployed hid, State.payouts, State.winnerFees, State.winnerShares, ← Store.sum_add,
    ← Store.sum_add]
  refine Store.sum_congr fun k m _ => ?_
  have hpays : round'.pays m.wager = if m.roundId = round.id then
      m.deployed (Round.winningSquare r) - winnerFee (m.deployed (Round.winningSquare r)) +
        round'.share (Round.winningSquare r) (m.deployed (Round.winningSquare r)) else 0 := by
    rw [Round.pays, hsame]
    show (if m.roundId = round.id then round'.payout m.deployed else 0) = _
    rw [Round.payout, hrng]
  show round'.pays m.wager + _ = _
  rw [hpays, Round.share, hdeployed]
  have hfee := winnerFee_le (m.deployed (Round.winningSquare r))
  split
  · omega
  · rfl

/-- Without a winning square everything is paid back. -/
theorem Round.Tiled.payouts_refund (h : round.Tiled s) (hid : round.id = s.board.roundId)
    (hsame : round'.id = round.id) (hrng : round'.rng = none) :
    s.payouts round' = round.totalDeployed := by
  have hpays : s.payouts round' = s.miners.sum fun m =>
      ∑ sq, if m.roundId = round.id then m.deployed sq else 0 := by
    refine Store.sum_congr fun k m _ => ?_
    show (if m.roundId = round'.id then round'.payout m.deployed else 0) = _
    rw [hsame, Round.payout, hrng]
    split
    · rfl
    · exact Finset.sum_const_zero.symm
  rw [hpays, Store.sum_sum, h.total]
  exact Finset.sum_congr rfl fun sq _ => h.sum_deployed hid sq

/-- Without winners nothing is paid. -/
theorem Round.Tiled.payouts_vault (h : round.Tiled s) (hid : round.id = s.board.roundId)
    (hsame : round'.id = round.id) (hdeployed : round'.deployed = round.deployed)
    (hrng : round'.rng = some r) (hzero : round.deployed (Round.winningSquare r) = 0) :
    s.payouts round' = 0 := by
  have hsum := h.payouts_winners hid hsame hdeployed hrng
  have hshares : s.winnerShares round (Round.winningSquare r) round'.totalWinnings = 0 := by
    simp [State.winnerShares, hzero]
  omega

end Sums

section Reset

variable {clock : Clock} {variant : ResetVariant} {a : ResetAccounts} {s s' : State}
  {round : Round} {value : Hash} {topMiner : Pubkey}

/-- What a reset leaves in the round: what it does not send out. -/
theorem Reset.left (h : Reset clock variant a s s' round value topMiner) :
    s'.lamports (.roundPda s.board.roundId) +
        (s.verdict { round with slotHash := value } topMiner).sent =
      s.lamports (.roundPda s.board.roundId) +
        adminGain variant a (s.verdict { round with slotHash := value } topMiner).adminFee
          (.roundPda s.board.roundId) := by
  have hsigner : Pubkey.roundPda s.board.roundId ≠ a.signerInfo.key := by
    intro hkey
    have hpair := a.signerInfo.isKeypair_of_isSigner h.signer
    rw [← hkey] at hpair
    cases hpair
  have hbalance := h.balance (.roundPda s.board.roundId)
  rw [if_pos rfl, if_neg hsigner, if_neg (by simp), if_neg (by simp), Verdict.gain,
    if_neg (by simp [h.motherlodeKey]), if_neg (by simp [h.treasuryKey])] at hbalance
  omega

/-- **A reset leaves the round with what it has to pay exactly when the fees are covered.** -/
theorem Reset.solvent_iff (h : Reset clock variant a s s' round value topMiner)
    (htiled : round.Tiled s) (hfunded : s.RoundFunded) :
    minimumBalance roundSize +
        s'.payouts (s.verdict { round with slotHash := value } topMiner).round ≤
      s'.lamports (.roundPda s.board.roundId) ↔
    s.FeesCovered variant a { round with slotHash := value } := by
  have hround : Pubkey.roundPda round.id = .roundPda s.board.roundId :=
    s.rounds.key_of_get _ _ h.getRound
  have hid : round.id = s.board.roundId := by injection hround
  have hheld := hfunded round h.getRound
  have hleft := h.left
  have hsame : (s.verdict { round with slotHash := value } topMiner).round.id = round.id :=
    s.verdict_id _ _
  have hrng : (s.verdict { round with slotHash := value } topMiner).round.rng =
      ({ round with slotHash := value } : Round).rng := by
    rw [Round.rng, State.verdict_slotHash]
    rfl
  have hdeployed : (s.verdict { round with slotHash := value } topMiner).round.deployed =
      round.deployed := (s.verdict_bets _ _).1
  have hpayouts : ∀ round', s'.payouts round' = s.payouts round' := by
    intro round'
    rw [State.payouts, State.payouts, h.miners]
  rw [hpayouts]
  cases hr : ({ round with slotHash := value } : Round).rng with
  | none =>
    have hrefund := htiled.payouts_refund hid hsame (hrng.trans hr)
    have hsent : (s.verdict { round with slotHash := value } topMiner).sent = 0 := by
      rw [State.verdict, hr]
      rfl
    refine iff_of_true ?_ fun r hr' => by rw [hr] at hr'; cases hr'
    omega
  | some r =>
    by_cases hzero : round.deployed (Round.winningSquare r) = 0
    · have hnone := htiled.payouts_vault hid hsame hdeployed (hrng.trans hr) hzero
      have hsent : (s.verdict { round with slotHash := value } topMiner).sent ≤
          round.totalDeployed := by
        have hfees := round.fees_le
        rw [State.verdict, hr]
        simp only [hzero, if_true]
        show round.adminFee + round.motherlodeFee +
          (round.totalDeployed - round.adminFee - round.motherlodeFee) ≤ round.totalDeployed
        omega
      refine iff_of_true ?_ fun r' hr' hpos => ?_
      · omega
      · rw [hr] at hr'
        cases hr'
        exact absurd hzero hpos.ne'
    · have hverdict : s.verdict { round with slotHash := value } topMiner =
          s.winnersVerdict { round with slotHash := value } topMiner r
            (Round.winningSquare r) := by
        rw [State.verdict, hr]
        exact if_neg hzero
      have hwinnings : (s.verdict { round with slotHash := value } topMiner).round.totalWinnings =
          round.losingShared (Round.winningSquare r) := by
        rw [hverdict]
        simp only [State.winnersVerdict, payMotherlode]
        split <;> rfl
      have hfee : (s.verdict { round with slotHash := value } topMiner).adminFee =
          round.adminFee := by rw [hverdict]; rfl
      have hsent : (s.verdict { round with slotHash := value } topMiner).sent =
          round.adminFee + round.motherlodeFee + round.losingVaulted (Round.winningSquare r) := by
        rw [hverdict]
        rfl
      have hsum := htiled.payouts_winners hid hsame hdeployed (hrng.trans hr)
      rw [hwinnings] at hsum
      rw [hfee, hsent] at hleft
      have hout := Round.outflows htiled.total (Round.winningSquare r)
      have hsurplus : s.surplus variant a { round with slotHash := value } =
          s.lamports (.roundPda s.board.roundId) +
            adminGain variant a round.adminFee (.roundPda s.board.roundId) -
              (minimumBalance roundSize + round.totalDeployed) := by
        rw [← hround]
        rfl
      have hcovered : s.FeesCovered variant a { round with slotHash := value } ↔
          round.adminFee + round.motherlodeFee + s.winnerShares round (Round.winningSquare r)
              (round.losingShared (Round.winningSquare r)) ≤
            round.losingFees (Round.winningSquare r) +
              s.winnerFees round (Round.winningSquare r) +
              round.losingShared (Round.winningSquare r) +
              s.surplus variant a { round with slotHash := value } := by
        refine ⟨fun hc => hc r hr (Nat.pos_of_ne_zero hzero), fun hc r' hr' _ => ?_⟩
        obtain rfl := Option.some.inj (hr.symm.trans hr')
        exact hc
      rw [hcovered, hsurplus]
      omega

end Reset

section Runs

variable {env : Env} {allowed : GodlInstruction → Prop} {s t u : State} {h : History}
  {round : Round}

/-- **A round that can pay what it owes goes on to be able to**, whoever is paid first. -/
theorem solvent_run (hsetup : t.opened .treasury = true) (hpast : round.id < t.board.roundId)
    (hget : t.rounds.get (.roundPda round.id) = some round)
    (hwinnings : round.totalWinnings < u64Bound)
    (hsolvent : minimumBalance roundSize + t.unpaid round ≤ t.lamports (.roundPda round.id))
    (hrun : Run (Step env allowed) t h u) {round' : Round}
    (hget' : u.rounds.get (.roundPda round.id) = some round') :
    minimumBalance roundSize + u.unpaid round' ≤ u.lamports (.roundPda round.id) := by
  suffices hinv : u.opened .treasury = true ∧ round.id < u.board.roundId ∧
      ∀ round', u.rounds.get (.roundPda round.id) = some round' → round.Frozen round' ∧
        minimumBalance roundSize + u.unpaid round' ≤ u.lamports (.roundPda round.id) from
    (hinv.2.2 round' hget').2
  refine hrun.invariant (P := fun u => u.opened .treasury = true ∧ round.id < u.board.roundId ∧
    ∀ round', u.rounds.get (.roundPda round.id) = some round' → round.Frozen round' ∧
      minimumBalance roundSize + u.unpaid round' ≤ u.lamports (.roundPda round.id))
    ⟨hsetup, hpast, fun round' hr => ?_⟩ fun v l w hv hstep => ?_
  · obtain rfl := Option.some.inj (hget.symm.trans hr)
    exact ⟨.refl round, hsolvent⟩
  · obtain ⟨hopened, hid, hrounds⟩ := hv
    have heffect := hstep.effect
    have hgame := heffect.game hopened
    refine ⟨heffect.opened hopened hopened, ?_, fun round' hr => ?_⟩
    · have hnext := hgame.roundId
      omega
    · cases hgame.pastRound hid with
      | absent _ hafter =>
        rw [hr] at hafter
        cases hafter
      | @kept before after hbefore hafter hfrozen =>
        obtain rfl := Option.some.inj (hafter.symm.trans hr)
        obtain ⟨hfirst, hheld⟩ := hrounds before hbefore
        have hbid : before.id = round.id := by rw [hfirst]
        have hlt : before.totalWinnings < u64Bound := by
          rw [hfirst]
          exact hwinnings
        have hkeeps := heffect.keepsOwed hopened (hbid ▸ hid) (hbid ▸ hbefore) (hbid ▸ hafter) hlt
        rw [KeepsOwed, hbid] at hkeeps
        refine ⟨hfirst.trans hfrozen, ?_⟩
        rw [State.unpaid_frozen hfrozen]
        omega
      | closed _ _ hafter _ =>
        rw [hr] at hafter
        cases hafter

end Runs

/-- **When a round can pay its winners.**  In every state that a run from a fresh round reaches,
a reset leaves the round with at least what all its miners get out of it, beyond its rent, if
and only if the fees it takes are covered; the round can then pay every miner in any order, until
it is closed. -/
theorem round_solvent_iff {env : Env} {allowed : GodlInstruction → Prop} {s t t' : State}
    {h : History} (hfresh : s.FreshRound) (hwinnings : s.NoWinnings) (hfunded : s.RoundFunded)
    (hrun : Run (Step env allowed) s h t) {clock : Clock} {variant : ResetVariant}
    {accounts : List AccountInfo} {cpi : Cpi}
    (hok : processInstruction env clock variant.instruction accounts cpi t = .ok t') :
    ∃ a round round' var, resetAccounts accounts = some a ∧
      t.rounds.get (.roundPda t.board.roundId) = some round ∧
      t.vars t.config.varAddress = some var ∧
      t'.rounds.get (.roundPda t.board.roundId) = some round' ∧
      (∀ b miner poolMember u, Ensures (checkpointRewards b round' miner poolMember u) fun r =>
        r.1 = round'.payout miner.deployed) ∧
      (minimumBalance roundSize + t'.payouts round' ≤ t'.lamports (.roundPda t.board.roundId) ↔
        t.FeesCovered variant a { round with slotHash := var.value }) ∧
      (t.FeesCovered variant a { round with slotHash := var.value } →
        ∀ (allowed' : GodlInstruction → Prop) h' u round'', Run (Step env allowed') t' h' u →
          u.rounds.get (.roundPda t.board.roundId) = some round'' →
          minimumBalance roundSize + u.unpaid round'' ≤
            u.lamports (.roundPda t.board.roundId)) := by
  obtain ⟨round, hround, htiled⟩ := (hfresh.tiled.run hrun).current
  have hnone := hwinnings.run hfresh.setup hrun round hround
  have hfunded' := hfunded.run hfresh.setup hrun
  obtain ⟨a, round₁, value, top, ha, hreset⟩ :=
    (resetCall_spec env clock variant accounts cpi t).elim hok
  obtain rfl := Option.some.inj (hreset.getRound.symm.trans hround)
  obtain ⟨var, hvar, rfl⟩ := hreset.entropy
  have hid : round₁.id = t.board.roundId := by
    have hkey : Pubkey.roundPda round₁.id = _ := t.rounds.key_of_get _ _ hround
    injection hkey
  have hafter : t'.rounds.get (.roundPda t.board.roundId) = _ :=
    (hreset.roundsAfter t.board.roundId).trans (if_pos rfl)
  have hsent := @State.verdict_sent_add_le { round₁ with slotHash := var.value } t htiled.total
    hnone top
  have hsame : (t.verdict { round₁ with slotHash := var.value } top).round.id =
      t.board.roundId := (t.verdict_id _ _).trans hid
  have hsolvent := hreset.solvent_iff htiled hfunded'
  generalize t.verdict { round₁ with slotHash := var.value } top = v at *
  have hlt : v.round.totalWinnings < u64Bound := by
    have hfits := htiled.fits
    dsimp only at hsent
    omega
  refine ⟨a, round₁, v.round, var, ha, hround, hvar, hafter, fun b miner poolMember u =>
    checkpointRewards_payout hlt, hsolvent, fun hcovered allowed' h' u round'' hrun' hget => ?_⟩
  have hopened : t.opened .treasury = true := by
    have hkeeps := hrun.invariant (P := fun u => u.opened .treasury = true) hfresh.setup
      fun u l u' hu hstep => hstep.effect.opened hu hu
    exact hkeeps
  rw [← hsame] at hafter hget ⊢
  refine solvent_run ?_ ?_ hafter hlt ?_ hrun' hget
  · rw [hreset.opened]
    exact hopened
  · rw [hsame, hreset.board]
    exact Nat.lt_succ_self _
  · have hpay := hsolvent.2 hcovered
    rw [← hsame] at hpay
    have hle := t'.unpaid_le v.round
    omega

/-- A table has no winnings yet. -/
theorem noWinnings_table (roundId : ℕ) (value : Hash) :
    (State.table roundId value).NoWinnings := by
  intro round hget
  obtain rfl := Option.some.inj ((State.table_round roundId value).symm.trans hget)
  rfl

/-- Players 7 and 8 deploy so much each on a square that will win. -/
def twoWinners (amount : ℕ) : List Call :=
  [.deploy 10 7 1 amount 1 false 25#256, .deploy 11 8 1 amount 1 false 25#256]

/-- The first of them resets the round. -/
def winnersReset : Call :=
  .resetPermissionless 400 7 1 (.minerPda (.key 8)) (.poolMemberPda (.key 8))

/-- Two winners of 200 lamports each: the fees are 2 and 4, those of the winners 3 and 3, and
the round can pay both, in any order. -/
theorem round_solvent_iff_two : ∃ (h : History) (t t' : State) (round' : Round),
    Run (Step .plain anyInstruction) (State.table 1 25#256) h t ∧
    t'.rounds.get (.roundPda t.board.roundId) = some round' ∧ t'.payouts round' = 394 ∧
    ∀ h' u round'', Run (Step .plain anyInstruction) t' h' u →
      u.rounds.get (.roundPda t.board.roundId) = some round'' →
      minimumBalance roundSize + u.unpaid round'' ≤
        u.lamports (.roundPda t.board.roundId) := by
  obtain ⟨h, t, hrun, -, hP⟩ := exists_run_of_perform .plain anyInstruction
    (State.table 1 25#256) (twoWinners 200)
    (fun t => returns (processInstruction .plain ⟨400, 0⟩
      ResetVariant.permissionless.instruction winnersReset.accounts ⟨none, none⟩ t) fun t' =>
        (t'.rounds.get (.roundPda t.board.roundId)).all fun round' =>
          t'.payouts round' = 394 ∧
          minimumBalance roundSize + t'.payouts round' ≤
            t'.lamports (.roundPda t.board.roundId))
    (fun _ _ => trivial) (by decide +kernel)
  obtain ⟨t', ht', hP'⟩ := exists_of_returns hP
  obtain ⟨a, round, round', var, -, -, -, hget, -, hiff, hlater⟩ := round_solvent_iff
    (freshRound_table 1 _) (noWinnings_table 1 _) (roundFunded_table 1 _) hrun ht'
  rw [hget, Option.all_some, decide_eq_true_eq] at hP'
  exact ⟨h, t, t', round', hrun, hget, hP'.1, hlater (hiff.1 hP'.2) anyInstruction⟩

/-- **A round that cannot pay**: two winners of 133 lamports each.  The reset takes fees of 1
and 2 lamports, and each checkpoint takes one: 264 lamports are owed and 263 are there. -/
theorem round_insolvent : ¬ ∀ (env : Env) (s t t' : State) (h : History) (clock : Clock)
    (accounts : List AccountInfo) (cpi : Cpi) (round' : Round),
    s.FreshRound → s.NoWinnings → s.RoundFunded → Run (Step env anyInstruction) s h t →
    processInstruction env clock .resetPermissionless accounts cpi t = .ok t' →
    t'.rounds.get (.roundPda t.board.roundId) = some round' →
    minimumBalance roundSize + t'.payouts round' ≤
      t'.lamports (.roundPda t.board.roundId) := by
  intro hall
  obtain ⟨h, t, hrun, -, hP⟩ := exists_run_of_perform .plain anyInstruction
    (State.table 1 25#256) (twoWinners 133)
    (fun t => returns (processInstruction .plain ⟨400, 0⟩ .resetPermissionless
      winnersReset.accounts ⟨none, none⟩ t) fun t' =>
        (t'.rounds.get (.roundPda t.board.roundId)).any fun round' =>
          t'.payouts round' = 264 ∧
          t'.lamports (.roundPda t.board.roundId) = minimumBalance roundSize + 263)
    (fun _ _ => trivial) (by decide +kernel)
  obtain ⟨t', ht', hP'⟩ := exists_of_returns hP
  obtain ⟨round', hget, hround'⟩ := (Option.any_eq_true _ _).1 hP'
  obtain ⟨hpayouts, hlamports⟩ := of_decide_eq_true hround'
  have hsolvent := hall _ _ _ _ _ _ _ _ _ (freshRound_table 1 _) (noWinnings_table 1 _)
    (roundFunded_table 1 _) hrun ht' hget
  omega

end Godl
