import Godl.Proof.CrankReset
import Godl.Theorems.Intervals
import Godl.Theorems.SolLedgers

/-!
# The arithmetic of a reset never aborts a round

A reset computes with machine integers, and checks at the end that what it pays out does
not exceed what was deployed.  The same reset with natural numbers, and without the check,
does the same: no product, difference or sum leaves its range, and what the check compares
is equal.

## Main definitions

* `settleExactly`, `resetExactly` — the reset with natural numbers.
* `reset_arithmetic` — it is the reset, of every round that is not too large.
-/

namespace Godl

open Lib

/-! ## The reset with natural numbers -/

/-- `resetVault` with natural numbers. -/
def resetVaultExactly (clock : Clock) (variant : ResetVariant) (a : ResetAccounts)
    (round : Round) (ws : Square) (totalAdminFee solMotherlodeAmount : ℕ) (s : State) :
    Result State := do
  let vaulted := round.totalDeployed - totalAdminFee - solMotherlodeAmount
  let round := { round with totalVaulted := vaulted }
  let s := { s with
    rounds := s.rounds.put round
    treasury := { s.treasury with balance := s.treasury.balance + vaulted }
    solMotherlode := ⟨s.solMotherlode.amount + solMotherlodeAmount⟩ }
  let s := s.programLog (.reset round.id s.board.startSlot s.board.endSlot ws.val
    Pubkey.default 0 0 round.totalDeployed round.totalVaulted round.totalWinnings 0
    clock.unixTimestamp)
  let s ← advanceBoard clock s
  let s ← payAdminFee variant a totalAdminFee s
  let s ← s.send a.roundInfo.key a.solMotherlodeInfo.key solMotherlodeAmount
  s.send a.roundInfo.key a.treasuryInfo.key vaulted

/-- `resetWinners` with natural numbers, and without the check of the outflows. -/
def resetWinnersExactly (clock : Clock) (env : Env) (variant : ResetVariant) (a : ResetAccounts)
    (round : Round) (r : BitVec 64) (ws : Square) (totalAdminFee solMotherlodeAmount : ℕ)
    (s : State) : Result State := do
  let round := { round with
    totalWinnings := round.losingShared ws
    totalVaulted := round.losingVaulted ws }
  let amounts ← mintAmounts s
  let topMiner ← latchTopMiner variant a round r ws s
  let round := { round with topMinerReward := amounts.1, topMiner := topMiner }
  let paid := payMotherlode r round
    { s.treasury with balance := s.treasury.balance + round.totalVaulted }
  let motherlode ← addU64 overflow paid.2.motherlode amounts.2
  let s := { s with
    rounds := s.rounds.put paid.1
    treasury := { paid.2 with motherlode := motherlode } }
  let s ← mintRound env a (amounts.1 + amounts.2) s
  let s ← s.send a.roundInfo.key a.solMotherlodeInfo.key solMotherlodeAmount
  let s := { s with solMotherlode := ⟨s.solMotherlode.amount + solMotherlodeAmount⟩ }
  let s := s.programLog (.reset paid.1.id s.board.startSlot s.board.endSlot ws.val
    paid.1.topMiner (paid.1.count ws) paid.1.motherlode paid.1.totalDeployed
    paid.1.totalVaulted paid.1.totalWinnings (amounts.1 + amounts.2) clock.unixTimestamp)
  let s ← advanceBoard clock s
  let s ← payAdminFee variant a totalAdminFee s
  s.send a.roundInfo.key a.treasuryInfo.key round.totalVaulted

/-- `settleRound` with natural numbers. -/
def settleExactly (clock : Clock) (env : Env) (variant : ResetVariant) (a : ResetAccounts)
    (round : Round) (s : State) : Result State :=
  match round.rng with
  | none => resetRefund clock round s
  | some r =>
      let ws := Round.winningSquare r
      if round.deployed ws = 0 then
        resetVaultExactly clock variant a round ws round.adminFee round.motherlodeFee s
      else
        resetWinnersExactly clock env variant a round r ws round.adminFee round.motherlodeFee s

/-- `resetBody` with natural numbers. -/
def resetExactly (clock : Clock) (env : Env) (variant : ResetVariant) (a : ResetAccounts)
    (s : State) : Result State := do
  let round ← checkResetAccounts clock variant a s
  let s ← openNextRound a (s.board.roundId + 1) s
  let value ← readEntropy env a s
  settleExactly clock env variant a { round with slotHash := value } s

/-! ## What a round is made of -/

section Round

variable {round : Round}

/-- What lies on one square and on all the others is what was deployed. -/
theorem Round.losing_add (htotal : round.totalDeployed = ∑ sq, round.deployed sq) (ws : Square) :
    round.losing ws + round.deployed ws = round.totalDeployed := by
  have hfilter : squareList.filter (· ≠ ws) = squareList.erase ws := by
    rw [(List.nodup_finRange 25).erase_eq_filter]
    refine List.filter_congr fun sq _ => ?_
    rw [bne, decide_not]
    rfl
  rw [htotal, Fin.sum_univ_def, Round.losing, hfilter, Nat.add_comm]
  exact List.sum_map_erase round.deployed (List.mem_finRange ws)

/-- What lies on the losing squares goes to the fees, to the vault and to the winners. -/
theorem Round.losing_split (round : Round) (ws : Square) :
    round.losingVaulted ws + round.losingShared ws + round.losingFees ws = round.losing ws := by
  simp only [Round.losingShared, Round.losingVaulted, Round.losingFees, adminFeeBps,
    solMotherlodeBps, denominatorBps]
  omega

/-- The two sides of the check are equal. -/
theorem Round.outflows (htotal : round.totalDeployed = ∑ sq, round.deployed sq) (ws : Square) :
    round.losingVaulted ws + round.losingShared ws + round.deployed ws + round.losingFees ws =
      round.totalDeployed := by
  have hsplit := round.losing_split ws
  have hadd := Round.losing_add htotal ws
  omega

theorem Round.splitWinnings_ok (htotal : round.totalDeployed = ∑ sq, round.deployed sq)
    (hT : round.totalDeployed * 150 < u64Bound) (ws : Square) :
    splitWinnings round ws =
      .ok (round.losingShared ws, round.losingVaulted ws, round.losingFees ws) := by
  have hadd := Round.losing_add htotal ws
  have hsum : ((squareList.filter (· ≠ ws)).map round.deployed).sum < u64Bound := by
    show round.losing ws < u64Bound
    omega
  have hmul : round.losing ws * (adminFeeBps + solMotherlodeBps) < u64Bound := by
    simp only [adminFeeBps, solMotherlodeBps]
    omega
  have hfees : round.losingFees ws ≤ round.losing ws := by
    have := round.losing_split ws
    omega
  have hvault : round.losingVaulted ws ≤ round.losing ws - round.losingFees ws :=
    Nat.div_le_self _ _
  rw [splitWinnings, Round.calculateTotalWinnings, sumU64_of_lt hsum, ok_bind]
  show (mulU64 _ (round.losing ws) _ >>= _) = _
  rw [mulU64_of_lt hmul, ok_bind]
  show (subU64 _ (round.losing ws) (round.losingFees ws) >>= _) = _
  rw [subU64_of_le hfees, ok_bind]
  show (subU64 _ _ (round.losingVaulted ws) >>= _) = _
  rw [subU64_of_le hvault, ok_bind]
  rfl

theorem Round.checkOutflows_ok (htotal : round.totalDeployed = ∑ sq, round.deployed sq)
    (hT : round.totalDeployed * 150 < u64Bound) (ws : Square) :
    checkOutflows { round with
      totalWinnings := round.losingShared ws
      totalVaulted := round.losingVaulted ws } ws (round.losingFees ws) = .ok () := by
  have hout := Round.outflows htotal ws
  simp only [checkOutflows]
  rw [addU64_of_lt (by omega), ok_bind, addU64_of_lt (by omega), ok_bind,
    addU64_of_lt (by omega), ok_bind, require, if_pos hout.le]

end Round

/-! ## The two resets agree -/

/-- The totals of the program have room for `n` more lamports. -/
structure State.RoomFor (s : State) (n : ℕ) : Prop where
  treasury : s.treasury.balance + n < u64Bound
  solMotherlode : s.solMotherlode.amount + n < u64Bound

section Settle

variable {round : Round} {u : State} {clock : Clock} {env : Env} {variant : ResetVariant}
  {a : ResetAccounts}

theorem Round.fees_le (round : Round) :
    round.adminFee + round.motherlodeFee ≤ round.totalDeployed := by
  simp only [Round.adminFee, Round.motherlodeFee, adminFeeBps, solMotherlodeBps, denominatorBps]
  omega

theorem resetVault_exact (hroom : u.RoomFor round.totalDeployed) (ws : Square) :
    resetVault clock variant a round ws round.adminFee round.motherlodeFee u =
      resetVaultExactly clock variant a round ws round.adminFee round.motherlodeFee u := by
  have hfees := round.fees_le
  have htreasury := hroom.treasury
  have hmotherlode := hroom.solMotherlode
  simp only [resetVault, resetVaultExactly]
  rw [subU64_of_le (by omega), ok_bind, subU64_of_le (by omega), ok_bind,
    addU64_of_lt (by omega), ok_bind, addU64_of_lt (by omega), ok_bind]

theorem resetWinners_exact (htotal : round.totalDeployed = ∑ sq, round.deployed sq)
    (hT : round.totalDeployed * 150 < u64Bound) (hroom : u.RoomFor round.totalDeployed)
    (r : BitVec 64) (ws : Square) :
    resetWinners clock env variant a round r ws round.adminFee round.motherlodeFee u =
      resetWinnersExactly clock env variant a round r ws round.adminFee round.motherlodeFee u := by
  have hfees := round.fees_le
  have hout := Round.outflows htotal ws
  have htreasury := hroom.treasury
  have hmotherlode := hroom.solMotherlode
  unfold resetWinners resetWinnersExactly
  rw [Round.splitWinnings_ok htotal hT, ok_bind]
  dsimp only
  rw [addU64_of_lt (by omega), ok_bind, Round.checkOutflows_ok htotal hT ws, ok_bind]
  refine bind_congr fun amounts => bind_congr fun topMiner => bind_congr fun motherlode => ?_
  -- Minting and paying leave the SOL motherlode alone.
  refine (mintRound_spec env a _ _).bind_congr ?_
  rintro _ ⟨rfl, -⟩
  refine (send_paid _ _ _ _).bind_congr ?_
  rintro _ ⟨l, rfl, -⟩
  dsimp only
  rw [addU64_of_lt (by omega), ok_bind]

theorem settleRound_exact (htotal : round.totalDeployed = ∑ sq, round.deployed sq)
    (hT : round.totalDeployed * 150 < u64Bound) (hroom : u.RoomFor round.totalDeployed) :
    settleRound clock env variant a round u = settleExactly clock env variant a round u := by
  unfold settleRound settleExactly
  cases round.rng with
  | none => rfl
  | some r =>
    have hadmin : round.totalDeployed * adminFeeBps < u64Bound := by
      rw [adminFeeBps]
      omega
    have hmotherlode : round.totalDeployed * solMotherlodeBps < u64Bound := by
      rw [solMotherlodeBps]
      omega
    dsimp only
    rw [mulU64_of_lt hadmin, ok_bind, mulU64_of_lt hmotherlode, ok_bind]
    by_cases hzero : round.deployed (Round.winningSquare r) = 0
    · rw [if_pos hzero, if_pos hzero]
      exact resetVault_exact hroom _
    · rw [if_neg hzero, if_neg hzero]
      exact resetWinners_exact htotal hT hroom r _

/-- What a reset sends out and what the winners share was deployed. -/
theorem State.verdict_sent_add_le (htotal : round.totalDeployed = ∑ sq, round.deployed sq)
    (hwinnings : round.totalWinnings = 0) (topMiner : Pubkey) :
    (u.verdict round topMiner).sent + (u.verdict round topMiner).round.totalWinnings ≤
      round.totalDeployed := by
  have hfees := round.fees_le
  unfold State.verdict
  split
  · simp [Verdict.sent, State.refundVerdict]
  · next r hrng =>
    split
    · simp only [Verdict.sent, State.vaultVerdict, hwinnings]
      omega
    · have hout := Round.outflows htotal (Round.winningSquare r)
      have hadd := Round.losing_add htotal (Round.winningSquare r)
      have hwinners :
          (u.winnersVerdict round topMiner r (Round.winningSquare r)).round.totalWinnings =
            round.losingShared (Round.winningSquare r) := by
        simp only [State.winnersVerdict, payMotherlode]
        split <;> rfl
      rw [hwinners]
      simp only [Verdict.sent, State.winnersVerdict, Round.adminFee, Round.motherlodeFee]
      simp only [Round.losingFees] at hout
      simp only [adminFeeBps, solMotherlodeBps, denominatorBps] at hout ⊢
      omega

end Settle

/-! ## The current round -/

/-- The winnings of the current round are not known yet. -/
def State.NoWinnings (s : State) : Prop :=
  ∀ round, s.rounds.get (.roundPda s.board.roundId) = some round → round.totalWinnings = 0

section Current

variable {env : Env} {allowed : GodlInstruction → Prop} {s s' t : State} {l : Label} {h : History}

theorem State.NoWinnings.kept (hs : s.NoWinnings) (hboard : s'.board.roundId = s.board.roundId)
    (hround : s'.rounds.get (.roundPda s.board.roundId) =
      s.rounds.get (.roundPda s.board.roundId)) : s'.NoWinnings := by
  intro round hget
  rw [hboard, hround] at hget
  exact hs round hget

/-- **Only a reset computes winnings**, and it opens a round without any. -/
theorem State.NoWinnings.step (hs : s.NoWinnings) (h : GameStep s s' l) : s'.NoWinnings := by
  cases h with
  | still hkind hsame => exact hs.kept (by rw [hsame.board]) (by rw [hsame.rounds])
  | checkpoint hkind hcheckpointed =>
    obtain ⟨hboard, hround⟩ := hcheckpointed.current
    exact hs.kept (by rw [hboard]) hround
  | deploy hkind hdeployed =>
    obtain ⟨_, round, round', _, _, wager, _, _, hwagered, -⟩ := hdeployed
    intro round₁ hget
    rw [hwagered.roundId, hwagered.getRound_after] at hget
    obtain rfl := Option.some.inj hget
    rw [hwagered.frame]
    exact hs round hwagered.getRound
  | reset hkind hreset =>
    intro round₁ hget
    rw [hreset.board, hreset.roundsAfter, if_neg (by simp), if_pos rfl] at hget
    obtain rfl := Option.some.inj hget
    rfl
  | close hkind hclosed =>
    have hpast := hclosed.past
    refine hs.kept (by rw [hclosed.board]) ?_
    rw [hclosed.rounds, Store.get_erase, if_neg]
    simp only [Pubkey.roundPda.injEq]
    omega

theorem State.NoWinnings.run (hs : s.NoWinnings) (hsetup : s.opened .treasury = true)
    (hrun : Run (Step env allowed) s h t) : t.NoWinnings := by
  refine (hrun.invariant (P := fun u => u.opened .treasury = true ∧ u.NoWinnings)
    ⟨hsetup, hs⟩ fun u l u' hu hstep => ?_).2
  exact ⟨hstep.effect.opened hu.1 hu.1, hu.2.step (hstep.effect.game hu.1)⟩

/-- No two accounts hold more lamports than fit into a word: there are not that many. -/
def State.SupplyFits (s : State) : Prop :=
  ∀ j k, j ≠ k → s.lamports j + s.lamports k < u64Bound

theorem checkResetAccounts_opened (clock : Clock) (variant : ResetVariant) (a : ResetAccounts)
    (s : State) : Ensures (checkResetAccounts clock variant a s) fun _ =>
      s.opened .treasury = true ∧ s.opened .solMotherlode = true := by
  cases variant
  all_goals
    simp only [checkResetAccounts, ensures_bind, ensures_require, ensures_fromOption,
      ensures_addU64, ensures_pure]
    intros
    exact ⟨(‹_ ∧ s.opened .treasury = true›).2, (‹_ ∧ s.opened .solMotherlode = true›).2⟩

/-- The totals of the program have room for what was deployed in the current round. -/
theorem State.SolBacked.roomFor (hs : s.SolBacked) (hsupply : s.SupplyFits) {round : Round}
    (hround : s.rounds.get (.roundPda s.board.roundId) = some round)
    (htreasury : s.opened .treasury = true) (hmotherlode : s.opened .solMotherlode = true) :
    s.RoomFor round.totalDeployed := by
  have hheld := hs.round round hround
  constructor
  · have hbacked := hs.treasury htreasury
    have hfits := hsupply .treasuryPda (.roundPda s.board.roundId) (by simp)
    omega
  · have hbacked := hs.solMotherlode hmotherlode
    have hfits := hsupply .solMotherlodePda (.roundPda s.board.roundId) (by simp)
    omega

/-- **The reset computes with natural numbers.** -/
theorem resetBody_exact (hs : s.SolBacked) (hsupply : s.SupplyFits) {round : Round}
    (hround : s.rounds.get (.roundPda s.board.roundId) = some round)
    (htotal : round.totalDeployed = ∑ sq, round.deployed sq)
    (hT : round.totalDeployed * 150 < u64Bound) (clock : Clock) (variant : ResetVariant)
    (a : ResetAccounts) (vars : Pubkey → Option Var) :
    resetBody clock env variant a { s with vars := vars } =
      resetExactly clock env variant a { s with vars := vars } := by
  unfold resetBody resetExactly
  refine ((checkResetAccounts_spec _ _ _ _).and
    (checkResetAccounts_opened _ _ _ _)).bind_congr fun round' hchecked => ?_
  obtain ⟨hchecked, htreasury, hmotherlode⟩ := hchecked
  have hsame : round' = round := by
    have hkey : a.roundInfo.key = .roundPda s.board.roundId := by
      rw [← (hchecked.roundId : round'.id = s.board.roundId)]
      exact (s.rounds.key_of_get _ _ hchecked.getRound).symm
    have hget : s.rounds.get a.roundInfo.key = some round' := hchecked.getRound
    rw [hkey, hround] at hget
    exact (Option.some.inj hget).symm
  subst hsame
  refine (openNextRound_spec hchecked).bind_congr ?_
  rintro _ ⟨l, rfl, -⟩
  refine bind_congr fun value => settleRound_exact htotal hT ?_
  have hroom := hs.roomFor hsupply hround htreasury hmotherlode
  exact ⟨hroom.treasury, hroom.solMotherlode⟩

end Current

/-- **The arithmetic of a reset never aborts a round**, in every state that a run from a fresh
round reaches, for every entropy value and in both variants: the reset does what it would do
with natural numbers and without its check; the two sides of the check are equal; and what it
sends out, together with what the winners share, was deployed. -/
theorem reset_arithmetic {env : Env} {allowed : GodlInstruction → Prop} {s t : State}
    {h : History} (hfresh : s.FreshRound) (hwinnings : s.NoWinnings) (hbacked : s.SolBacked)
    (hrun : Run (Step env allowed) s h t) :
    ∃ round, t.rounds.get (.roundPda t.board.roundId) = some round ∧
      (∀ ws, round.losingVaulted ws + round.losingShared ws + round.deployed ws +
        round.losingFees ws = round.totalDeployed) ∧
      (round.totalDeployed * 150 < u64Bound →
        (∀ ws, splitWinnings round ws =
            .ok (round.losingShared ws, round.losingVaulted ws, round.losingFees ws) ∧
          checkOutflows { round with
            totalWinnings := round.losingShared ws
            totalVaulted := round.losingVaulted ws } ws (round.losingFees ws) = .ok ()) ∧
        (t.SupplyFits → ∀ clock variant a vars,
          resetBody clock env variant a { t with vars := vars } =
            resetExactly clock env variant a { t with vars := vars })) ∧
      ∀ clock variant a vars t' round',
        resetBody clock env variant a { t with vars := vars } = .ok t' →
        t'.rounds.get (.roundPda t.board.roundId) = some round' →
        t.lamports (.roundPda t.board.roundId) + round'.totalWinnings ≤
          t'.lamports (.roundPda t.board.roundId) + round.totalDeployed := by
  obtain ⟨round, hround, htiled⟩ := (hfresh.tiled.run hrun).current
  have hbacked' := hrun.invariant (P := State.SolBacked) hbacked fun _ _ _ hu hstep =>
    hu.step hstep
  have hnone := hwinnings.run hfresh.setup hrun round hround
  refine ⟨round, hround, Round.outflows htiled.total, fun hT => ⟨fun ws => ?_,
    fun hsupply clock variant a vars => ?_⟩, fun clock variant a vars t' round' hok hget => ?_⟩
  · exact ⟨Round.splitWinnings_ok htiled.total hT ws, Round.checkOutflows_ok htiled.total hT ws⟩
  · exact resetBody_exact hbacked' hsupply hround htiled.total hT clock variant a vars
  · obtain ⟨round₁, value, topMiner, hreset⟩ :=
      (resetBody_spec clock env variant a { t with vars := vars }).elim hok
    obtain rfl : round₁ = round := Option.some.inj (hreset.getRound.symm.trans hround)
    have hafter : t'.rounds.get (.roundPda t.board.roundId) = _ :=
      (hreset.roundsAfter t.board.roundId).trans (if_pos rfl)
    obtain rfl := Option.some.inj (hafter.symm.trans hget)
    have hlamports := hreset.lamports (.roundPda t.board.roundId) ⟨_, rfl⟩
    rw [if_pos rfl] at hlamports
    have hsent := @State.verdict_sent_add_le { round₁ with slotHash := value }
      { t with vars := vars } htiled.total hnone topMiner
    dsimp only at hlamports hsent ⊢
    omega

/-- A rich table is a fresh round. -/
theorem freshRound_richTable (value : Hash) : (State.richTable value).FreshRound :=
  ⟨rfl, ⟨_, State.table_round 1 value, rfl, fun _ => rfl, rfl⟩, fun _ _ => rfl⟩

theorem noWinnings_richTable (value : Hash) : (State.richTable value).NoWinnings := by
  intro round hget
  obtain rfl := Option.some.inj ((State.table_round 1 value).symm.trans hget)
  rfl

/-- Two players deploy 2500 lamports, of which the check of the reset accounts for all, and
nobody can make the reset of the untouched table overflow. -/
theorem reset_arithmetic_two :
    (∃ (h : History) (t : State),
      Run (Step .plain anyInstruction) (State.richTable 25#256) h t ∧
      ∃ round, t.rounds.get (.roundPda t.board.roundId) = some round ∧
        round.totalDeployed = 2500 ∧
        ∀ ws, splitWinnings round ws =
            .ok (round.losingShared ws, round.losingVaulted ws, round.losingFees ws) ∧
          round.losingVaulted ws + round.losingShared ws + round.deployed ws +
            round.losingFees ws = 2500) ∧
    ∀ clock variant a vars,
      resetBody clock .plain variant a { State.richTable 25#256 with vars := vars } =
        resetExactly clock .plain variant a { State.richTable 25#256 with vars := vars } := by
  constructor
  · obtain ⟨h, t, hrun, -, hP⟩ := exists_run_of_perform .plain anyInstruction
      (State.richTable 25#256) [openingBet, .deploy 11 8 1 500 1 true 25#256]
      (fun t => (t.rounds.get (.roundPda t.board.roundId)).all fun r => r.totalDeployed = 2500)
      (fun _ _ => trivial) (by decide +kernel)
    obtain ⟨round, hround, hsum, hfits, -⟩ := reset_arithmetic (freshRound_richTable _)
      (noWinnings_richTable _) (solBacked_richTable _) hrun
    have h2500 : round.totalDeployed = 2500 := by
      rw [hround] at hP
      simpa using hP
    obtain ⟨hsplit, -⟩ := hfits (by rw [h2500]; decide)
    exact ⟨h, t, hrun, round, hround, h2500, fun ws => ⟨(hsplit ws).1, h2500 ▸ hsum ws⟩⟩
  · have hempty : Run (Step .plain anyInstruction) (State.richTable 25#256) []
        (State.richTable 25#256) := .start
    obtain ⟨round, hround, -, hfits, -⟩ := reset_arithmetic (freshRound_richTable _)
      (noWinnings_richTable _) (solBacked_richTable _) hempty
    have hzero : round.totalDeployed = 0 := by
      have hget : (State.richTable 25#256).rounds.get (.roundPda 1) = some round := hround
      rw [show (State.richTable 25#256).rounds.get (.roundPda 1) =
        some (Round.fresh 1 (.key 3)) from Store.get_put_self ..] at hget
      rw [← Option.some.inj hget]
      rfl
    refine (hfits (by rw [hzero]; decide)).2 fun j k _ => ?_
    show 10 ^ 12 + 10 ^ 12 < u64Bound
    decide

end Godl
