import Godl.Program.Reset
import Godl.Proof.Frames

/-!
# Resets

What a reset decides is a function of the state, of the entropy value and of the latched
top miner.  This module defines that function, the verdict, and shows that both reset
instructions carry it out.

## Main definitions

* `State.verdict` — what a reset decides.
* `Reset` — what a reset does to the state.
-/

namespace Godl

open Lib

/-- What a reset decides about a round: the round and the totals afterwards, the GODL it
mints, and the lamports that it sends out of the round. -/
structure Verdict where
  round : Round
  treasury : Treasury
  solMotherlode : SolMotherlode
  minted : ℕ
  adminFee : ℕ
  motherlodeFee : ℕ
  vaulted : ℕ

/-- All lamports that leave the round. -/
def Verdict.sent (v : Verdict) : ℕ := v.adminFee + v.motherlodeFee + v.vaulted

/-- What an account gets of the admin fee. -/
def adminGain (variant : ResetVariant) (a : ResetAccounts) (fee : ℕ) (k : Pubkey) : ℕ :=
  match variant with
  | .lenient => if k = a.feeCollectorInfo.key then fee else 0
  | .permissionless =>
      (if k = a.feeCollectorInfo.key then fee - min crankRewardLamports fee else 0) +
        if k = a.signerInfo.key then min crankRewardLamports fee else 0

/-- What an account gets of the lamports that leave the round. -/
def Verdict.gain (v : Verdict) (variant : ResetVariant) (a : ResetAccounts) (k : Pubkey) : ℕ :=
  adminGain variant a v.adminFee k + (if k = a.solMotherlodeInfo.key then v.motherlodeFee else 0) +
    if k = a.treasuryInfo.key then v.vaulted else 0

/-- What lies on the losing squares. -/
def Round.losing (r : Round) (ws : Square) : ℕ :=
  ((squareList.filter (· ≠ ws)).map r.deployed).sum

/-- The fees on what lies on the losing squares. -/
def Round.losingFees (r : Round) (ws : Square) : ℕ :=
  r.losing ws * (adminFeeBps + solMotherlodeBps) / denominatorBps

/-- A tenth of the rest is vaulted. -/
def Round.losingVaulted (r : Round) (ws : Square) : ℕ := (r.losing ws - r.losingFees ws) / 10

/-- What the winners share. -/
def Round.losingShared (r : Round) (ws : Square) : ℕ :=
  r.losing ws - r.losingFees ws - r.losingVaulted ws

/-- The admin's fee on the whole round. -/
def Round.adminFee (r : Round) : ℕ := r.totalDeployed * adminFeeBps / denominatorBps

/-- The SOL motherlode's fee on the whole round. -/
def Round.motherlodeFee (r : Round) : ℕ := r.totalDeployed * solMotherlodeBps / denominatorBps

namespace State

/-- The GODL minted for the winners. -/
def blockMint (s : State) : ℕ := min (maxSupply - s.mintSupply) s.config.godlPerRound

/-- The GODL minted for the motherlode. -/
def motherlodeMint (s : State) : ℕ :=
  min (maxSupply - (s.mintSupply + s.blockMint))
    (s.config.godlPerRound / s.config.motherlodeDenominator)

/-- The verdict when there are winners. -/
def winnersVerdict (s : State) (round : Round) (topMiner : Pubkey) (r : BitVec 64)
    (ws : Square) : Verdict :=
  let treasury := { s.treasury with balance := s.treasury.balance + round.losingVaulted ws }
  let paid := payMotherlode r { round with
      totalWinnings := round.losingShared ws
      totalVaulted := round.losingVaulted ws
      topMinerReward := s.blockMint
      topMiner := topMiner } treasury
  { round := paid.1
    treasury := { paid.2 with motherlode := paid.2.motherlode + s.motherlodeMint }
    solMotherlode := ⟨s.solMotherlode.amount + round.motherlodeFee⟩
    minted := s.blockMint + s.motherlodeMint
    adminFee := round.adminFee
    motherlodeFee := round.motherlodeFee
    vaulted := round.losingVaulted ws }

/-- The verdict when nobody deployed on the winning square. -/
def vaultVerdict (s : State) (round : Round) : Verdict :=
  let vaulted := round.totalDeployed - round.adminFee - round.motherlodeFee
  { round := { round with totalVaulted := vaulted }
    treasury := { s.treasury with balance := s.treasury.balance + vaulted }
    solMotherlode := ⟨s.solMotherlode.amount + round.motherlodeFee⟩
    minted := 0
    adminFee := round.adminFee
    motherlodeFee := round.motherlodeFee
    vaulted := vaulted }

/-- The verdict when there is no random number. -/
def refundVerdict (s : State) (round : Round) : Verdict where
  round := { round with totalVaulted := 0, totalWinnings := 0, totalDeployed := 0 }
  treasury := s.treasury
  solMotherlode := s.solMotherlode
  minted := 0
  adminFee := 0
  motherlodeFee := 0
  vaulted := 0

/-- What a reset decides about a round with its hash. -/
def verdict (s : State) (round : Round) (topMiner : Pubkey) : Verdict :=
  match round.rng with
  | none => s.refundVerdict round
  | some r =>
      if round.deployed (Round.winningSquare r) = 0 then s.vaultVerdict round
      else s.winnersVerdict round topMiner r (Round.winningSquare r)

/-- What a reset logs. -/
def resetEvent (s : State) (clock : Clock) (round : Round) (topMiner : Pubkey) : Event :=
  match round.rng with
  | none => .reset round.id s.board.startSlot s.board.endSlot u64Max Pubkey.default 0 0 0 0 0 0
      clock.unixTimestamp
  | some r =>
      let v := s.verdict round topMiner
      let ws := Round.winningSquare r
      if round.deployed ws = 0 then
        .reset round.id s.board.startSlot s.board.endSlot ws.val Pubkey.default 0 0
          round.totalDeployed v.round.totalVaulted round.totalWinnings 0 clock.unixTimestamp
      else
        .reset v.round.id s.board.startSlot s.board.endSlot ws.val v.round.topMiner
          (v.round.count ws) v.round.motherlode v.round.totalDeployed v.round.totalVaulted
          v.round.totalWinnings v.minted clock.unixTimestamp

/-- The tokens after minting into an account. -/
def mintedTo (s : State) (dest : Pubkey) (n : ℕ) : Pubkey → Option ℕ :=
  fun k => if k = dest then (s.tokens k).map (· + n) else s.tokens k

end State

/-- `n` lamports left `source`, and the accounts gained what `gain` says. -/
def PaidOut (l l' : Pubkey → ℕ) (source : Pubkey) (n : ℕ) (gain : Pubkey → ℕ) : Prop :=
  ∀ k, l' k + (if k = source then n else 0) = l k + gain k

/-- What the accounts of the next round cost. -/
def State.nextRent (s : State) : ℕ :=
  (minimumBalance roundSize - s.lamports (.roundPda (s.board.roundId + 1))) +
    (minimumBalance poolRoundSize - s.lamports (.poolRoundPda (s.board.roundId + 1)))

/-- A reset of the round whose hash turned out to be `value`. -/
structure Reset (clock : Clock) (variant : ResetVariant) (a : ResetAccounts) (s s' : State)
    (round : Round) (value : Hash) (topMiner : Pubkey) : Prop where
  signer : a.signerInfo.isSigner = true
  late : saturatingAddU64 s.board.endSlot s.config.getIntermissionSlots ≤ clock.slot
  getRound : s.rounds.get (.roundPda s.board.roundId) = some round
  nextRound : s.rounds.get (.roundPda (s.board.roundId + 1)) = none
  nextPool : s.poolRounds.get (.poolRoundPda (s.board.roundId + 1)) = none
  entropy : ∃ var, s.vars s.config.varAddress = some var ∧ var.value = value
  value_ne : value ≠ 0
  latch : ∀ r, ({ round with slotHash := value } : Round).rng = some r →
    round.deployed (Round.winningSquare r) ≠ 0 →
    ∃ s₁ : State, s₁.miners = s.miners ∧ s₁.poolMembers = s.poolMembers ∧
      latchTopMiner variant a { round with
          slotHash := value
          totalWinnings := round.losingShared (Round.winningSquare r)
          totalVaulted := round.losingVaulted (Round.winningSquare r) } r
        (Round.winningSquare r) s₁ = .ok topMiner
  board : s'.board = ⟨s.board.roundId + 1, clock.slot, u64Max⟩
  rounds : s'.rounds =
    (s.rounds.put (Round.fresh (s.board.roundId + 1) a.signerInfo.key)).put
      (s.verdict { round with slotHash := value } topMiner).round
  poolRounds : s'.poolRounds =
    s.poolRounds.put (PoolRound.fresh (s.board.roundId + 1) a.signerInfo.key)
  treasury : s'.treasury = (s.verdict { round with slotHash := value } topMiner).treasury
  solMotherlode : s'.solMotherlode =
    (s.verdict { round with slotHash := value } topMiner).solMotherlode
  after : ∃ l, s' = { s with
    rounds := (s.rounds.put (Round.fresh (s.board.roundId + 1) a.signerInfo.key)).put
      (s.verdict { round with slotHash := value } topMiner).round
    poolRounds := s.poolRounds.put (PoolRound.fresh (s.board.roundId + 1) a.signerInfo.key)
    treasury := (s.verdict { round with slotHash := value } topMiner).treasury
    solMotherlode := (s.verdict { round with slotHash := value } topMiner).solMotherlode
    board := ⟨s.board.roundId + 1, clock.slot, u64Max⟩
    lamports := l
    tokens := s.mintedTo treasuryTokensAddress
      (s.verdict { round with slotHash := value } topMiner).minted
    mintSupply := s.mintSupply + (s.verdict { round with slotHash := value } topMiner).minted
    events := s.resetEvent clock { round with slotHash := value } topMiner :: s.events }
  collector : a.feeCollectorInfo.key = s.config.feeCollector
  motherlodeKey : a.solMotherlodeInfo.key = .solMotherlodePda
  treasuryKey : a.treasuryInfo.key = .treasuryPda
  rent : s.nextRent ≤ s.lamports a.signerInfo.key
  balance : ∀ j, s'.lamports j +
      (if j = .roundPda s.board.roundId then
        (s.verdict { round with slotHash := value } topMiner).sent else 0) +
      (if j = a.signerInfo.key then s.nextRent else 0) =
    s.lamports j +
      (if j = .roundPda (s.board.roundId + 1) then
        minimumBalance roundSize - s.lamports (.roundPda (s.board.roundId + 1)) else 0) +
      (if j = .poolRoundPda (s.board.roundId + 1) then
        minimumBalance poolRoundSize - s.lamports (.poolRoundPda (s.board.roundId + 1)) else 0) +
      (s.verdict { round with slotHash := value } topMiner).gain variant a j
  lamports : ∀ j, IsRound j → s.lamports j ≤ s'.lamports j +
    if j = .roundPda s.board.roundId then
      (s.verdict { round with slotHash := value } topMiner).sent else 0
  nextRent : minimumBalance roundSize ≤ s'.lamports (.roundPda (s.board.roundId + 1))
  tokens : ∀ k, balances s'.tokens k = balances s.tokens k + if k = treasuryTokensAddress then
    (s.verdict { round with slotHash := value } topMiner).minted else 0
  opened : s'.opened = s.opened
  miners : s'.miners = s.miners
  poolMembers : s'.poolMembers = s.poolMembers
  minersExtended : s'.minersExtended = s.minersExtended
  goldVault : s'.goldVault = s.goldVault
  stakes : s'.stakes = s.stakes
  stakesV2 : s'.stakesV2 = s.stakesV2

/-! ## Paying out of the round -/

section Paying

variable {l l' l'' : Pubkey → ℕ} {source dest : Pubkey} {m n : ℕ} {gain gain' : Pubkey → ℕ}

theorem PaidOut.refl (l : Pubkey → ℕ) (source : Pubkey) : PaidOut l l source 0 fun _ => 0 := by
  intro k
  rw [ite_self]

theorem PaidOut.trans (h : PaidOut l l' source m gain) (h' : PaidOut l' l'' source n gain') :
    PaidOut l l'' source (m + n) fun k => gain k + gain' k := by
  intro k
  have hk := h k
  have hk' := h' k
  by_cases hs : k = source
  · simp only [if_pos hs] at hk hk' ⊢
    omega
  · simp only [if_neg hs] at hk hk' ⊢
    omega

theorem PaidOut.congr (h : PaidOut l l' source m gain) (hn : m = n)
    (hgain : ∀ k, gain k = gain' k) : PaidOut l l' source n gain' := by
  intro k
  rw [← hn, ← hgain]
  exact h k

/-- No other account loses anything. -/
theorem PaidOut.drop (h : PaidOut l l' source n gain) (k : Pubkey) :
    l k ≤ l' k + if k = source then n else 0 := by
  have hk := h k
  omega

theorem Moved.paidOut (h : Moved l l' source dest n) :
    PaidOut l l' source n fun k => if k = dest then n else 0 := h.balance

end Paying

/-- Lamports are sent out of the round. -/
theorem send_paid (s : State) (source dest : Pubkey) (n : ℕ) :
    Ensures (s.send source dest n) fun s' =>
      ∃ l, s' = { s with lamports := l } ∧
        PaidOut s.lamports l source n fun k => if k = dest then n else 0 := by
  refine Ensures.mono (State.send_spec s source dest n) ?_
  rintro s' ⟨l, rfl, hl⟩
  exact ⟨l, rfl, hl.paidOut⟩

/-- The admin fee leaves the round, whoever gets it. -/
theorem payAdminFee_spec (variant : ResetVariant) (a : ResetAccounts) (fee : ℕ) (s : State) :
    Ensures (payAdminFee variant a fee s) fun s' =>
      ∃ l, s' = { s with lamports := l } ∧
        PaidOut s.lamports l a.roundInfo.key fee (adminGain variant a fee) := by
  cases variant with
  | lenient => exact send_paid s _ _ _
  | permissionless =>
    simp only [payAdminFee, ensures_bind]
    refine Ensures.mono (send_paid s _ _ _) ?_
    rintro _ ⟨l, rfl, hl⟩
    refine Ensures.mono (send_paid _ _ _ _) ?_
    rintro _ ⟨l', rfl, hl'⟩
    exact ⟨l', rfl, (hl.trans hl').congr (by omega) fun _ => rfl⟩

/-! ## The parts of the verdict -/

theorem splitWinnings_spec (round : Round) (ws : Square) :
    Ensures (splitWinnings round ws) fun p =>
      p = (round.losingShared ws, round.losingVaulted ws, round.losingFees ws) := by
  simp only [splitWinnings, Round.calculateTotalWinnings, ensures_bind, ensures_mulU64,
    ensures_subU64, ensures_pure]
  refine Ensures.mono (ensures_sumU64 _ _) ?_
  rintro n rfl _ _ _
  rfl

theorem checkOutflows_spec (round : Round) (ws : Square) (fees : ℕ) :
    Ensures (checkOutflows round ws fees) fun _ =>
      round.totalVaulted + round.totalWinnings + round.deployed ws + fees ≤
        round.totalDeployed := by
  simp only [checkOutflows, ensures_bind, ensures_addU64, ensures_require]
  exact fun _ _ _ h => h

theorem mintAmounts_spec (s : State) :
    Ensures (mintAmounts s) fun p => p = (s.blockMint, s.motherlodeMint) := by
  simp only [mintAmounts, ensures_bind, ensures_addU64, ensures_require, ensures_pure]
  exact fun _ _ _ => rfl

theorem State.mintedTo_zero (s : State) (dest : Pubkey) : s.mintedTo dest 0 = s.tokens := by
  funext k
  simp [State.mintedTo]

theorem State.balances_mintedTo (s : State) (dest : Pubkey) (n : ℕ)
    (h : n = 0 ∨ s.tokens dest ≠ none) (k : Pubkey) :
    balances (s.mintedTo dest n) k = balances s.tokens k + if k = dest then n else 0 := by
  by_cases hk : k = dest
  · subst hk
    simp only [balances, State.mintedTo, if_pos]
    cases hb : s.tokens k with
    | none =>
      rcases h with rfl | hne
      · simp
      · exact absurd hb hne
    | some b => simp
  · simp [balances, State.mintedTo, hk]

theorem mintRound_spec (env : Env) (a : ResetAccounts) (amount : ℕ) (s : State) :
    Ensures (mintRound env a amount s) fun s' =>
      s' = { s with
        tokens := s.mintedTo a.treasuryTokensInfo.key amount
        mintSupply := s.mintSupply + amount } ∧
      (amount = 0 ∨ s.tokens a.treasuryTokensInfo.key ≠ none) := by
  unfold mintRound
  split
  · split
    · simp only [State.mintGodl, ensures_bind, ensures_require, ensures_fromOption, ensures_pure]
      intro _ _ b hb
      refine ⟨?_, .inr (by rw [hb]; exact Option.some_ne_none b)⟩
      congr 1
      funext k
      by_cases hk : k = a.treasuryTokensInfo.key
      · rw [hk, Function.update_self, State.mintedTo, if_pos rfl, hb]
        rfl
      · rw [Function.update_of_ne hk, State.mintedTo, if_neg hk]
    · exact ensures_throw.2 trivial
  · next hzero =>
    have hamount := Nat.eq_zero_of_not_pos hzero
    rw [hamount, State.mintedTo_zero]
    exact ensures_pure.2 ⟨rfl, .inl rfl⟩

theorem advanceBoard_spec (clock : Clock) (s : State) :
    Ensures (advanceBoard clock s) fun s' =>
      s' = { s with board := ⟨s.board.roundId + 1, clock.slot, u64Max⟩ } := by
  simp only [advanceBoard, ensures_bind, ensures_addU64, ensures_pure]
  exact fun _ => trivial

/-! ## Settling the round -/

/-- What settling a round does: it carries out the verdict. -/
structure RoundSettled (clock : Clock) (variant : ResetVariant) (a : ResetAccounts) (s s' : State)
    (round : Round) (topMiner : Pubkey) : Prop where
  state : ∃ l, s' = { s with
      rounds := s.rounds.put (s.verdict round topMiner).round
      treasury := (s.verdict round topMiner).treasury
      solMotherlode := (s.verdict round topMiner).solMotherlode
      board := ⟨s.board.roundId + 1, clock.slot, u64Max⟩
      lamports := l
      tokens := s.mintedTo a.treasuryTokensInfo.key (s.verdict round topMiner).minted
      mintSupply := s.mintSupply + (s.verdict round topMiner).minted
      events := s.resetEvent clock round topMiner :: s.events } ∧
    PaidOut s.lamports l a.roundInfo.key (s.verdict round topMiner).sent
      ((s.verdict round topMiner).gain variant a)
  tokens : (s.verdict round topMiner).minted = 0 ∨ s.tokens a.treasuryTokensInfo.key ≠ none

section Settle

variable {clock : Clock} {variant : ResetVariant} {a : ResetAccounts} {s : State} {round : Round}

theorem resetRefund_spec (hrng : round.rng = none) (topMiner : Pubkey) :
    Ensures (resetRefund clock round s) fun s' =>
      RoundSettled clock variant a s s' round topMiner := by
  have hv : s.verdict round topMiner = s.refundVerdict round := by rw [State.verdict, hrng]
  have he : s.resetEvent clock round topMiner = .reset round.id s.board.startSlot s.board.endSlot
      u64Max Pubkey.default 0 0 0 0 0 0 clock.unixTimestamp := by rw [State.resetEvent, hrng]
  simp only [resetRefund]
  refine Ensures.mono (advanceBoard_spec clock _) ?_
  rintro _ rfl
  refine ⟨⟨s.lamports, ?_, ?_⟩, .inl (by rw [hv]; rfl)⟩
  · rw [hv, he, show (s.refundVerdict round).minted = 0 from rfl, State.mintedTo_zero]
    rfl
  · rw [hv]
    refine (PaidOut.refl _ _).congr rfl fun k => ?_
    cases variant <;> simp [Verdict.gain, adminGain, State.refundVerdict]

theorem resetVault_spec {r : BitVec 64} (hrng : round.rng = some r)
    (hzero : round.deployed (Round.winningSquare r) = 0) (topMiner : Pubkey) :
    Ensures (resetVault clock variant a round (Round.winningSquare r) round.adminFee
      round.motherlodeFee s) fun s' => RoundSettled clock variant a s s' round topMiner := by
  have hv : s.verdict round topMiner = s.vaultVerdict round := by
    rw [State.verdict, hrng]
    simp only [hzero, if_true]
  have he : s.resetEvent clock round topMiner = .reset round.id s.board.startSlot s.board.endSlot
      (Round.winningSquare r).val Pubkey.default 0 0 round.totalDeployed
      (s.vaultVerdict round).round.totalVaulted round.totalWinnings 0 clock.unixTimestamp := by
    rw [State.resetEvent, hrng]
    simp only [hzero, if_true, hv]
  simp only [resetVault, ensures_bind, ensures_subU64, ensures_addU64]
  intro _ _ _ _
  -- The states in between are kept as names; each is written out over `s` once.
  refine Ensures.mono (advanceBoard_spec clock _) fun s₁ hs₁ => ?_
  have hflat : s₁ = { s with
      rounds := s.rounds.put (s.vaultVerdict round).round
      treasury := (s.vaultVerdict round).treasury
      solMotherlode := (s.vaultVerdict round).solMotherlode
      board := ⟨s.board.roundId + 1, clock.slot, u64Max⟩
      events := s.resetEvent clock round topMiner :: s.events } := by
    rw [hs₁, he]
    rfl
  have hl : s₁.lamports = s.lamports := by rw [hflat]
  refine Ensures.mono (payAdminFee_spec variant a _ s₁) fun s₂ hl₁ => ?_
  obtain ⟨l₁, hs₂, hl₁⟩ := hl₁
  refine Ensures.mono (send_paid s₂ _ _ _) fun s₃ hl₂ => ?_
  obtain ⟨l₂, hs₃, hl₂⟩ := hl₂
  refine Ensures.mono (send_paid s₃ _ _ _) fun s₄ hl₃ => ?_
  obtain ⟨l₃, hs₄, hl₃⟩ := hl₃
  have hlast : s₄ = { s₁ with lamports := l₃ } := by rw [hs₄, hs₃, hs₂]
  rw [hl] at hl₁
  have hs₂l : s₂.lamports = l₁ := by rw [hs₂]
  have hs₃l : s₃.lamports = l₂ := by rw [hs₃]
  rw [hs₂l] at hl₂
  rw [hs₃l] at hl₃
  refine ⟨⟨l₃, ?_, ?_⟩, .inl (by rw [hv]; rfl)⟩
  · rw [hv, show (s.vaultVerdict round).minted = 0 from rfl, State.mintedTo_zero, hlast, hflat]
    rfl
  · rw [hv]
    exact ((hl₁.trans hl₂).trans hl₃).congr rfl fun _ => rfl

theorem resetWinners_spec {env : Env} {r : BitVec 64} (hrng : round.rng = some r)
    (hpos : round.deployed (Round.winningSquare r) ≠ 0) :
    Ensures (resetWinners clock env variant a round r (Round.winningSquare r) round.adminFee
      round.motherlodeFee s) fun s' => ∃ topMiner,
        RoundSettled clock variant a s s' round topMiner ∧
        latchTopMiner variant a { round with
          totalWinnings := round.losingShared (Round.winningSquare r)
          totalVaulted := round.losingVaulted (Round.winningSquare r) } r
          (Round.winningSquare r) s = .ok topMiner := by
  simp only [resetWinners, ensures_bind]
  refine Ensures.mono (splitWinnings_spec round _) ?_
  rintro _ rfl
  simp only [ensures_addU64]
  intro _
  refine Ensures.mono (checkOutflows_spec _ _ _) fun _ _ => ?_
  refine Ensures.mono (mintAmounts_spec s) ?_
  rintro _ rfl
  cases hlatch : latchTopMiner variant a { round with
          totalWinnings := round.losingShared (Round.winningSquare r)
          totalVaulted := round.losingVaulted (Round.winningSquare r) } r
          (Round.winningSquare r) s with
  | error e => exact ensures_error.2 trivial
  | ok topMiner =>
    have hv : s.verdict round topMiner =
        s.winnersVerdict round topMiner r (Round.winningSquare r) := by
      rw [State.verdict, hrng]
      simp only [hpos, if_false]
    set v := s.verdict round topMiner with hverdict
    have he : s.resetEvent clock round topMiner = .reset v.round.id s.board.startSlot
        s.board.endSlot (Round.winningSquare r).val v.round.topMiner
        (v.round.count (Round.winningSquare r)) v.round.motherlode v.round.totalDeployed
        v.round.totalVaulted v.round.totalWinnings v.minted clock.unixTimestamp := by
      rw [State.resetEvent, hrng]
      simp only [hpos, if_false, hverdict]
    rw [ensures_ok]
    intro _
    refine Ensures.mono (mintRound_spec env a _ _) fun s₁ htok => ?_
    obtain ⟨hs₁, htok⟩ := htok
    have hflat₁ : s₁ = { s with
        rounds := s.rounds.put v.round
        treasury := v.treasury
        tokens := s.mintedTo a.treasuryTokensInfo.key v.minted
        mintSupply := s.mintSupply + v.minted } := by
      rw [hv]
      exact hs₁
    refine Ensures.mono (send_paid s₁ _ _ _) fun s₂ hl₁ _ => ?_
    obtain ⟨l₁, hs₂, hl₁⟩ := hl₁
    refine Ensures.mono (advanceBoard_spec clock _) fun s₃ hs₃ => ?_
    have hflat₃ : s₃ = { s with
        rounds := s.rounds.put v.round
        treasury := v.treasury
        solMotherlode := v.solMotherlode
        board := ⟨s.board.roundId + 1, clock.slot, u64Max⟩
        lamports := l₁
        tokens := s.mintedTo a.treasuryTokensInfo.key v.minted
        mintSupply := s.mintSupply + v.minted
        events := s.resetEvent clock round topMiner :: s.events } := by
      rw [hs₃, hs₂, hflat₁, he, hv]
      rfl
    refine Ensures.mono (payAdminFee_spec variant a _ s₃) fun s₄ hl₂ => ?_
    obtain ⟨l₂, hs₄, hl₂⟩ := hl₂
    refine Ensures.mono (send_paid s₄ _ _ _) fun s₅ hl₃ => ?_
    obtain ⟨l₃, hs₅, hl₃⟩ := hl₃
    have hlast : s₅ = { s₃ with lamports := l₃ } := by rw [hs₅, hs₄]
    have hs₁l : s₁.lamports = s.lamports := by rw [hflat₁]
    have hs₃l : s₃.lamports = l₁ := by rw [hflat₃]
    have hs₄l : s₄.lamports = l₂ := by rw [hs₄]
    rw [hs₁l] at hl₁
    rw [hs₃l] at hl₂
    rw [hs₄l] at hl₃
    refine ⟨topMiner, ⟨⟨l₃, ?_, ?_⟩, by rw [← hverdict, hv]; exact htok⟩, rfl⟩
    · rw [hlast, hflat₃]
    · rw [← hverdict, hv]
      refine ((hl₁.trans hl₂).trans hl₃).congr ?_ fun k => ?_
      · exact congrArg (· + _) (Nat.add_comm _ _)
      · exact congrArg (· + _) (Nat.add_comm _ _)

/-- **Settling carries out the verdict**, with the top miner that was latched. -/
theorem settleRound_spec (env : Env) (variant : ResetVariant) (round : Round) (s : State) :
    Ensures (settleRound clock env variant a round s) fun s' =>
      ∃ topMiner, RoundSettled clock variant a s s' round topMiner ∧
        ∀ r, round.rng = some r → round.deployed (Round.winningSquare r) ≠ 0 →
          latchTopMiner variant a { round with
            totalWinnings := round.losingShared (Round.winningSquare r)
            totalVaulted := round.losingVaulted (Round.winningSquare r) } r
            (Round.winningSquare r) s = .ok topMiner := by
  unfold settleRound
  split
  · next hrng =>
    refine Ensures.mono (resetRefund_spec hrng Pubkey.default) fun s' h => ⟨_, h, fun r hr => ?_⟩
    rw [hrng] at hr
    cases hr
  · next r hrng =>
    simp only [ensures_bind, ensures_mulU64, ensures_ite]
    refine fun _ _ => ⟨fun hzero => ?_, fun hpos => ?_⟩
    · refine Ensures.mono (resetVault_spec hrng hzero Pubkey.default) fun s' h =>
        ⟨_, h, fun r' hr' hne => ?_⟩
      rw [hrng] at hr'
      cases hr'
      exact absurd hzero hne
    · refine Ensures.mono (resetWinners_spec hrng hpos) ?_
      rintro s' ⟨topMiner, h, hlatch⟩
      refine ⟨topMiner, h, fun r' hr' _ => ?_⟩
      rw [hrng] at hr'
      cases hr'
      exact hlatch

end Settle

/-! ## The instructions -/

section Body

variable {clock : Clock} {variant : ResetVariant} {a : ResetAccounts} {s : State} {round : Round}

/-- What the checks on the accounts of a reset establish. -/
structure ResetChecked (clock : Clock) (a : ResetAccounts) (s : State) (round : Round) :
    Prop where
  signer : a.signerInfo.isSigner = true
  late : saturatingAddU64 s.board.endSlot s.config.getIntermissionSlots ≤ clock.slot
  getRound : s.rounds.get a.roundInfo.key = some round
  roundId : round.id = s.board.roundId
  nextRound : NoData s a.roundNextInfo.key
  nextRoundKey : a.roundNextInfo.key = .roundPda (s.board.roundId + 1)
  nextPool : NoData s a.poolRoundNextInfo.key
  nextPoolKey : a.poolRoundNextInfo.key = .poolRoundPda (s.board.roundId + 1)
  treasuryTokens : a.treasuryTokensInfo.key = treasuryTokensAddress
  collector : a.feeCollectorInfo.key = s.config.feeCollector
  motherlode : a.solMotherlodeInfo.key = .solMotherlodePda
  treasury : a.treasuryInfo.key = .treasuryPda

theorem checkResetAccounts_spec (clock : Clock) (variant : ResetVariant) (a : ResetAccounts)
    (s : State) : Ensures (checkResetAccounts clock variant a s) (ResetChecked clock a s) := by
  have hrest : a.signerInfo.isSigner = true → Ensures (do
      s.asConfig a.configInfo
      s.asSingleton .board a.boardInfo
      require (saturatingAddU64 s.board.endSlot s.config.getIntermissionSlots ≤ clock.slot)
        .invalidAccountData
      checkWritable a.feeCollectorInfo
      checkAddress a.feeCollectorInfo s.config.feeCollector
      let round ← s.load s.rounds a.roundInfo.key
      require (round.id = s.board.roundId) .invalidAccountData
      let nextId ← addU64 overflow s.board.roundId 1
      s.checkEmpty a.roundNextInfo
      checkWritable a.roundNextInfo
      checkSeeds a.roundNextInfo (.roundPda nextId)
      s.checkEmpty a.poolRoundNextInfo
      checkWritable a.poolRoundNextInfo
      checkSeeds a.poolRoundNextInfo (.poolRoundPda nextId)
      checkAddress a.mintInfo mintAddress
      checkWritable a.solMotherlodeInfo
      checkSeeds a.solMotherlodeInfo .solMotherlodePda
      s.asSingleton .solMotherlode a.solMotherlodeInfo
      checkWritable a.rushSolVaultInfo
      checkAddress a.rushSolVaultInfo rushSolVault
      s.asSingleton .treasury a.treasuryInfo
      let _ ← s.asAssociatedTokenAccount a.treasuryTokensInfo a.treasuryInfo.key a.mintInfo.key
      checkProgram a.systemProgram systemProgramId
      checkProgram a.tokenProgram splTokenId
      checkProgram a.godlProgram godlApiId
      checkAddress a.slotHashesSysvar slotHashesId
      return round : Result Round) (ResetChecked clock a s) := by
    simp only [ensures_bind, ensures_require, ensures_fromOption, ensures_addU64, ensures_pure]
    intro hsigner _ _ hlate _ hcollector round hround hid _ hempty _ hnext hpoolEmpty _ hpoolNext
      hmint _ hmotherlode _ _ _ htreasury htokens _ _ _ _ _ _
    refine ⟨hsigner, hlate, hround, hid, State.noData hempty, hnext, State.noData hpoolEmpty,
      hpoolNext, ?_, hcollector, hmotherlode, htreasury.1⟩
    rw [htokens, htreasury.1, hmint]
    rfl
  simp only [checkResetAccounts, ensures_bind, ensures_require] at hrest ⊢
  intro hsigner
  cases variant with
  | lenient =>
    simp only [ensures_bind, ensures_require]
    exact fun _ => hrest hsigner
  | permissionless => simpa only [ensures_bind, ensures_require, ensures_pure] using hrest hsigner

/-- The next round and its pool are opened, empty, and the signer pays for them. -/
theorem openNextRound_spec (hchecked : ResetChecked clock a s round) :
    Ensures (openNextRound a (s.board.roundId + 1) s) fun s' => ∃ l, s' = { s with
        rounds := s.rounds.put (Round.fresh (s.board.roundId + 1) a.signerInfo.key)
        poolRounds := s.poolRounds.put (PoolRound.fresh (s.board.roundId + 1) a.signerInfo.key)
        lamports := l } ∧
      Grew IsDerived s.lamports l ∧
      ∀ j, l j + (if j = a.signerInfo.key then s.nextRent else 0) = s.lamports j +
        (if j = .roundPda (s.board.roundId + 1) then
          minimumBalance roundSize - s.lamports (.roundPda (s.board.roundId + 1)) else 0) +
        (if j = .poolRoundPda (s.board.roundId + 1) then minimumBalance poolRoundSize -
          s.lamports (.poolRoundPda (s.board.roundId + 1)) else 0) := by
  simp only [openNextRound, ensures_bind, ensures_pure]
  refine Ensures.mono (State.createAccount_spec s _ _ _) ?_
  rintro _ ⟨-, l, rfl, hmoved, hl⟩
  refine Ensures.mono (State.createAccount_spec _ _ _ _) ?_
  rintro _ ⟨-, l', rfl, hmoved', hl'⟩
  refine ⟨l', rfl, hl.trans hl', fun j => ?_⟩
  have hpool : l (.poolRoundPda (s.board.roundId + 1)) =
      s.lamports (.poolRoundPda (s.board.roundId + 1)) := by
    have hne : Pubkey.poolRoundPda (s.board.roundId + 1) ≠ a.signerInfo.key := by
      intro h
      have := a.signerInfo.isKeypair_of_isSigner hchecked.signer
      rw [← h] at this
      cases this
    have hj := hmoved.balance (.poolRoundPda (s.board.roundId + 1))
    rw [hchecked.nextRoundKey, if_neg hne, if_neg (by simp)] at hj
    simpa using hj
  have hj := hmoved.balance j
  have hj' := hmoved'.balance j
  rw [hchecked.nextRoundKey] at hj
  rw [hchecked.nextPoolKey] at hj'
  dsimp only at hj'
  rw [hpool] at hj'
  rw [State.nextRent]
  by_cases hs : j = a.signerInfo.key
  · simp only [if_pos hs] at hj hj' ⊢
    omega
  · simp only [if_neg hs] at hj hj' ⊢
    omega

/-- The entropy value is the one of the configured variable. -/
theorem readEntropy_spec (env : Env) (a : ResetAccounts) (s : State) :
    Ensures (readEntropy env a s) fun value =>
      (∃ var, s.vars s.config.varAddress = some var ∧ var.value = value) ∧ value ≠ 0 := by
  simp only [readEntropy, ensures_bind, ensures_require, ensures_fromOption, ensures_pure]
  intro hkey var hvar _ _ _ hvalue _
  rw [hkey] at hvar
  exact ⟨⟨var, hvar, rfl⟩, hvalue⟩

/-- **Both reset instructions carry out the verdict.** -/
theorem resetBody_spec (clock : Clock) (env : Env) (variant : ResetVariant) (a : ResetAccounts)
    (s : State) :
    Ensures (resetBody clock env variant a s) fun s' =>
      ∃ round value topMiner, Reset clock variant a s s' round value topMiner := by
  simp only [resetBody, ensures_bind]
  refine Ensures.mono (checkResetAccounts_spec clock variant a s) fun round hchecked => ?_
  refine Ensures.mono (openNextRound_spec hchecked) ?_
  rintro _ ⟨l, rfl, hl, hopened⟩
  refine Ensures.mono (readEntropy_spec env a _) fun value hvalue => ?_
  obtain ⟨hentropy, hvalue⟩ := hvalue
  refine Ensures.mono (settleRound_spec env variant _ _) ?_
  rintro s' ⟨topMiner, ⟨⟨l', hs', hpaid⟩, htok⟩, hlatch⟩
  have hkey : a.roundInfo.key = .roundPda s.board.roundId := by
    rw [← hchecked.roundId]
    exact (s.rounds.key_of_get _ _ hchecked.getRound).symm
  rw [hkey] at hpaid
  rw [hchecked.treasuryTokens] at htok hs'
  replace hpaid : PaidOut l l' (.roundPda s.board.roundId)
      (s.verdict { round with slotHash := value } topMiner).sent
      ((s.verdict { round with slotHash := value } topMiner).gain variant a) := hpaid
  refine ⟨round, value, topMiner, ?_⟩
  constructor
  case signer => exact hchecked.signer
  case late => exact hchecked.late
  case getRound => rw [← hkey]; exact hchecked.getRound
  case nextRound => rw [← hchecked.nextRoundKey]; exact hchecked.nextRound.rounds
  case nextPool => rw [← hchecked.nextPoolKey]; exact hchecked.nextPool.poolRounds
  case entropy => exact hentropy
  case value_ne => exact hvalue
  case latch =>
    exact fun r hr hpos => ⟨{ s with
      rounds := s.rounds.put (Round.fresh (s.board.roundId + 1) a.signerInfo.key)
      poolRounds := s.poolRounds.put (PoolRound.fresh (s.board.roundId + 1) a.signerInfo.key)
      lamports := l }, rfl, rfl, hlatch r hr hpos⟩
  case board => rw [hs']
  case rounds => rw [hs']; rfl
  case poolRounds => rw [hs']
  case treasury => rw [hs']; rfl
  case solMotherlode => rw [hs']; rfl
  case lamports =>
    intro j hj
    have hgrew := hl j (isDerived_of_isRound hj)
    have hdrop := hpaid.drop j
    rw [hs']
    exact hgrew.trans hdrop
  case nextRent =>
    have hne : Pubkey.roundPda (s.board.roundId + 1) ≠ .roundPda s.board.roundId := by simp
    have hdrop := hpaid.drop (.roundPda (s.board.roundId + 1))
    rw [if_neg hne, Nat.add_zero] at hdrop
    have hsigner : Pubkey.roundPda (s.board.roundId + 1) ≠ a.signerInfo.key := fun h =>
      signer_not_isRound hchecked.signer ⟨_, h.symm⟩
    have hrent := hopened (.roundPda (s.board.roundId + 1))
    rw [if_neg hsigner, if_pos rfl, if_neg (by simp)] at hrent
    rw [hs']
    dsimp only at hdrop ⊢
    omega
  case tokens => rw [hs']; exact State.balances_mintedTo s _ _ htok
  case after => exact ⟨l', hs'⟩
  case collector => exact hchecked.collector
  case motherlodeKey => exact hchecked.motherlode
  case treasuryKey => exact hchecked.treasury
  case rent =>
    have hne : ∀ {k : Pubkey}, k.isKeypair = false → a.signerInfo.key ≠ k := by
      rintro k hk rfl
      rw [a.signerInfo.isKeypair_of_isSigner hchecked.signer] at hk
      cases hk
    have hin := hopened a.signerInfo.key
    rw [if_pos rfl, if_neg (hne rfl), if_neg (hne rfl)] at hin
    omega
  case balance =>
    intro j
    have hout := hpaid j
    have hin := hopened j
    rw [hs']
    dsimp only
    by_cases hs : j = a.signerInfo.key
    · simp only [if_pos hs] at hin ⊢
      omega
    · simp only [if_neg hs] at hin ⊢
      omega
  case opened => rw [hs']
  case miners => rw [hs']
  case poolMembers => rw [hs']
  case minersExtended => rw [hs']
  case goldVault => rw [hs']
  case stakes => rw [hs']
  case stakesV2 => rw [hs']

end Body

/-! ## What a reset leaves alone -/

/-- A verdict changes the treasury's balance and motherlode only. -/
theorem State.verdict_treasury (s : State) (round : Round) (topMiner : Pubkey) :
    (s.verdict round topMiner).treasury = { s.treasury with
      balance := (s.verdict round topMiner).treasury.balance
      motherlode := (s.verdict round topMiner).treasury.motherlode } := by
  unfold State.verdict
  split
  · rfl
  · split
    · rfl
    · simp only [State.winnersVerdict, payMotherlode]
      split <;> rfl

/-- A verdict is about the round that was played. -/
theorem State.verdict_id (s : State) (round : Round) (topMiner : Pubkey) :
    (s.verdict round topMiner).round.id = round.id := by
  unfold State.verdict
  split
  · rfl
  · split
    · rfl
    · simp only [State.winnersVerdict, payMotherlode]
      split <;> rfl

section Rest

variable {clock : Clock} {variant : ResetVariant} {a : ResetAccounts} {s s' : State}
  {round : Round} {value : Hash} {topMiner : Pubkey}

/-- The fresh round of a reset becomes the current one, and the one before keeps its id. -/
theorem Reset.roundsAfter (h : Reset clock variant a s s' round value topMiner) (id : ℕ) :
    s'.rounds.get (.roundPda id) =
      if id = s.board.roundId then
        some (s.verdict { round with slotHash := value } topMiner).round
      else if id = s.board.roundId + 1 then
        some (Round.fresh (s.board.roundId + 1) a.signerInfo.key)
      else s.rounds.get (.roundPda id) := by
  have hround : Pubkey.roundPda round.id = .roundPda s.board.roundId :=
    s.rounds.key_of_get _ _ h.getRound
  have hpda : (s.verdict { round with slotHash := value } topMiner).round.pda =
      .roundPda s.board.roundId := by
    rw [Round.pda, State.verdict_id, hround]
  have hfresh : (Round.fresh (s.board.roundId + 1) a.signerInfo.key).pda =
      .roundPda (s.board.roundId + 1) := rfl
  rw [h.rounds, Store.get_put, hpda, Store.get_put, hfresh]
  simp only [Pubkey.roundPda.injEq]

/-- A reset opens a pool round for the next round. -/
theorem Reset.poolsAfter (h : Reset clock variant a s s' round value topMiner) (id : ℕ) :
    s'.poolRounds.get (.poolRoundPda id) =
      if id = s.board.roundId + 1 then
        some (PoolRound.fresh (s.board.roundId + 1) a.signerInfo.key)
      else s.poolRounds.get (.poolRoundPda id) := by
  have hpda : (PoolRound.fresh (s.board.roundId + 1) a.signerInfo.key).pda =
      .poolRoundPda (s.board.roundId + 1) := rfl
  rw [h.poolRounds, Store.get_put, hpda]
  simp only [Pubkey.poolRoundPda.injEq]

theorem Reset.sameStakes (h : Reset clock variant a s s' round value topMiner) :
    SameStakes s s' := by
  refine ⟨h.stakes, h.stakesV2, ?_, ?_⟩ <;> rw [h.treasury, State.verdict_treasury]

theorem Reset.sameLedger (h : Reset clock variant a s s' round value topMiner) :
    SameLedger s s' := by
  refine ⟨by rw [State.ledgers, State.ledgers, h.miners], ?_, ?_, ?_⟩ <;>
    rw [h.treasury, State.verdict_treasury]

theorem Reset.sameGold (h : Reset clock variant a s s' round value topMiner) :
    SameGold s s' := ⟨h.minersExtended, h.goldVault⟩

end Rest

end Godl
