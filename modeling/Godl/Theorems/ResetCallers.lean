import Godl.Proof.PoolBets
import Godl.Theorems.Intervals

/-!
# Who calls a reset

The outcome of a round is meant to be fixed by the entropy value, whoever calls.  Among
permissionless resets it is: the caller has to name the one miner whose interval contains
the sample, and that miner's pool member.  The crank bot's reset takes the same decisions
except for one: it gives the reward to the pool only when it is shown the right accounts.

## Main definitions

* `State.FreshPool` — nobody has bet through the pool yet.
* `SameUpToCaller` — two outcomes of one reset, by two callers.
* `permissionless_reset_independent` — any two permissionless resets have the same outcome.
* `SameOutcome` — the same board, round, treasury and SOL motherlode.
* `resets_agree_iff` — when the crank bot's reset has the outcome of the permissionless one.
-/

namespace Godl

open Lib

/-- The current round has no top miner, and no pool member holds a deployment for it or for
a later round. -/
structure State.FreshPool (s : State) : Prop where
  topMiner : ∃ round, s.rounds.get (.roundPda s.board.roundId) = some round ∧
    round.topMiner = Pubkey.default
  unplayed : ∀ authority,
    s.board.roundId ≤ (s.memberships (.poolMemberPda authority)).roundId →
    (s.memberships (.poolMemberPda authority)).deployed = fun _ => 0

/-- Without bets, there are no shares. -/
theorem State.FreshPool.tracked {s : State} (h : s.FreshPool) : s.PoolTracked [] := by
  refine ⟨h.topMiner, fun authority hlt => h.unplayed authority hlt.le, by simp,
    fun authority sq => ⟨fun hpos => ?_, by simp⟩⟩
  rw [State.poolShare, PoolMember.Membership.share] at hpos
  split at hpos
  · next hid =>
    rw [h.unplayed authority hid.ge] at hpos
    exact absurd hpos (lt_irrefl 0)
  · exact absurd hpos (lt_irrefl 0)

/-- What a reset finds: the current round, tiled, and the shares of the pool members. -/
theorem exists_tiled_round {env : Env} {allowed : GodlInstruction → Prop} {s t : State}
    {h : History} (hfresh : s.FreshRound) (hpool : s.FreshPool)
    (hrun : Run (Step env allowed) s h t) :
    ∃ round, t.rounds.get (.roundPda t.board.roundId) = some round ∧ round.Tiled t ∧
      round.id = t.board.roundId ∧ round.topMiner = Pubkey.default ∧ t.PoolTracked h := by
  obtain ⟨round, hround, htiled⟩ := (hfresh.tiled.run hrun).current
  have htracked := hpool.tracked.run hfresh.setup hrun
  obtain ⟨round', hround', htop⟩ := htracked.topMiner
  rw [hround] at hround'
  cases hround'
  exact ⟨round, hround, htiled, roundId_of_get hround, htop, htracked⟩

/-! ## The permissionless reset -/

/-- Two outcomes of one reset that open round `id`, one for the caller `p` and one for the
caller `q`: they differ in who paid for the new accounts and in who got the reward. -/
structure SameUpToCaller (p q : Pubkey) (id : ℕ) (t₁ t₂ : State) : Prop where
  rest : t₂ = { t₁ with
    rounds := t₂.rounds, poolRounds := t₂.poolRounds, lamports := t₂.lamports }
  rounds : ∀ k, k ≠ .roundPda id → t₁.rounds.get k = t₂.rounds.get k
  nextRound : ∃ next : Round, t₁.rounds.get (.roundPda id) = some { next with rentPayer := p } ∧
    t₂.rounds.get (.roundPda id) = some { next with rentPayer := q }
  poolRounds : ∀ k, k ≠ .poolRoundPda id → t₁.poolRounds.get k = t₂.poolRounds.get k
  nextPool : ∃ next : PoolRound,
    t₁.poolRounds.get (.poolRoundPda id) = some { next with rentPayer := p } ∧
    t₂.poolRounds.get (.poolRoundPda id) = some { next with rentPayer := q }
  lamports : ∃ (before : Pubkey → ℕ) (rent reward : ℕ), reward ≤ crankRewardLamports ∧
    ∀ k, t₁.lamports k + (if k = p then rent else 0) =
        before k + (if k = p then reward else 0) ∧
      t₂.lamports k + (if k = q then rent else 0) = before k + (if k = q then reward else 0)

section Outcome

variable {clock : Clock} {variant : ResetVariant} {a a₁ a₂ : ResetAccounts} {s t₁ t₂ : State}
  {round : Round} {value : Hash} {top top₁ top₂ : Pubkey}

/-- What an account other than the caller gets out of the round. -/
def Verdict.othersGain (v : Verdict) (collector k : Pubkey) : ℕ :=
  (if k = collector then v.adminFee - min crankRewardLamports v.adminFee else 0) +
    (if k = .solMotherlodePda then v.motherlodeFee else 0) +
    if k = .treasuryPda then v.vaulted else 0

/-- Apart from the caller, everyone gets the same. -/
theorem Reset.gain_permissionless
    (h : Reset clock .permissionless a s t₁ round value top) (v : Verdict) (k : Pubkey) :
    v.gain .permissionless a k = v.othersGain s.config.feeCollector k +
      if k = a.signerInfo.key then min crankRewardLamports v.adminFee else 0 := by
  rw [Verdict.gain, adminGain, h.collector, h.motherlodeKey, h.treasuryKey, Verdict.othersGain]
  omega

/-- A caller that signs is not a round. -/
theorem Reset.signer_ne (h : Reset clock variant a s t₁ round value top) (id : ℕ) :
    a.signerInfo.key ≠ .roundPda id := fun hkey => signer_not_isRound h.signer ⟨id, hkey⟩

/-- **Two resets that reach one verdict differ in their callers only.** -/
theorem Reset.sameUpToCaller (h₁ : Reset clock .permissionless a₁ s t₁ round value top₁)
    (h₂ : Reset clock .permissionless a₂ s t₂ round value top₂)
    (hverdict : s.verdict { round with slotHash := value } top₂ =
      s.verdict { round with slotHash := value } top₁) :
    SameUpToCaller a₁.signerInfo.key a₂.signerInfo.key (s.board.roundId + 1) t₁ t₂ := by
  have hevent : s.resetEvent clock { round with slotHash := value } top₂ =
      s.resetEvent clock { round with slotHash := value } top₁ := by
    rw [State.resetEvent, State.resetEvent, hverdict]
  have hrounds₂ := h₂.rounds
  have hb₂ := h₂.balance
  rw [hverdict] at hrounds₂ hb₂
  set v := s.verdict { round with slotHash := value } top₁ with hv
  have hpda : v.round.pda = .roundPda s.board.roundId := by
    have hkey : Pubkey.roundPda round.id = _ := s.rounds.key_of_get _ _ h₁.getRound
    rw [hv, Round.pda, State.verdict_id]
    exact hkey
  refine ⟨?_, fun k hk => ?_, ?_, fun k hk => ?_, ?_, ?_⟩
  · obtain ⟨l₁, ht₁⟩ := h₁.after
    obtain ⟨l₂, ht₂⟩ := h₂.after
    rw [hevent, hverdict] at ht₂
    rw [ht₁, ht₂]
  · rw [h₁.rounds, hrounds₂, Store.get_put, Store.get_put, Store.get_put, Store.get_put,
      if_neg (show k ≠ (Round.fresh _ a₁.signerInfo.key).pda from hk),
      if_neg (show k ≠ (Round.fresh _ a₂.signerInfo.key).pda from hk)]
  · refine ⟨Round.fresh (s.board.roundId + 1) a₁.signerInfo.key, ?_, ?_⟩
    · rw [h₁.roundsAfter, if_neg (by simp), if_pos rfl]
      rfl
    · rw [h₂.roundsAfter, if_neg (by simp), if_pos rfl]
      rfl
  · rw [h₁.poolRounds, h₂.poolRounds, Store.get_put, Store.get_put,
      if_neg (show k ≠ (PoolRound.fresh _ a₁.signerInfo.key).pda from hk),
      if_neg (show k ≠ (PoolRound.fresh _ a₂.signerInfo.key).pda from hk)]
  · refine ⟨PoolRound.fresh (s.board.roundId + 1) a₁.signerInfo.key, ?_, ?_⟩
    · rw [h₁.poolRounds]
      exact Store.get_put_self ..
    · rw [h₂.poolRounds]
      exact Store.get_put_self ..
  · -- What everyone holds before the caller pays the rent and gets its reward.
    refine ⟨fun k => if k = .roundPda s.board.roundId then t₁.lamports k else
      s.lamports k +
        (if k = .roundPda (s.board.roundId + 1) then
          minimumBalance roundSize - s.lamports (.roundPda (s.board.roundId + 1)) else 0) +
        (if k = .poolRoundPda (s.board.roundId + 1) then minimumBalance poolRoundSize -
          s.lamports (.poolRoundPda (s.board.roundId + 1)) else 0) +
        v.othersGain s.config.feeCollector k,
      s.nextRent, min crankRewardLamports v.adminFee, Nat.min_le_left _ _, fun k => ?_⟩
    have hb₁ := h₁.balance k
    have hb₂ := hb₂ k
    rw [h₁.gain_permissionless, ← hv] at hb₁
    rw [h₂.gain_permissionless] at hb₂
    by_cases hk : k = .roundPda s.board.roundId
    · subst hk
      have hne₁ := (h₁.signer_ne s.board.roundId).symm
      have hne₂ := (h₂.signer_ne s.board.roundId).symm
      simp only [if_neg hne₁, if_neg hne₂, if_true, true_and] at hb₁ hb₂ ⊢
      omega
    · simp only [if_neg hk] at hb₁ hb₂ ⊢
      omega

/-- What the permissionless reset latches is who bet through the pool. -/
theorem Reset.topMiner_permissionless
    (h : Reset clock .permissionless a s t₁ round value top) {r : BitVec 64}
    (hrng : ({ round with slotHash := value } : Round).rng = some r)
    (hpos : round.deployed (Round.winningSquare r) ≠ 0) (hsplit : Round.isSplitReward r = false)
    (htiled : round.Tiled s) (hid : round.id = s.board.roundId) {k : Pubkey} {m : Miner}
    (htop : s.IsTop { round with slotHash := value } r k) (hget : s.miners.get k = some m) :
    top = if 0 < s.poolShare round.id (Round.winningSquare r) m.authority then poolAddress
      else round.topMiner := by
  obtain ⟨m', hget', htop', -, heq⟩ := h.latch_strict hrng hpos hsplit
  have hkey := (htiled.existsUnique_isTop hid value (Nat.pos_of_ne_zero hpos)).unique htop' htop
  rw [hkey, hget] at hget'
  cases hget'
  exact heq

/-- **Any two permissionless resets of a state latch the same.** -/
theorem Reset.latch_unique (h₁ : Reset clock .permissionless a₁ s t₁ round value top₁)
    (h₂ : Reset clock .permissionless a₂ s t₂ round value top₂) (htiled : round.Tiled s)
    (hid : round.id = s.board.roundId) {r : BitVec 64}
    (hrng : ({ round with slotHash := value } : Round).rng = some r)
    (hpos : round.deployed (Round.winningSquare r) ≠ 0) : top₁ = top₂ := by
  cases hsplit : Round.isSplitReward r with
  | true => rw [h₁.latch_split hrng hpos hsplit, h₂.latch_split hrng hpos hsplit]
  | false =>
    obtain ⟨m, hget, htop, -, heq⟩ := h₁.latch_strict hrng hpos hsplit
    rw [heq, h₂.topMiner_permissionless hrng hpos hsplit htiled hid htop hget]

/-- Two resets of a state find the same round and the same entropy value. -/
theorem Reset.same_input {clock' : Clock} {variant' : ResetVariant} {round' : Round}
    {value' : Hash} (h₁ : Reset clock variant a₁ s t₁ round value top₁)
    (h₂ : Reset clock' variant' a₂ s t₂ round' value' top₂) : round' = round ∧ value' = value := by
  have hround := h₂.getRound
  rw [h₁.getRound] at hround
  obtain ⟨var, hvar, hvalue⟩ := h₁.entropy
  obtain ⟨var', hvar', hvalue'⟩ := h₂.entropy
  rw [hvar] at hvar'
  cases hround
  cases hvar'
  exact ⟨rfl, hvalue'.symm.trans hvalue⟩

end Outcome

/-- The special addresses are distinct. -/
theorem poolAddress_ne_default : poolAddress ≠ Pubkey.default := by decide

/-- **The permissionless reset does not depend on its caller.**  In every state that a run
from a fresh round reaches, any two of them that succeed have the same outcome, up to who
paid for the new accounts and who got the reward; without winners the top miner stays
default, and when the reward is not split it becomes the pool exactly when the miner whose
interval contains the sample bet on the winning square through the pool in this round. -/
theorem permissionless_reset_independent {env : Env} {allowed : GodlInstruction → Prop}
    {s t : State} {h : History} (hfresh : s.FreshRound) (hpool : s.FreshPool)
    (hrun : Run (Step env allowed) s h t) {clock : Clock} {accounts₁ accounts₂ : List AccountInfo}
    {cpi₁ cpi₂ : Cpi} {t₁ t₂ : State}
    (h₁ : processInstruction env clock .resetPermissionless accounts₁ cpi₁ t = .ok t₁)
    (h₂ : processInstruction env clock .resetPermissionless accounts₂ cpi₂ t = .ok t₂) :
    ∃ a₁ a₂ round round₁, resetAccounts accounts₁ = some a₁ ∧ resetAccounts accounts₂ = some a₂ ∧
      SameUpToCaller a₁.signerInfo.key a₂.signerInfo.key (t.board.roundId + 1) t₁ t₂ ∧
      t.rounds.get (.roundPda t.board.roundId) = some round ∧
      t₁.rounds.get (.roundPda t.board.roundId) = some round₁ ∧
      ((∀ r, round₁.rng = some r → round.deployed (Round.winningSquare r) = 0) →
        round₁.topMiner = Pubkey.default) ∧
      ∀ r, round₁.rng = some r → 0 < round.deployed (Round.winningSquare r) →
        Round.isSplitReward r = false →
        ∃ k m, t.miners.get k = some m ∧
          (∀ j, t.IsTop { round with slotHash := round₁.slotHash } r j ↔ j = k) ∧
          (round₁.topMiner = poolAddress ↔
            ∃ x ∈ h, PoolBet m.authority (Round.winningSquare r) t.board.roundId x) ∧
          (round₁.topMiner ≠ poolAddress → round₁.topMiner = Pubkey.default) := by
  obtain ⟨round, hround, htiled, hid, hdefault, htracked⟩ := exists_tiled_round hfresh hpool hrun
  obtain ⟨a₁, round₁, value, top₁, ha₁, hreset₁⟩ :=
    (resetCall_spec env clock .permissionless accounts₁ cpi₁ t).elim h₁
  obtain ⟨a₂, round₂, value₂, top₂, ha₂, hreset₂⟩ :=
    (resetCall_spec env clock .permissionless accounts₂ cpi₂ t).elim h₂
  obtain ⟨rfl, rfl⟩ := hreset₁.same_input hreset₂
  have hsame := hreset₁.getRound
  rw [hround] at hsame
  cases hsame
  -- Both carry out the same verdict.
  have hverdict := t.verdict_congr { round with slotHash := value₂ } top₁ top₂
    fun r hrng hpos => hreset₁.latch_unique hreset₂ htiled hid hrng hpos
  have hcaller := hreset₁.sameUpToCaller hreset₂ hverdict.symm
  set v := t.verdict { round with slotHash := value₂ } top₁ with hv
  have hafter : t₁.rounds.get (.roundPda t.board.roundId) = some v.round := by
    rw [hreset₁.roundsAfter, if_pos rfl]
  have hhash : v.round.slotHash = value₂ := by
    rw [hv, State.verdict_slotHash]
  have hrng : v.round.rng = ({ round with slotHash := value₂ } : Round).rng := by
    rw [Round.rng, hhash]
    rfl
  refine ⟨a₁, a₂, round, v.round, ha₁, ha₂, hcaller, hround, hafter, fun hnone => ?_,
    fun r hr hpos hsplit => ?_⟩
  · have hsame := t.verdict_topMiner_of_none { round with slotHash := value₂ } top₁
      fun r hr => hnone r (hrng.trans hr)
    exact hsame.trans hdefault
  · rw [hrng] at hr
    obtain ⟨k, htop, hunique⟩ := htiled.existsUnique_isTop hid value₂ hpos
    obtain ⟨m, hget, -⟩ := id htop
    have hlatched : v.round.topMiner = if 0 < t.poolShare round.id (Round.winningSquare r)
        m.authority then poolAddress else Pubkey.default := by
      rw [hv, State.verdict_topMiner_winners _ _ hr hpos.ne', ← hdefault]
      exact hreset₁.topMiner_permissionless hr hpos.ne' hsplit htiled hid htop hget
    refine ⟨k, m, hget, fun j => ?_, ?_, ?_⟩
    · rw [hhash]
      exact ⟨hunique j, fun hj => hj ▸ htop⟩
    · rw [hlatched, ← htracked.bets, hid]
      split
      · next hshare => exact ⟨fun _ => hshare, fun _ => rfl⟩
      · next hshare =>
        exact ⟨fun hpool => absurd hpool poolAddress_ne_default.symm,
          fun h => absurd h hshare⟩
    · rw [hlatched]
      split
      · exact fun h => absurd rfl h
      · exact fun _ => rfl

/-- Nobody at a fresh table has bet through the pool. -/
theorem freshPool_table (roundId : ℕ) (value : Hash) : (State.table roundId value).FreshPool :=
  ⟨⟨_, State.table_round roundId value, rfl⟩, fun _ _ => rfl⟩

/-- A bet of player 7 through the pool, which wins round 1. -/
def pooledBet : Call := .deploy 10 7 1 1000 1 true 32775#256

/-- A permissionless reset that names player 7 as the winner. -/
def namedReset (caller : ℕ) : Call :=
  .resetPermissionless 400 caller 1 (.minerPda (.key 7)) (.poolMemberPda (.key 7))

/-- A player wins through the pool, whether the key pair 3 or the key pair 9 resets. -/
theorem permissionless_reset_independent_two : ∃ (h : History) (t t₁ t₂ : State),
    Run (Step .plain anyInstruction) (State.table 1 32775#256) h t ∧
    SameUpToCaller (.key 3) (.key 9) (t.board.roundId + 1) t₁ t₂ ∧
    (t₁.rounds.get (.roundPda 1)).any (fun round => round.topMiner = poolAddress) = true := by
  obtain ⟨h, t, t₁, t₂, hrun, -, ht₁, ht₂, htop, -⟩ := exists_two_calls .plain anyInstruction
    (State.table 1 32775#256) [pooledBet] (namedReset 3) (namedReset 9) (fun _ => true)
    (fun u => (u.rounds.get (.roundPda 1)).any fun round => round.topMiner = poolAddress)
    (fun _ => true) (fun _ _ => trivial) (by decide +kernel)
  obtain ⟨a₁, a₂, _, _, ha₁, ha₂, hsame, -⟩ :=
    permissionless_reset_independent (freshRound_table 1 _) (freshPool_table 1 _) hrun ht₁ ht₂
  cases ha₁
  cases ha₂
  exact ⟨h, t, t₁, t₂, hrun, hsame, htop⟩

/-! ## The crank bot's reset -/

/-- The outcomes of two resets of round `id` agree in everything that matters to the game. -/
def SameOutcome (id : ℕ) (t₁ t₂ : State) : Prop :=
  t₁.board = t₂.board ∧ t₁.rounds.get (.roundPda id) = t₂.rounds.get (.roundPda id) ∧
    t₁.treasury = t₂.treasury ∧ t₁.solMotherlode = t₂.solMotherlode

/-- When the reward goes to one winner, and that winner bet through the pool, the accounts
are the winner and its pool member. -/
def ResetAccounts.NamePoolWinner (a : ResetAccounts) (t : State) (round : Round) : Prop :=
  ∀ r k m, round.rng = some r → round.deployed (Round.winningSquare r) ≠ 0 →
    Round.isSplitReward r = false → t.IsTop round r k → t.miners.get k = some m →
    0 < t.poolShare round.id (Round.winningSquare r) m.authority →
    a.topMinerInfo.key = k ∧ a.topMinerPoolMemberInfo.key = .poolMemberPda m.authority

section Outcomes

variable {clock : Clock} {a₁ a₂ : ResetAccounts} {s t₁ t₂ : State}
  {round : Round} {value : Hash} {top₁ top₂ : Pubkey}

/-- The outcomes agree when the verdicts do, and the verdicts differ in the top miner. -/
theorem Reset.sameOutcome_iff (h₁ : Reset clock .lenient a₁ s t₁ round value top₁)
    (h₂ : Reset clock .permissionless a₂ s t₂ round value top₂) :
    SameOutcome s.board.roundId t₁ t₂ ↔
      ∀ r, ({ round with slotHash := value } : Round).rng = some r →
        round.deployed (Round.winningSquare r) ≠ 0 → top₁ = top₂ := by
  constructor
  · rintro ⟨-, hround, -, -⟩ r hrng hpos
    rw [h₁.roundsAfter, h₂.roundsAfter, if_pos rfl, if_pos rfl, Option.some.injEq] at hround
    have htop := congrArg Round.topMiner hround
    rwa [State.verdict_topMiner_winners _ _ hrng hpos,
      State.verdict_topMiner_winners _ _ hrng hpos] at htop
  · intro htop
    have hverdict := s.verdict_congr { round with slotHash := value } top₁ top₂ htop
    refine ⟨?_, ?_, ?_, ?_⟩
    · rw [h₁.board, h₂.board]
    · rw [h₁.roundsAfter, h₂.roundsAfter, hverdict]
      simp
    · rw [h₁.treasury, h₂.treasury, hverdict]
    · rw [h₁.solMotherlode, h₂.solMotherlode, hverdict]

/-- What the two variants latch agrees when the crank bot names the winner, should the
winner have bet through the pool. -/
theorem Reset.latches_agree_iff (h₁ : Reset clock .lenient a₁ s t₁ round value top₁)
    (h₂ : Reset clock .permissionless a₂ s t₂ round value top₂) (htiled : round.Tiled s)
    (hid : round.id = s.board.roundId) (hdefault : round.topMiner = Pubkey.default) :
    (∀ r, ({ round with slotHash := value } : Round).rng = some r →
        round.deployed (Round.winningSquare r) ≠ 0 → top₁ = top₂) ↔
      a₁.NamePoolWinner s { round with slotHash := value } := by
  constructor
  · intro hagree r k m hrng hpos hsplit htop hget hshare
    have htop₂ := h₂.topMiner_permissionless hrng hpos hsplit htiled hid htop hget
    rw [if_pos hshare] at htop₂
    rcases h₁.latch_lenient hrng hpos hsplit with ⟨hvouch, -⟩ | ⟨-, htop₁⟩
    · exact ((htiled.vouch_iff hid (Nat.pos_of_ne_zero hpos) htop hget).1 hvouch).2
    · rw [hagree r hrng hpos, htop₂, hdefault] at htop₁
      exact absurd htop₁ poolAddress_ne_default
  · intro hnames r hrng hpos
    cases hsplit : Round.isSplitReward r with
    | true => rw [h₁.latch_split hrng hpos hsplit, h₂.latch_split hrng hpos hsplit]
    | false =>
      obtain ⟨k, htop, -⟩ := htiled.existsUnique_isTop hid value (Nat.pos_of_ne_zero hpos)
      obtain ⟨m, hget, -⟩ := id htop
      rw [h₂.topMiner_permissionless hrng hpos hsplit htiled hid htop hget]
      have hvouch := htiled.vouch_iff (a := a₁) hid (Nat.pos_of_ne_zero hpos) htop hget
      rcases h₁.latch_lenient hrng hpos hsplit with ⟨hyes, htop₁⟩ | ⟨hno, htop₁⟩
      · rw [htop₁, if_pos (hvouch.1 hyes).1]
      · rw [htop₁, if_neg]
        intro hshare
        exact hno (hvouch.2 ⟨hshare, hnames r k m hrng hpos hsplit htop hget hshare⟩)

end Outcomes

/-- **When the crank bot's reset has the outcome of the permissionless one**: exactly when
its accounts name the winner and the winner's pool member, should the reward go to one
winner who bet through the pool. -/
theorem resets_agree_iff {env : Env} {allowed : GodlInstruction → Prop} {s t : State}
    {h : History} (hfresh : s.FreshRound) (hpool : s.FreshPool)
    (hrun : Run (Step env allowed) s h t) {clock : Clock} {accounts₁ accounts₂ : List AccountInfo}
    {cpi₁ cpi₂ : Cpi} {t₁ t₂ : State}
    (h₁ : processInstruction env clock .reset accounts₁ cpi₁ t = .ok t₁)
    (h₂ : processInstruction env clock .resetPermissionless accounts₂ cpi₂ t = .ok t₂) :
    ∃ a₁ round var, resetAccounts accounts₁ = some a₁ ∧
      t.rounds.get (.roundPda t.board.roundId) = some round ∧
      t.vars t.config.varAddress = some var ∧
      (SameOutcome t.board.roundId t₁ t₂ ↔
        a₁.NamePoolWinner t { round with slotHash := var.value }) := by
  obtain ⟨round, hround, htiled, hid, hdefault, -⟩ := exists_tiled_round hfresh hpool hrun
  obtain ⟨a₁, round₁, value, top₁, ha₁, hreset₁⟩ :=
    (resetCall_spec env clock .lenient accounts₁ cpi₁ t).elim h₁
  obtain ⟨a₂, round₂, value₂, top₂, ha₂, hreset₂⟩ :=
    (resetCall_spec env clock .permissionless accounts₂ cpi₂ t).elim h₂
  obtain ⟨rfl, rfl⟩ := hreset₁.same_input hreset₂
  have hsame := hreset₁.getRound
  rw [hround] at hsame
  cases hsame
  obtain ⟨var, hvar, rfl⟩ := hreset₁.entropy
  exact ⟨a₁, round, var, ha₁, hround, hvar,
    (hreset₁.sameOutcome_iff hreset₂).trans
      (hreset₁.latches_agree_iff hreset₂ htiled hid hdefault)⟩

/-- The crank bot names player 7 too, and the outcomes agree. -/
theorem resets_agree_iff_named : ∃ (h : History) (t t₁ t₂ : State),
    Run (Step .plain anyInstruction) (State.table 1 32775#256) h t ∧
    (t₁.rounds.get (.roundPda 1)).any (fun round => round.topMiner = poolAddress) = true ∧
    SameOutcome t.board.roundId t₁ t₂ := by
  obtain ⟨h, t, t₁, t₂, hrun, hkeys, ht₁, ht₂, htop, -⟩ := exists_two_calls .plain
    anyInstruction (State.table 1 32775#256) [pooledBet]
    (.reset 400 1 (.minerPda (.key 7)) (.poolMemberPda (.key 7))) (namedReset 9)
    (fun t => t.miners.keys = {.minerPda (.key 7)})
    (fun u => (u.rounds.get (.roundPda 1)).any fun round => round.topMiner = poolAddress)
    (fun _ => true) (fun _ _ => trivial) (by decide +kernel)
  obtain ⟨a₁, round, var, ha₁, hround, hvar, hiff⟩ :=
    resets_agree_iff (freshRound_table 1 _) (freshPool_table 1 _) hrun ht₁ ht₂
  refine ⟨h, t, t₁, t₂, hrun, htop, hiff.2 ?_⟩
  cases ha₁
  rintro r k m - - - - hget -
  -- Player 7 is the only miner.
  have hk : k = .minerPda (.key 7) := by
    have hmem := (t.miners.mem_keys k).2 (by rw [hget]; rfl)
    rwa [of_decide_eq_true hkeys, Finset.mem_singleton] at hmem
  have hauthority : Pubkey.minerPda m.authority = .minerPda (.key 7) :=
    (t.miners.key_of_get k m hget).trans hk
  rw [hk, Pubkey.minerPda.inj hauthority]
  exact ⟨rfl, rfl⟩

/-- **The crank bot decides whether the pool is paid**: with two unused accounts in place of the
winner's its reset leaves the top miner default where the permissionless one latches the pool. -/
theorem resets_disagree : ¬ ∀ (env : Env) (s t : State) (h : History) (clock : Clock)
    (accounts₁ accounts₂ : List AccountInfo) (cpi₁ cpi₂ : Cpi) (t₁ t₂ : State),
    s.FreshRound → s.FreshPool → Run (Step env anyInstruction) s h t →
    processInstruction env clock .reset accounts₁ cpi₁ t = .ok t₁ →
    processInstruction env clock .resetPermissionless accounts₂ cpi₂ t = .ok t₂ →
    SameOutcome t.board.roundId t₁ t₂ := by
  intro hall
  obtain ⟨h, t, t₁, t₂, hrun, hid, ht₁, ht₂, htop₁, htop₂⟩ := exists_two_calls .plain anyInstruction
    (State.table 1 32775#256) [pooledBet] (.reset 400 1 (.key 90) (.key 91)) (namedReset 9)
    (fun t => t.board.roundId = 1)
    (fun u => (u.rounds.get (.roundPda 1)).all fun round => round.topMiner = Pubkey.default)
    (fun u => (u.rounds.get (.roundPda 1)).any fun round => round.topMiner = poolAddress)
    (fun _ _ => trivial) (by decide +kernel)
  obtain ⟨-, hround, -⟩ := hall _ _ _ _ _ _ _ _ _ _ _ (freshRound_table 1 _) (freshPool_table 1 _)
    hrun ht₁ ht₂
  rw [decide_eq_true_eq] at hid
  rw [hid] at hround
  obtain ⟨round, hget, hpool⟩ := (Option.any_eq_true _ _).1 htop₂
  rw [hround, hget] at htop₁
  simp only [Option.all_some, decide_eq_true_eq] at htop₁ hpool
  exact poolAddress_ne_default (hpool.symm.trans htop₁)

end Godl
