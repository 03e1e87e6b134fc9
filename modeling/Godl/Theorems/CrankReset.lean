import Godl.Proof.CrankReset
import Godl.Proof.RoundFunds
import Godl.Theorems.ResetCallers

/-!
# What the crank bot's reset tolerates

The crank bot's reset is there so that a round can always be settled: it tolerates a
missing or invalid submission of the top miner, where the permissionless one aborts.  In
one case it does not: it aborts when the pool member it is shown holds an older round,
which the permissionless one takes for a miner that plays for itself.

## Main definitions

* `crank_accepts_iff` — when the bot's reset accepts what the permissionless one accepts.
* `crank_rejects_stale_member` — a winner with an old pool member stops it.
-/

namespace Godl

open Lib

/-- The account list of a reset with another signer. -/
theorem resetAccounts_set {accounts : List AccountInfo} {a : ResetAccounts}
    (h : resetAccounts accounts = some a) (info : AccountInfo) :
    resetAccounts (accounts.set 0 info) = some (a.signedBy info) := by
  unfold resetAccounts at h
  split at h
  · cases h
    rfl
  · cases h

/-- **When the crank bot's reset accepts what the permissionless one accepts.**  In every
state that a run from a fresh round reaches, if the permissionless reset goes through, the
bot's reset goes through on the same list and with the same outcome exactly when the bot
can pay the rent of the next round and, should one winner take the reward, the pool member
shown is of this round. -/
theorem crank_accepts_iff {env : Env} {allowed : GodlInstruction → Prop} {s t : State}
    {h : History} (hfresh : s.FreshRound) (hpool : s.FreshPool) (hfunded : s.RoundFunded)
    (hrun : Run (Step env allowed) s h t) {clock : Clock} {accounts : List AccountInfo} {cpi : Cpi}
    {t₁ : State} (h₁ : processInstruction env clock .resetPermissionless accounts cpi t = .ok t₁)
    {crank : AccountInfo} (hkey : crank.key = crankBot) (hcrank : crank.isSigner = true) :
    ∃ a round var, resetAccounts accounts = some a ∧
      t.rounds.get (.roundPda t.board.roundId) = some round ∧
      t.vars t.config.varAddress = some var ∧
      ((∃ t₂, processInstruction env clock .reset (accounts.set 0 crank) cpi t = .ok t₂ ∧
          SameOutcome t.board.roundId t₂ t₁) ↔
        t.nextRent ≤ t.lamports crankBot ∧
          a.FreshMember t { round with slotHash := var.value }) := by
  obtain ⟨round, hround, htiled, hid, hdefault, -⟩ := exists_tiled_round hfresh hpool hrun
  obtain ⟨a, round₁, value, top, ha, hreset⟩ :=
    (resetCall_spec env clock .permissionless accounts cpi t).elim h₁
  have hsame := hreset.getRound
  rw [hround] at hsame
  cases hsame
  obtain ⟨var, hvar, rfl⟩ := hreset.entropy
  have hlist := resetAccounts_set ha crank
  refine ⟨a, round, var, ha, hround, hvar, fun hok => ?_, fun hcond => ?_⟩
  · obtain ⟨t₂, ht₂, -⟩ := hok
    obtain ⟨a', round', value', top', ha', hreset'⟩ :=
      (resetCall_spec env clock .lenient _ cpi t).elim ht₂
    rw [hlist] at ha'
    cases ha'
    obtain ⟨rfl, rfl⟩ := hreset.same_input hreset'
    refine ⟨?_, hreset'.freshMember fun r hrng hpos hsplit => ?_⟩
    · have hrent := hreset'.rent
      rwa [show (a.signedBy crank).signerInfo.key = crankBot from hkey] at hrent
    · obtain ⟨m, hm, -⟩ := hreset.latch_strict hrng hpos hsplit
      exact ⟨m, hm⟩
  · -- The bot's reset goes through, and latches what the other one latched.
    obtain ⟨hrent, hmember⟩ := hcond
    have hbody : resetBody clock env .permissionless a t = .ok t₁ := by
      have hcall := resetCall_eq env clock .permissionless accounts cpi t
      rw [ha] at hcall
      exact hcall.symm.trans h₁
    have hreturns := (resetBody_returns hkey hcrank (by rwa [hkey]) ?_ ?_).elim hbody
    · obtain ⟨t₂, ht₂, -⟩ := hreturns
      have hcall : processInstruction env clock .reset (accounts.set 0 crank) cpi t = .ok t₂ := by
        have hcall := resetCall_eq env clock .lenient (accounts.set 0 crank) cpi t
        rw [hlist] at hcall
        exact hcall.trans ht₂
      obtain ⟨a', round', value', top', ha', hreset'⟩ :=
        (resetCall_spec env clock .lenient _ cpi t).elim hcall
      rw [hlist] at ha'
      cases ha'
      obtain ⟨rfl, rfl⟩ := hreset.same_input hreset'
      refine ⟨t₂, hcall, (hreset'.sameOutcome_iff hreset).2
        ((hreset'.latches_agree_iff hreset htiled hid hdefault).2 ?_)⟩
      intro r k m hrng hpos hsplit htop hget _
      obtain ⟨m', hm', htop', hmember', -⟩ := hreset.latch_strict hrng hpos hsplit
      have hwinner := (htiled.existsUnique_isTop hid _ (Nat.pos_of_ne_zero hpos)).unique htop' htop
      rw [hwinner, hget] at hm'
      cases hm'
      exact ⟨hwinner, hmember'⟩
    · intro round' hround'
      have hlamports := hfunded.run hfresh.setup hrun round' hround'
      omega
    · intro round' var' hround' hvar'
      rw [hround] at hround'
      rw [hvar] at hvar'
      cases hround'
      cases hvar'
      exact hmember

/-- A fresh table has the rent of its round. -/
theorem roundFunded_table (roundId : ℕ) (value : Hash) :
    (State.table roundId value).RoundFunded := by
  intro round hround
  have hget := State.table_round roundId value
  rw [show (State.table roundId value).board.roundId = roundId from rfl, hget] at hround
  cases hround
  exact le_refl _

/-- Player 7 bet through the pool and is named: the bot's reset goes through as well. -/
theorem crank_accepts_iff_pooled : ∃ (h : History) (t t₁ t₂ : State),
    Run (Step .plain anyInstruction) (State.table 1 32775#256) h t ∧
    processInstruction .plain ⟨400, 0⟩ .reset ((namedReset 9).accounts.set 0 crankInfo)
      ⟨none, none⟩ t = .ok t₂ ∧ SameOutcome t.board.roundId t₂ t₁ := by
  obtain ⟨h, t, t₁, _, hrun, hP, ht₁, -, -, -⟩ := exists_two_calls .plain anyInstruction
    (State.table 1 32775#256) [pooledBet] (namedReset 9) (namedReset 9)
    (fun t => t.nextRent ≤ t.lamports crankBot ∧ t.board.roundId = 1 ∧
      (t.poolMembers.get (.poolMemberPda (.key 7))).all (fun p => p.roundId = 1) = true)
    (fun _ => true) (fun _ => true) (fun _ _ => trivial) (by decide +kernel)
  obtain ⟨hrent, hid, hmember⟩ := of_decide_eq_true hP
  obtain ⟨a, round, var, ha, hround, -, hiff⟩ := crank_accepts_iff (freshRound_table 1 _)
    (freshPool_table 1 _) (roundFunded_table 1 _) hrun ht₁
    (show crankInfo.key = crankBot from rfl) rfl
  have hfresh : a.FreshMember t { round with slotHash := var.value } := by
    intro r p _ _ _ hp
    cases ha
    have hp' : t.poolMembers.get (.poolMemberPda (.key 7)) = some p := hp
    rw [hp', Option.all_some, decide_eq_true_eq] at hmember
    rw [hmember, ← hid, ← roundId_of_get hround]
  obtain ⟨t₂, ht₂, hsame⟩ := hiff.2 ⟨hrent, hfresh⟩
  exact ⟨h, t, t₁, t₂, hrun, ht₂, hsame⟩

/-- Player 7 wins round 1 through the pool, is paid, and plays round 2 for itself. -/
def soloScript : List Call :=
  [pooledBet, namedReset 9,
   .checkpoint 500 9 7 1 (.poolRoundPda 1) (.poolMemberPda (.key 7)),
   .deploy 501 7 2 1000 1 false 32775#256]

/-- **A winner with an old pool member stops the crank bot**: round 2 is won by a player
who bet through the pool in round 1 and for itself in round 2; the permissionless reset
goes through, and the bot's aborts. -/
theorem crank_rejects_stale_member : ¬ ∀ (env : Env) (s t : State) (h : History) (clock : Clock)
    (accounts : List AccountInfo) (cpi : Cpi) (t₁ : State) (crank : AccountInfo),
    s.FreshRound → s.FreshPool → s.RoundFunded → Run (Step env anyInstruction) s h t →
    processInstruction env clock .resetPermissionless accounts cpi t = .ok t₁ →
    crank.key = crankBot → crank.isSigner = true → t.nextRent ≤ t.lamports crankBot →
    ∃ t₂, processInstruction env clock .reset (accounts.set 0 crank) cpi t = .ok t₂ ∧
      SameOutcome t.board.roundId t₂ t₁ := by
  intro hall
  obtain ⟨h, t, hrun, -, hP⟩ := exists_run_of_perform .plain anyInstruction
    (State.table 1 32775#256) soloScript
    (fun t => decide (t.nextRent ≤ t.lamports crankBot) &&
      returns (processInstruction .plain ⟨1000, 0⟩ .resetPermissionless
        (Call.resetAccounts (.signer 9) 2 (.minerPda (.key 7)) (.poolMemberPda (.key 7)))
        ⟨none, none⟩ t) (fun _ => true) &&
      !returns (processInstruction .plain ⟨1000, 0⟩ .reset
        ((Call.resetAccounts (.signer 9) 2 (.minerPda (.key 7))
          (.poolMemberPda (.key 7))).set 0 crankInfo) ⟨none, none⟩ t) (fun _ => true))
    (fun _ _ => trivial) (by decide +kernel)
  rw [Bool.and_eq_true, Bool.and_eq_true, decide_eq_true_eq] at hP
  obtain ⟨⟨hrent, hstrict⟩, hlenient⟩ := hP
  obtain ⟨t₁, ht₁, -⟩ := exists_of_returns hstrict
  obtain ⟨t₂, ht₂, -⟩ := hall _ _ _ _ _ _ _ _ crankInfo (freshRound_table 1 _)
    (freshPool_table 1 _) (roundFunded_table 1 _) hrun ht₁ rfl rfl hrent
  rw [ht₂] at hlenient
  exact absurd hlenient (by simp [returns])

end Godl
