import Godl.Program.Claim
import Godl.Proof.Frames

/-!
# Closing a round

An expired round disappears, and its pool round with it.  What was left above the rent
goes to the treasury's vault; no other round loses lamports.

## Main definitions

* `RoundClosed` — what closing does to the books.
-/

namespace Godl

open Lib

/-- An expired round was closed. -/
structure RoundClosed (clock : Clock) (s s' : State) (round : Round) : Prop where
  getRound : s.rounds.get (.roundPda round.id) = some round
  past : round.id < s.board.roundId
  expired : round.expiresAt < clock.slot
  rounds : s'.rounds = s.rounds.erase (.roundPda round.id)
  poolRounds : s'.poolRounds = s.poolRounds ∨
    s'.poolRounds = s.poolRounds.erase (.poolRoundPda round.id)
  lamports : ∀ j, IsRound j → j ≠ .roundPda round.id → s.lamports j ≤ s'.lamports j
  board : s'.board = s.board
  miners : s'.miners = s.miners
  poolMembers : s'.poolMembers = s.poolMembers
  stakes : SameStakes s s'
  ledger : SameLedger s s'
  gold : SameGold s s'
  motherlode : s'.treasury.motherlode = s.treasury.motherlode
  opened : s'.opened = s.opened
  tokens : s'.tokens = s.tokens
  supply : s'.mintSupply = s.mintSupply

/-- The lamports of a closed account go to the treasury and to whoever paid its rent. -/
theorem closeToTreasury_spec (info treasuryInfo rentPayerInfo : AccountInfo) (size : ℕ)
    (s : State) :
    Ensures (closeToTreasury info treasuryInfo rentPayerInfo size s) fun s' =>
      ∃ l balance, s' = { s with
          lamports := l, treasury := { s.treasury with balance := balance } } ∧
        ∀ j, j ≠ info.key → s.lamports j ≤ l j := by
  have hrelease : ∀ (l : Pubkey → ℕ) (balance : ℕ), (∀ j, j ≠ info.key → s.lamports j ≤ l j) →
      ∃ l' balance', ({ s with
          lamports := l, treasury := { s.treasury with balance := balance } } :
          State).releaseLamports info.key rentPayerInfo.key = { s with
          lamports := l', treasury := { s.treasury with balance := balance' } } ∧
        ∀ j, j ≠ info.key → s.lamports j ≤ l' j := by
    intro l balance hl
    obtain ⟨l', heq, hl'⟩ := State.releaseLamports_spec { s with
      lamports := l, treasury := { s.treasury with balance := balance } } info.key
      rentPayerInfo.key
    exact ⟨l', balance, heq, fun j hj => (hl j hj).trans (hl'.le hj)⟩
  simp only [closeToTreasury, ensures_bind, ensures_ite, ensures_pure]
  refine ⟨fun _ => ?_, fun _ => hrelease s.lamports s.treasury.balance fun _ _ => le_refl _⟩
  refine Ensures.mono (State.send_spec s _ _ _) ?_
  rintro _ ⟨l, rfl, hl⟩
  rw [ensures_addU64]
  exact fun _ => hrelease l _ fun j hj => hl.le hj

theorem processClose_spec (clock : Clock) (signerInfo boardInfo rentPayerInfo roundInfo
    poolRoundInfo treasuryInfo systemProgram : AccountInfo) (s : State) :
    Ensures (processClose clock signerInfo boardInfo rentPayerInfo roundInfo poolRoundInfo
      treasuryInfo systemProgram s) fun s' => ∃ round, RoundClosed clock s s' round := by
  simp only [processClose, ensures_bind, ensures_require, ensures_fromOption, ensures_ite,
    ensures_pure]
  intro _ _ _ _ _ round hround hpast hexpired _
  have hkey : roundInfo.key = .roundPda round.id := (s.rounds.key_of_get _ _ hround).symm
  have hget : s.rounds.get (.roundPda round.id) = some round := by rw [← hkey, hround]
  refine Ensures.mono (closeToTreasury_spec _ _ _ _ _) ?_
  rintro _ ⟨l, balance, rfl, hl⟩ _ hpool
  rw [hkey] at hl ⊢
  refine ⟨fun _ => ?_, fun _ _ _ _ => ?_⟩
  · exact ⟨round, hget, hpast, hexpired, rfl, .inl rfl, fun j _ hj => hl j hj, rfl, rfl, rfl,
      ⟨rfl, rfl, rfl, rfl⟩, ⟨rfl, rfl, rfl, rfl⟩, ⟨rfl, rfl⟩, rfl, rfl, rfl, rfl⟩
  · refine Ensures.mono (closeToTreasury_spec _ _ _ _ _) ?_
    rintro _ ⟨l', balance', rfl, hl'⟩
    have hlamports : ∀ j, IsRound j → j ≠ .roundPda round.id → s.lamports j ≤ l' j := by
      rintro _ ⟨id, rfl⟩ hj
      refine (hl _ hj).trans (hl' _ ?_)
      rw [hpool]
      simp
    exact ⟨round, hget, hpast, hexpired, rfl, .inr (by rw [← hpool]), hlamports, rfl, rfl, rfl,
      ⟨rfl, rfl, rfl, rfl⟩, ⟨rfl, rfl, rfl, rfl⟩, ⟨rfl, rfl⟩, rfl, rfl, rfl, rfl⟩

end Godl
