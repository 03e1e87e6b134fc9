import Godl.Lib.Lockstep
import Godl.Proof.Latch

/-!
# When a reset is accepted

A reset reads the clock twice: it checks that the intermission is over, and it records the
slot in which the next round starts.  So a reset that is accepted in one slot is accepted in
every slot from the end of the intermission on, and the first of them is known.

## Main definitions

* `Config.earliestReset` — the slot in which the intermission ends.
* `SameButClock` — two states that differ in what a reset reads off the clock.
* `resetBody_clock` — a reset at another time.
* `ResetsAt`, `isLeast_resetsAt` — the first slot in which a reset is accepted.
-/

namespace Godl

open Lib

/-- The slot from which a round whose clock stops at `endSlot` can be reset. -/
def Config.earliestReset (c : Config) (endSlot : ℕ) : ℕ :=
  saturatingAddU64 endSlot c.getIntermissionSlots

/-- Two states that differ in the slot in which the round started and in what was logged. -/
def SameButClock (s t : State) : Prop :=
  ∃ startSlot events, t = { s with
    board := { s.board with startSlot := startSlot }
    events := events }

section Clock

variable {E : ProgramError → Prop} {clock clock' : Clock} {variant : ResetVariant}
  {a : ResetAccounts} {s t : State}

theorem SameButClock.refl (s : State) : SameButClock s s := ⟨_, _, rfl⟩

theorem SameButClock.send (h : SameButClock s t) (source dest : Pubkey) (n : ℕ) :
    Lockstep E SameButClock (s.send source dest n) (t.send source dest n) := by
  obtain ⟨startSlot, events, rfl⟩ := h
  exact .bind_require fun _ => .ok ⟨startSlot, events, rfl⟩

theorem SameButClock.payAdminFee (h : SameButClock s t) (totalAdminFee : ℕ) :
    Lockstep E SameButClock (payAdminFee variant a totalAdminFee s)
      (payAdminFee variant a totalAdminFee t) := by
  cases variant with
  | lenient => exact h.send _ _ _
  | permissionless => exact (h.send _ _ _).bind fun _ _ hsent => hsent.send _ _ _

/-- The next round starts when the reset is made, and what is logged shows it. -/
theorem advanceBoard_clock (clock clock' : Clock) (e e' : Event) (s : State) :
    Lockstep E SameButClock (advanceBoard clock (s.programLog e))
      (advanceBoard clock' (s.programLog e')) :=
  .bind_same (addU64 overflow s.board.roundId 1) fun _ _ => .ok ⟨_, _, rfl⟩

/-! ## Settling the round -/

theorem resetRefund_clock (clock clock' : Clock) (round : Round) (s : State) :
    Lockstep E SameButClock (resetRefund clock round s) (resetRefund clock' round s) :=
  advanceBoard_clock clock clock' _ _ _

theorem resetVault_clock (clock clock' : Clock) (variant : ResetVariant) (a : ResetAccounts)
    (round : Round) (ws : Square) (totalAdminFee solMotherlodeAmount : ℕ) (s : State) :
    Lockstep E SameButClock
      (resetVault clock variant a round ws totalAdminFee solMotherlodeAmount s)
      (resetVault clock' variant a round ws totalAdminFee solMotherlodeAmount s) := by
  unfold resetVault
  refine .bind_same _ fun _ _ => .bind_same _ fun _ _ => ?_
  refine .bind_same _ fun _ _ => .bind_same _ fun _ _ => ?_
  refine (advanceBoard_clock clock clock' _ _ _).bind fun _ _ hadvanced => ?_
  refine (hadvanced.payAdminFee _).bind fun _ _ hpaid => ?_
  exact (hpaid.send _ _ _).bind fun _ _ hsent => hsent.send _ _ _

theorem resetWinners_clock (clock clock' : Clock) (env : Env) (variant : ResetVariant)
    (a : ResetAccounts) (round : Round) (r : BitVec 64) (ws : Square)
    (totalAdminFee solMotherlodeAmount : ℕ) (s : State) :
    Lockstep E SameButClock
      (resetWinners clock env variant a round r ws totalAdminFee solMotherlodeAmount s)
      (resetWinners clock' env variant a round r ws totalAdminFee solMotherlodeAmount s) := by
  unfold resetWinners
  refine .bind_same _ fun _ _ => .bind_same _ fun _ _ => .bind_same _ fun _ _ => ?_
  refine .bind_same _ fun _ _ => .bind_same _ fun _ _ => .bind_same _ fun _ _ => ?_
  -- Up to here the clock is not read, and what is minted and sent does not depend on it.
  refine .bind_same _ fun _ _ => .bind_same _ fun _ _ => .bind_same _ fun _ _ => ?_
  refine (advanceBoard_clock clock clock' _ _ _).bind fun _ _ hadvanced => ?_
  exact (hadvanced.payAdminFee _).bind fun _ _ hpaid => hpaid.send _ _ _

theorem settleRound_clock (clock clock' : Clock) (env : Env) (variant : ResetVariant)
    (a : ResetAccounts) (round : Round) (s : State) :
    Lockstep E SameButClock (settleRound clock env variant a round s)
      (settleRound clock' env variant a round s) := by
  unfold settleRound
  split
  · exact resetRefund_clock clock clock' round s
  · refine .bind_same _ fun _ _ => .bind_same _ fun _ _ => ?_
    exact .ite_same _ (fun _ => resetVault_clock clock clock' variant a round _ _ _ s)
      fun _ => resetWinners_clock clock clock' env variant a round _ _ _ _ s

/-! ## The whole reset -/

/-- The accounts are checked alike once the intermission is over. -/
theorem checkResetAccounts_clock (variant : ResetVariant) (a : ResetAccounts) (s : State)
    (hlate : s.config.earliestReset s.board.endSlot ≤ clock.slot)
    (hlate' : s.config.earliestReset s.board.endSlot ≤ clock'.slot) :
    checkResetAccounts clock variant a s = checkResetAccounts clock' variant a s := by
  rw [Config.earliestReset] at hlate hlate'
  simp only [checkResetAccounts, require, if_pos hlate, if_pos hlate']

/-- **A reset that is accepted is accepted at any time after the intermission**, and leaves the
same behind but for the slot in which the next round starts, and what is logged. -/
theorem resetBody_clock (env : Env) (variant : ResetVariant) (a : ResetAccounts) (s : State)
    (hlate : s.config.earliestReset s.board.endSlot ≤ clock.slot)
    (hlate' : s.config.earliestReset s.board.endSlot ≤ clock'.slot) :
    Lockstep E SameButClock (resetBody clock env variant a s)
      (resetBody clock' env variant a s) := by
  unfold resetBody
  rw [checkResetAccounts_clock variant a s hlate hlate']
  refine .bind_same _ fun _ _ => .bind_same _ fun _ _ => .bind_same _ fun _ _ => ?_
  exact settleRound_clock clock clock' env variant a _ _

end Clock

/-! ## The first slot in which a reset is accepted -/

/-- A reset that is accepted in a slot, whoever calls, by either instruction and with any
accounts, leads from `s` to `s'`. -/
def ResetsAt (env : Env) (slot : ℕ) (s s' : State) : Prop :=
  ∃ clock ix accounts cpi, clock.slot = slot ∧ ix.kind = .reset ∧
    processInstruction env clock ix accounts cpi s = .ok s'

theorem GodlInstruction.exists_variant {ix : GodlInstruction} (h : ix.kind = .reset) :
    ∃ variant : ResetVariant, ix = variant.instruction := by
  cases ix <;> first
    | exact ⟨.lenient, rfl⟩
    | exact ⟨.permissionless, rfl⟩
    | cases h

section First

variable {env : Env} {slot : ℕ} {s s' : State}

/-- What a reset that is accepted in a slot does. -/
theorem ResetsAt.reset (h : ResetsAt env slot s s') :
    ∃ clock variant a round value topMiner, clock.slot = slot ∧
      Reset clock variant a s s' round value topMiner := by
  obtain ⟨clock, ix, accounts, cpi, hslot, hkind, hok⟩ := h
  obtain ⟨variant, rfl⟩ := GodlInstruction.exists_variant hkind
  obtain ⟨a, round, value, topMiner, -, hreset⟩ :=
    (resetCall_spec env clock variant accounts cpi s).elim hok
  exact ⟨clock, variant, a, round, value, topMiner, hslot, hreset⟩

/-- No reset is accepted before the intermission is over. -/
theorem ResetsAt.earliestReset_le (h : ResetsAt env slot s s') :
    s.config.earliestReset s.board.endSlot ≤ slot := by
  obtain ⟨_, _, _, _, _, _, rfl, hreset⟩ := h.reset
  exact hreset.late

/-- A reset that is accepted in one slot is accepted in any other after the intermission. -/
theorem ResetsAt.of_late (h : ResetsAt env slot s s') {slot' : ℕ}
    (hlate : s.config.earliestReset s.board.endSlot ≤ slot') :
    ∃ t, ResetsAt env slot' s t ∧ SameButClock s' t := by
  have hearly := h.earliestReset_le
  obtain ⟨clock, ix, accounts, cpi, rfl, hkind, hok⟩ := h
  obtain ⟨variant, rfl⟩ := GodlInstruction.exists_variant hkind
  have hlockstep : Lockstep (fun _ => False) SameButClock
      (processInstruction env clock variant.instruction accounts cpi s)
      (processInstruction env { clock with slot := slot' } variant.instruction accounts cpi s) := by
    rw [resetCall_eq, resetCall_eq]
    cases resetAccounts accounts with
    | none => exact .error _
    | some a => exact resetBody_clock env variant a s hearly hlate
  obtain ⟨t, ht, hsame⟩ := hlockstep.returns hok
  exact ⟨t, ⟨_, _, accounts, cpi, rfl, hkind, ht⟩, hsame⟩

/-- **The first slot in which a reset is accepted** is the one in which the intermission
ends. -/
theorem isLeast_resetsAt (h : ∃ slot s', ResetsAt env slot s s') :
    IsLeast {slot | ∃ s', ResetsAt env slot s s'}
      (s.config.earliestReset s.board.endSlot) := by
  constructor
  · obtain ⟨slot, s', hreset⟩ := h
    obtain ⟨t, ht, -⟩ := hreset.of_late (le_refl _)
    exact ⟨t, ht⟩
  · rintro slot ⟨s', hreset⟩
    exact hreset.earliestReset_le

end First

end Godl
