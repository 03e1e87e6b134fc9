import Godl.Proof.QuietHandlers

/-!
# The ledger of GODL and the gold rewards

The treasury books the unrefined GODL of all miners as `totalUnclaimed` and keeps the
fees of claims for the miners that hold on, as `totalRefined`.  The same unrefined GODL
weighs in the pot of gold: an extended account accrues on what its miner holds, so a
handler that changes the one has to settle the other first.

## Main definitions

* `State.unrefined`, `State.unrefinedSum`, `State.refinedOwed`, `State.LedgerOk`.
* `LedgerStep s s' credited out` — GODL was credited, and claimed GODL left.
* `State.goldOwed`, `GoldStep s s' paid` — the same for gold.
-/

namespace Godl

open Lib

/-! ## The ledger -/

namespace State

/-- The unrefined GODL of the miner of an authority. -/
def unrefined (s : State) (authority : Pubkey) : ℕ :=
  (s.ledgers (.minerPda authority)).position.units

/-- All unrefined GODL. -/
def unrefinedSum (s : State) : ℕ := s.miners.sum fun m => m.ledger.position.units

/-- What all miners are owed in refined GODL, scaled, when the factor stands at `F`. -/
def refinedOwed (s : State) (F : ℕ) : ℕ :=
  s.miners.sum fun m => m.ledger.position.owed factorScale F

/-- The ledger is in order: the treasury books exactly the unrefined GODL there is and
covers what is refined, and no miner holds more than it ever earned. -/
structure LedgerOk (s : State) : Prop where
  unclaimed : s.treasury.totalUnclaimed = s.unrefinedSum
  refined : s.refinedOwed s.treasury.minerRewardsFactor.bits ≤
    s.treasury.totalRefined * factorScale
  lifetime : ∀ k, (s.ledgers k).position.units ≤ (s.ledgers k).lifetime

end State

/-- What an instruction does to the ledger that credits `credited` and pays out `out`. -/
structure LedgerStep (s s' : State) (credited out : ℕ) : Prop where
  unclaimed : s'.treasury.totalUnclaimed + s.unrefinedSum =
    s.treasury.totalUnclaimed + s'.unrefinedSum
  total : s'.treasury.totalUnclaimed + s'.treasury.totalRefined + out =
    s.treasury.totalUnclaimed + s.treasury.totalRefined + credited
  ok : s.LedgerOk → s'.LedgerOk

section Ledger

variable {s s' s'' : State} {m m' : Miner} {k : Pubkey} {t : Treasury} {i j n n' : ℕ}

theorem unrefinedSum_congr (h : s'.ledgers = s.ledgers) : s'.unrefinedSum = s.unrefinedSum :=
  Store.sum_eq_of_view (g := fun l : Miner.Ledger => l.position.units) h rfl

theorem refinedOwed_congr (h : s'.ledgers = s.ledgers) (F : ℕ) :
    s'.refinedOwed F = s.refinedOwed F :=
  Store.sum_eq_of_view (g := fun l : Miner.Ledger => l.position.owed factorScale F) h
    (by simp [Position.owed])

theorem SameLedger.ok (h : SameLedger s s') (hok : s.LedgerOk) : s'.LedgerOk := by
  refine ⟨?_, ?_, ?_⟩
  · rw [h.totalUnclaimed, unrefinedSum_congr h.ledgers, hok.unclaimed]
  · rw [h.factor, h.totalRefined, refinedOwed_congr h.ledgers]
    exact hok.refined
  · rw [h.ledgers]
    exact hok.lifetime

theorem SameLedger.step (h : SameLedger s s') : LedgerStep s s' 0 0 := by
  refine ⟨?_, ?_, h.ok⟩
  · rw [h.totalUnclaimed, unrefinedSum_congr h.ledgers]
  · rw [h.totalUnclaimed, h.totalRefined]

theorem LedgerStep.trans (h : LedgerStep s s' i j) (h' : LedgerStep s' s'' n n') :
    LedgerStep s s'' (i + n) (j + n') := by
  have hunclaimed := h.unclaimed
  have hunclaimed' := h'.unclaimed
  have htotal := h.total
  have htotal' := h'.total
  exact ⟨by omega, by omega, h'.ok ∘ h.ok⟩

theorem SameLedger.then (h : SameLedger s s') (h' : LedgerStep s' s'' n n') :
    LedgerStep s s'' n n' := by
  have := h.step.trans h'
  rwa [Nat.zero_add, Nat.zero_add] at this

theorem LedgerStep.same (h : LedgerStep s s' n n') (h' : SameLedger s' s'') :
    LedgerStep s s'' n n' := h.trans h'.step

/-- What one write does to the two sums: the new entry for the old one. -/
theorem unrefinedSum_put (s : State) (m : Miner) :
    ({ s with miners := s.miners.put m } : State).unrefinedSum +
        (s.ledgers m.pda).position.units = s.unrefinedSum + m.rewardsGodl :=
  Store.sum_put_view (g := fun l : Miner.Ledger => l.position.units) rfl s.miners m

theorem refinedOwed_put (s : State) (m : Miner) (F : ℕ) :
    ({ s with miners := s.miners.put m } : State).refinedOwed F +
        (s.ledgers m.pda).position.owed factorScale F =
      s.refinedOwed F + m.position.owed factorScale F :=
  Store.sum_put_view (g := fun l : Miner.Ledger => l.position.owed factorScale F)
    (by simp [Position.owed]) s.miners m

theorem ledgers_put (s : State) (m : Miner) :
    ({ s with miners := s.miners.put m } : State).ledgers =
      Function.update s.ledgers m.pda m.ledger :=
  Store.view_put s.miners m

/-- **A settled miner is credited.**  Settling turns accrued fees into refined GODL, and the
credit is booked with the miner and with the treasury. -/
theorem credit_step (hm : s.ledgers m.pda = m.ledger) (hsettled : Miner.Settled m s.treasury m')
    {r : Miner} (hr : r.position = { m'.position with units := m'.rewardsGodl + n })
    (hlife : r.lifetimeRewardsGodl = m'.lifetimeRewardsGodl + n) (hauth : r.pda = m.pda)
    (ht : t = { s.treasury with totalUnclaimed := s.treasury.totalUnclaimed + n }) :
    LedgerStep s { s with miners := s.miners.put r, treasury := t } n 0 := by
  subst ht
  have hunits : r.rewardsGodl = m.rewardsGodl + n := by
    have : r.position.units = m'.rewardsGodl + n := by rw [hr]
    rw [← hsettled.rewardsGodl]
    exact this
  have hsum := unrefinedSum_put s r
  have howed := refinedOwed_put s r s.treasury.minerRewardsFactor.bits
  have hupdate := ledgers_put s r
  rw [hauth, hm] at hsum howed
  have hmu : m.ledger.position.units = m.rewardsGodl := rfl
  have hml : m.ledger.position = m.position := rfl
  -- The settled position is up to date, so the credit accrues nothing on it.
  have hle : r.position.owed factorScale s.treasury.minerRewardsFactor.bits ≤
      m.position.owed factorScale s.treasury.minerRewardsFactor.bits := by
    have h := Position.owed_settle_le factorScale s.treasury.minerRewardsFactor.bits m.position
    rw [← hsettled.position] at h
    have hmark : m'.position.mark = s.treasury.minerRewardsFactor.bits := by
      rw [hsettled.position]
      rfl
    have hr' : r.position = ⟨m'.rewardsGodl + n, s.treasury.minerRewardsFactor.bits,
        m'.position.reward⟩ := by rw [hr, ← hmark]
    have hm' : m'.position = ⟨m'.rewardsGodl, s.treasury.minerRewardsFactor.bits,
        m'.position.reward⟩ := by rw [← hmark]; rfl
    rw [hm', Position.owed_of_mark] at h
    rw [hr', Position.owed_of_mark]
    exact h
  refine ⟨?_, ?_, fun hok => ⟨?_, ?_, ?_⟩⟩
  · show s.treasury.totalUnclaimed + n + s.unrefinedSum = s.treasury.totalUnclaimed +
      ({ s with miners := s.miners.put r } : State).unrefinedSum
    omega
  · dsimp only
    omega
  · have := hok.unclaimed
    show s.treasury.totalUnclaimed + n = ({ s with miners := s.miners.put r } : State).unrefinedSum
    omega
  · have := hok.refined
    show ({ s with miners := s.miners.put r } : State).refinedOwed
      s.treasury.minerRewardsFactor.bits ≤ s.treasury.totalRefined * factorScale
    rw [hml] at howed
    omega
  · intro k
    have hlk := hok.lifetime k
    show (({ s with miners := s.miners.put r } : State).ledgers k).position.units ≤
      (({ s with miners := s.miners.put r } : State).ledgers k).lifetime
    rw [hupdate]
    by_cases hk : k = r.pda
    · subst hk
      rw [Function.update_self]
      rw [hauth, hm] at hlk
      have hmlife : m.ledger.lifetime = m.lifetimeRewardsGodl := rfl
      have hrl : r.ledger.lifetime = r.lifetimeRewardsGodl := rfl
      have hru : r.ledger.position.units = r.rewardsGodl := rfl
      have := hsettled.lifetime
      omega
    · rw [Function.update_of_ne hk]
      exact hlk

/-- **A claim pays out what the miner holds**, less the fee, which the others share. -/
theorem claim_step {amount fee : ℕ} (hm : s.ledgers m.pda = m.ledger)
    (h : Miner.Claimed m s.treasury amount m' t fee) :
    LedgerStep s { s with miners := s.miners.put m', treasury := t } 0 amount := by
  have hpda : m'.pda = m.pda := by rw [Miner.pda, Miner.pda, h.authority]
  have hsum := unrefinedSum_put s m'
  have howed := refinedOwed_put s m' s.treasury.minerRewardsFactor.bits
  have hupdate := ledgers_put s m'
  rw [hpda, hm] at hsum howed
  have hmu : m.ledger.position.units = m.rewardsGodl := rfl
  have hml : m.ledger.position = m.position := rfl
  have hzero : m'.rewardsGodl = 0 := h.rewardsGodl
  have hamount := h.amount
  have hunclaimed := h.totalUnclaimed
  have hrefined := h.totalRefined
  refine ⟨?_, ?_, fun hok => ?_⟩
  · show t.totalUnclaimed + s.unrefinedSum = s.treasury.totalUnclaimed +
      ({ s with miners := s.miners.put m' } : State).unrefinedSum
    omega
  · dsimp only
    omega
  · have hbooked : t.totalUnclaimed =
        ({ s with miners := s.miners.put m' } : State).unrefinedSum := by
      have := hok.unclaimed
      omega
    refine ⟨hbooked, ?_, fun k => ?_⟩
    · -- The claimer takes what it was owed; the fee is distributed over the rest.
      have hpaid := Position.reward_add_pending_le factorScale
        s.treasury.minerRewardsFactor.bits m.position
      have hnothing : m'.position.owed factorScale s.treasury.minerRewardsFactor.bits = 0 := by
        simp [Miner.position, Position.owed, hzero, h.refinedGodl]
      have hdistribute := Store.sum_owed_distribute_le (s.miners.put m')
        (fun x => x.ledger.position) factorScale s.treasury.minerRewardsFactor.bits fee
        (le_of_eq hbooked.symm)
      rw [← h.factor] at hdistribute
      have hcovered := hok.refined
      have hmul : (t.totalRefined + (m.refinedGodl + m.position.pending factorScale
          s.treasury.minerRewardsFactor.bits)) * factorScale =
          (s.treasury.totalRefined + fee) * factorScale := by rw [hrefined]
      rw [hml, hnothing] at howed
      have hreward : m.position.reward = m.refinedGodl := rfl
      rw [hreward] at hpaid
      simp only [Nat.add_mul] at hmul hpaid
      show (s.miners.put m').sum (fun x => x.ledger.position.owed factorScale
        t.minerRewardsFactor.bits) ≤ t.totalRefined * factorScale
      have hput : ({ s with miners := s.miners.put m' } : State).refinedOwed
          s.treasury.minerRewardsFactor.bits = (s.miners.put m').sum (fun x =>
            x.ledger.position.owed factorScale s.treasury.minerRewardsFactor.bits) := rfl
      omega
    · have hlk := hok.lifetime k
      show (({ s with miners := s.miners.put m' } : State).ledgers k).position.units ≤
        (({ s with miners := s.miners.put m' } : State).ledgers k).lifetime
      rw [hupdate]
      by_cases hk : k = m'.pda
      · rw [hk, Function.update_self]
        show m'.rewardsGodl ≤ _
        rw [hzero]
        exact Nat.zero_le _
      · rw [Function.update_of_ne hk]
        exact hlk

end Ledger

/-! ## Gold -/

namespace State

/-- What extended accounts are owed in gold, scaled, when the factor stands at `F` and the
miner of each authority holds as much unrefined GODL as `w` says. -/
def goldOwedWith (extended : Store Pubkey MinerExtended MinerExtended.pda) (F : ℕ)
    (w : Pubkey → ℕ) : ℕ :=
  extended.sum fun e => (e.position (w e.authority)).owed goldScale F

/-- What all extended accounts are owed in gold, scaled. -/
def goldOwed (s : State) : ℕ :=
  goldOwedWith s.minersExtended s.goldVault.xautRewardsFactor.bits s.unrefined

/-- Every extended account has seen the vault's factor: nothing was distributed since. -/
def GoldUpToDate (s : State) : Prop :=
  s.minersExtended.All fun e =>
    e.xautRewardsFactor.bits = s.goldVault.xautRewardsFactor.bits

end State

/-- Every extended account stays.  It is credited with what accrued on its miner's unrefined
GODL up to the vault's factor, or neither it nor the weight of its miner changes. -/
def GoldAccrues (s s' : State) : Prop :=
  ∀ authority e, s.minersExtended.get (.minerExtendedPda authority) = some e →
    ∃ e', s'.minersExtended.get (.minerExtendedPda authority) = some e' ∧
      Position.Accrued goldScale s.goldVault.xautRewardsFactor.bits
        (e.position (s.unrefined authority)) e.lifetimeXaut
        (e'.position (s'.unrefined authority)) e'.lifetimeXaut

/-- What settling the extended account of `authority` does to the accounts, at the weight that
its miner has in `s`. -/
def AccountsSettled (authority : Pubkey) (s s' : State) : Prop :=
  ∀ k e, s.minersExtended.get k = some e → ∃ e', s'.minersExtended.get k = some e' ∧
    (k ≠ .minerExtendedPda authority → e' = e) ∧
    (k = .minerExtendedPda authority → e'.lifetimeXaut = e.lifetimeXaut +
      (e.position (s.unrefined authority)).pending goldScale
        s.goldVault.xautRewardsFactor.bits)

/-- What an instruction does to the gold that pays `paid` and distributes nothing. -/
structure GoldStep (s s' : State) (paid : ℕ) : Prop where
  factor : s'.goldVault.xautRewardsFactor = s.goldVault.xautRewardsFactor
  distributed : s'.goldVault.totalXautDistributed = s.goldVault.totalXautDistributed
  pending : s'.goldVault.pendingXaut = s.goldVault.pendingXaut
  claimed : s'.goldVault.totalXautClaimed = s.goldVault.totalXautClaimed + paid
  owed : s'.goldOwed + paid * goldScale ≤ s.goldOwed
  upToDate : s.GoldUpToDate → s'.GoldUpToDate
  accrues : GoldAccrues s s'

section Gold

variable {s s' s'' : State} {authority : Pubkey} {m n F : ℕ}
  {extended : Store Pubkey MinerExtended MinerExtended.pda} {w w' : Pubkey → ℕ}

theorem GoldStep.trans (h : GoldStep s s' m) (h' : GoldStep s' s'' n) :
    GoldStep s s'' (m + n) := by
  have howed := h.owed
  have howed' := h'.owed
  refine ⟨h'.factor.trans h.factor, h'.distributed.trans h.distributed,
    h'.pending.trans h.pending, ?_, ?_, h'.upToDate ∘ h.upToDate, fun authority e he => ?_⟩
  · rw [h'.claimed, h.claimed, Nat.add_assoc]
  · rw [Nat.add_mul]
    omega
  · obtain ⟨e', he', haccrued⟩ := h.accrues authority e he
    obtain ⟨e'', he'', haccrued'⟩ := h'.accrues authority e' he'
    rw [h.factor] at haccrued'
    exact ⟨e'', he'', haccrued.trans haccrued'⟩

theorem unrefined_congr (h : s'.ledgers = s.ledgers) : s'.unrefined = s.unrefined := by
  funext a
  rw [State.unrefined, State.unrefined, h]

theorem goldStep_of_same (hgold : SameGold s s') (hledger : s'.ledgers = s.ledgers) :
    GoldStep s s' 0 := by
  have h := hgold.goldVault
  refine ⟨by rw [h], by rw [h], by rw [h], by rw [h, Nat.add_zero], ?_, ?_,
    fun authority e he => ⟨e, ?_, ?_⟩⟩
  · rw [State.goldOwed, State.goldOwed, h, hgold.minersExtended, unrefined_congr hledger]
    omega
  · rw [State.GoldUpToDate, State.GoldUpToDate, h, hgold.minersExtended]
    exact id
  · rw [hgold.minersExtended, he]
  · rw [unrefined_congr hledger]
    exact .refl _ _ _ _

/-- Steps that no gold sees may follow. -/
theorem GoldStep.same (h : GoldStep s s' n) (hgold : SameGold s' s'')
    (hledger : s''.ledgers = s'.ledgers) : GoldStep s s'' n :=
  h.trans (goldStep_of_same hgold hledger)

/-- The weight of a settled account does not matter. -/
theorem goldOwedWith_congr (hw : ∀ a, a ≠ authority → w' a = w a)
    (hsettled : ∀ e, extended.get (.minerExtendedPda authority) = some e →
      e.xautRewardsFactor.bits = F) :
    State.goldOwedWith extended F w' = State.goldOwedWith extended F w := by
  refine Store.sum_congr fun k e he => ?_
  have hkey : MinerExtended.pda e = k := extended.key_of_get k e he
  by_cases ha : e.authority = authority
  · have hmark : e.xautRewardsFactor.bits = F := by
      refine hsettled e ?_
      rw [← ha, ← he, ← hkey]
      rfl
    simp only [MinerExtended.position, hmark, Position.owed_of_mark]
  · dsimp only
    rw [hw e.authority ha]

/-- A fresh extended account is owed nothing. -/
theorem goldOwedWith_init {v : GoldVault} (w : Pubkey → ℕ)
    (hget : extended.get (.minerExtendedPda authority) = none) :
    State.goldOwedWith (extended.put (MinerExtended.init authority v)) v.xautRewardsFactor.bits w =
      State.goldOwedWith extended v.xautRewardsFactor.bits w := by
  have hsum := Store.sum_put_new (t := extended) (a := MinerExtended.init authority v)
    (fun e => (e.position (w e.authority)).owed goldScale v.xautRewardsFactor.bits) hget
  have hzero : ((MinerExtended.init authority v).position (w authority)).owed goldScale
      v.xautRewardsFactor.bits = 0 := by
    simp [MinerExtended.init, MinerExtended.position]
  rw [State.goldOwedWith, State.goldOwedWith, hsum]
  exact (congrArg _ hzero).trans (Nat.add_zero _)

/-- Settling an extended account adds nothing to what is owed. -/
theorem goldOwedWith_settle {e e' : MinerExtended} (hget : extended.get e.pda = some e)
    (hauth : e'.authority = e.authority)
    (hpos : e'.position (w e.authority) = (e.position (w e.authority)).settle goldScale F) :
    State.goldOwedWith (extended.put e') F w ≤ State.goldOwedWith extended F w := by
  have hold : extended.get e'.pda = some e := by rw [MinerExtended.pda, hauth]; exact hget
  have hsum := Store.sum_put_old (fun x : MinerExtended =>
    (x.position (w x.authority)).owed goldScale F) hold
  have hle := Position.owed_settle_le goldScale F (e.position (w e.authority))
  rw [← hpos] at hle
  rw [hauth] at hsum
  simp only [State.goldOwedWith]
  omega

end Gold

/-! ## Opening and settling an extended account -/

/-- The extended account of `authority` is loaded or created; a fresh one is settled. -/
structure ExtendedOpened (authority : Pubkey) (s s' : State) (extended : Option MinerExtended) :
    Prop where
  change : ∃ l t, s' = { s with lamports := l, minersExtended := t } ∧ Grew IsDerived s.lamports l
  get : s'.minersExtended.get (.minerExtendedPda authority) = extended
  owed : ∀ w, State.goldOwedWith s'.minersExtended s.goldVault.xautRewardsFactor.bits w =
    State.goldOwedWith s.minersExtended s.goldVault.xautRewardsFactor.bits w
  upToDate : s.GoldUpToDate → s'.GoldUpToDate
  kept : ∀ k e, s.minersExtended.get k = some e → s'.minersExtended.get k = some e

theorem ExtendedOpened.authority_eq {authority : Pubkey} {s s' : State} {e : MinerExtended}
    (h : ExtendedOpened authority s s' (some e)) : e.authority = authority := by
  have hkey : MinerExtended.pda e = _ := s'.minersExtended.key_of_get _ e h.get
  injection hkey

theorem loadOrCreateMinerExtended_spec (minerExtendedInfo : AccountInfo) (authority : Pubkey)
    (payer : AccountInfo) (create : Bool) (s : State) :
    Ensures (loadOrCreateMinerExtended minerExtendedInfo authority payer create s) fun p =>
      ExtendedOpened authority s p.2 p.1 ∧ (create = true → p.1.isSome = true) := by
  simp only [loadOrCreateMinerExtended, ensures_bind, ensures_require, ensures_ite, ensures_pure,
    ensures_fromOption]
  intro _ hkey
  refine ⟨fun hempty => ⟨fun _ => ?_, fun hcreate => ?_⟩, fun _ e he _ => ?_⟩
  · have hnone := (State.noData hempty).minersExtended
    rw [hkey] at hnone
    refine Ensures.mono (State.createAccount_spec s _ _ _) ?_
    rintro _ ⟨-, l, rfl, -, hl⟩
    refine ⟨⟨⟨l, _, rfl, hl⟩, ?_, fun w => goldOwedWith_init w hnone, fun hup => ?_,
      fun k e he => ?_⟩, fun _ => rfl⟩
    · exact Store.get_put_self s.minersExtended (MinerExtended.init authority s.goldVault)
    · exact Store.All.put hup rfl
    · have hne : k ≠ .minerExtendedPda authority := by
        rintro rfl
        rw [hnone] at he
        cases he
      exact (Store.get_put_of_ne s.minersExtended hne).trans he
  · have hnone := (State.noData hempty).minersExtended
    rw [hkey] at hnone
    exact ⟨⟨⟨s.lamports, s.minersExtended, rfl, Grew.refl _ _⟩, hnone, fun _ => rfl, id,
      fun _ _ h => h⟩, fun h => absurd h hcreate⟩
  · rw [hkey] at he
    exact ⟨⟨⟨s.lamports, s.minersExtended, rfl, Grew.refl _ _⟩, he, fun _ => rfl, id,
      fun _ _ h => h⟩, fun _ => rfl⟩

/-- An extended account that is opened is owed nothing. -/
theorem ExtendedOpened.goldStep {authority : Pubkey} {s s' : State}
    {extended : Option MinerExtended} (h : ExtendedOpened authority s s' extended) :
    GoldStep s s' 0 := by
  obtain ⟨l, t, rfl, -⟩ := id h.change
  refine ⟨rfl, rfl, rfl, rfl, ?_, h.upToDate, fun a e he => ⟨e, h.kept _ e he, .refl _ _ _ _⟩⟩
  rw [Nat.zero_mul, Nat.add_zero]
  exact le_of_eq (h.owed s.unrefined)

/-- The extended account of `authority`, if there is one, is settled at its miner's old
weight, so that the weight may change. -/
structure ExtendedSettled (authority : Pubkey) (s s' : State) : Prop where
  change : ∃ t, s' = { s with minersExtended := t }
  settled : ∀ e, s'.minersExtended.get (.minerExtendedPda authority) = some e →
    e.xautRewardsFactor.bits = s.goldVault.xautRewardsFactor.bits
  owed : ∀ w, w authority = s.unrefined authority →
    State.goldOwedWith s'.minersExtended s.goldVault.xautRewardsFactor.bits w ≤
      State.goldOwedWith s.minersExtended s.goldVault.xautRewardsFactor.bits w
  upToDate : s.GoldUpToDate → s'.GoldUpToDate
  accounts : AccountsSettled authority s s'

theorem syncGoldRewards_spec {extended : Option MinerExtended} {miner : Miner} {s : State}
    (hget : s.minersExtended.get (.minerExtendedPda miner.authority) = extended)
    (hminer : s.unrefined miner.authority = miner.rewardsGodl) :
    Ensures (syncGoldRewards extended miner s) (ExtendedSettled miner.authority s) := by
  unfold syncGoldRewards
  split
  case h_1 e =>
    simp only [ensures_bind, ensures_require, ensures_pure]
    intro hauth
    refine Ensures.mono (MinerExtended.updateRewards_spec e s.goldVault miner.rewardsGodl) ?_
    rintro e' ⟨hauth', hpos, hlifetime⟩
    have hmark : e'.xautRewardsFactor.bits = s.goldVault.xautRewardsFactor.bits :=
      congrArg Position.mark hpos
    have hpda : e'.pda = .minerExtendedPda miner.authority := by
      rw [MinerExtended.pda, hauth', hauth]
    refine ⟨⟨_, rfl⟩, fun x hx => ?_, fun w hw => ?_, fun hup => Store.All.put hup hmark,
      fun k x hx => ?_⟩
    · rw [← hpda, Store.get_put_self] at hx
      cases hx
      exact hmark
    · refine goldOwedWith_settle (e := e) ?_ hauth' ?_
      · rw [MinerExtended.pda, hauth]
        exact hget
      · rw [hauth, hw, hminer]
        exact hpos
    · by_cases hk : k = .minerExtendedPda miner.authority
      · subst hk
        rw [hget] at hx
        cases hx
        refine ⟨e', ?_, fun hne => absurd rfl hne, fun _ => ?_⟩
        · rw [← hpda, Store.get_put_self]
        · rw [hminer]
          exact hlifetime
      · refine ⟨x, ?_, fun _ => rfl, fun hk' => absurd hk' hk⟩
        rw [← hpda] at hk
        exact (Store.get_put_of_ne s.minersExtended hk).trans hx
  case h_2 =>
    simp only [ensures_bind, ensures_require, ensures_pure]
    intro _
    refine ⟨⟨s.minersExtended, rfl⟩, fun x hx => ?_, fun _ _ => le_refl _, id, fun k x hx => ?_⟩
    · rw [hget] at hx
      cases hx
    · refine ⟨x, hx, fun _ => rfl, ?_⟩
      rintro rfl
      rw [hget] at hx
      cases hx

/-- After opening and settling, the weight of the authority's miner may change. -/
theorem goldStep_of_settled (authority : Pubkey) {s s' : State}
    (hvault : s'.goldVault = s.goldVault)
    (hsettled : ∀ e, s'.minersExtended.get (.minerExtendedPda authority) = some e →
      e.xautRewardsFactor.bits = s.goldVault.xautRewardsFactor.bits)
    (howed : State.goldOwedWith s'.minersExtended s.goldVault.xautRewardsFactor.bits s.unrefined ≤
      s.goldOwed)
    (hother : ∀ a, a ≠ authority → s'.unrefined a = s.unrefined a)
    (hup : s.GoldUpToDate → s'.GoldUpToDate) (haccounts : AccountsSettled authority s s') :
    GoldStep s s' 0 := by
  refine ⟨by rw [hvault], by rw [hvault], by rw [hvault], by rw [hvault, Nat.add_zero], ?_, hup,
    fun a e he => ?_⟩
  · rw [State.goldOwed, hvault, goldOwedWith_congr hother hsettled]
    omega
  · obtain ⟨e', he', hsame, hlifetime⟩ := haccounts _ e he
    refine ⟨e', he', ?_⟩
    by_cases ha : a = authority
    · subst ha
      exact .settled (hsettled e' he') (hlifetime rfl)
    · rw [hsame (by simpa using ha), hother a ha]
      exact .refl _ _ _ _

end Godl
