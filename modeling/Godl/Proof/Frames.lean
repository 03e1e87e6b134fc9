import Godl.Proof.Ops
import Godl.Proof.Positions

/-!
# The books of the program

The properties of this development speak about four books and the funds that back them:
the stakes, the ledger of unrefined and refined GODL, the gold rewards, and the game.
Most instructions leave most of them alone.  A book is read through views, so that a
write which a book cannot see leaves it *equal*: an account that is created empty, a
miner whose referrer changes.

## Main definitions

* `State.wagers`, `State.ledgers`, `State.members` — what the books read of accounts.
* `SameStakes`, `SameLedger`, `SameGold`, `SameGame` — a book is unchanged.
* `KeepsFunds` — rounds keep their lamports, and the vaults their tokens.
* `Drains` — the books are unchanged, but tokens left the treasury.
* `Quiet` — nothing that the books or their funds are about happened.
-/

namespace Godl

open Lib

/-- What the game reads of a pool member. -/
structure PoolMember.Membership where
  roundId : ℕ
  deployed : Square → ℕ

/-- The membership of a pool member. -/
def PoolMember.membership (p : PoolMember) : PoolMember.Membership := ⟨p.roundId, p.deployed⟩

namespace State

/-- The wager of every miner. -/
def wagers (s : State) : Pubkey → Miner.Wager :=
  s.miners.view ⟨0, 0, fun _ => 0, fun _ => 0⟩ Miner.wager

/-- The ledger entry of every miner. -/
def ledgers (s : State) : Pubkey → Miner.Ledger :=
  s.miners.view ⟨⟨0, 0, 0⟩, 0⟩ Miner.ledger

/-- The membership of every pool member. -/
def memberships (s : State) : Pubkey → PoolMember.Membership :=
  s.poolMembers.view ⟨0, fun _ => 0⟩ PoolMember.membership

/-- The membership of every pool member, with its total. -/
def members (s : State) : Pubkey → PoolMember.Membership × ℕ :=
  s.poolMembers.view (⟨0, fun _ => 0⟩, 0) fun p => (p.membership, p.totalDeployed)

end State

/-- The address of a round. -/
def IsRound (k : Pubkey) : Prop := ∃ id, k = .roundPda id

/-- A token account that backs a book. -/
def IsVault (k : Pubkey) : Prop := k = treasuryTokensAddress ∨ k = goldVaultXautAddress

/-- No stake changed. -/
structure SameStakes (s s' : State) : Prop where
  stakes : s'.stakes = s.stakes
  stakesV2 : s'.stakesV2 = s.stakesV2
  totalStaked : s'.treasury.totalStaked = s.treasury.totalStaked
  factor : s'.treasury.stakeRewardsFactor = s.treasury.stakeRewardsFactor

/-- No unrefined or refined GODL changed hands. -/
structure SameLedger (s s' : State) : Prop where
  ledgers : s'.ledgers = s.ledgers
  factor : s'.treasury.minerRewardsFactor = s.treasury.minerRewardsFactor
  totalUnclaimed : s'.treasury.totalUnclaimed = s.treasury.totalUnclaimed
  totalRefined : s'.treasury.totalRefined = s.treasury.totalRefined

/-- No gold was distributed, accrued or claimed. -/
structure SameGold (s s' : State) : Prop where
  minersExtended : s'.minersExtended = s.minersExtended
  goldVault : s'.goldVault = s.goldVault

/-- The game stands still. -/
structure SameGame (s s' : State) : Prop where
  board : s'.board = s.board
  rounds : s'.rounds = s.rounds
  poolRounds : s'.poolRounds = s.poolRounds
  wagers : s'.wagers = s.wagers
  members : s'.members = s.members

/-- No singleton disappears, no round loses lamports, the vaults keep their tokens, but for
`out` tokens that leave the treasury, and no GODL is minted. -/
structure KeepsFunds (s s' : State) (out : ℕ) : Prop where
  opened : ∀ w, s.opened w = true → s'.opened w = true
  rounds : Grew IsRound s.lamports s'.lamports
  treasuryTokens : balances s.tokens treasuryTokensAddress ≤
    balances s'.tokens treasuryTokensAddress + out
  goldTokens : balances s.tokens goldVaultXautAddress ≤ balances s'.tokens goldVaultXautAddress
  supply : s'.mintSupply ≤ s.mintSupply

/-- The books are unchanged, and `out` tokens left the treasury at most. -/
structure Drains (s s' : State) (out : ℕ) : Prop where
  stakes : SameStakes s s'
  ledger : SameLedger s s'
  gold : SameGold s s'
  game : SameGame s s'
  motherlode : s'.treasury.motherlode = s.treasury.motherlode
  funds : KeepsFunds s s' out

/-- Nothing that the books or their funds are about happened. -/
abbrev Quiet (s s' : State) : Prop := Drains s s' 0

/-! ## Composition -/

section Compose

variable {s s' s'' : State} {m n : ℕ}

theorem SameStakes.refl (s : State) : SameStakes s s := ⟨rfl, rfl, rfl, rfl⟩

theorem SameStakes.trans (h : SameStakes s s') (h' : SameStakes s' s'') : SameStakes s s'' :=
  ⟨h'.stakes.trans h.stakes, h'.stakesV2.trans h.stakesV2, h'.totalStaked.trans h.totalStaked,
    h'.factor.trans h.factor⟩

theorem SameLedger.refl (s : State) : SameLedger s s := ⟨rfl, rfl, rfl, rfl⟩

theorem SameLedger.trans (h : SameLedger s s') (h' : SameLedger s' s'') : SameLedger s s'' :=
  ⟨h'.ledgers.trans h.ledgers, h'.factor.trans h.factor,
    h'.totalUnclaimed.trans h.totalUnclaimed, h'.totalRefined.trans h.totalRefined⟩

theorem SameGold.refl (s : State) : SameGold s s := ⟨rfl, rfl⟩

theorem SameGold.trans (h : SameGold s s') (h' : SameGold s' s'') : SameGold s s'' :=
  ⟨h'.minersExtended.trans h.minersExtended, h'.goldVault.trans h.goldVault⟩

theorem SameGame.refl (s : State) : SameGame s s := ⟨rfl, rfl, rfl, rfl, rfl⟩

theorem SameGame.trans (h : SameGame s s') (h' : SameGame s' s'') : SameGame s s'' :=
  ⟨h'.board.trans h.board, h'.rounds.trans h.rounds, h'.poolRounds.trans h.poolRounds,
    h'.wagers.trans h.wagers, h'.members.trans h.members⟩

theorem State.fst_members (s : State) (k : Pubkey) : (s.members k).1 = s.memberships k := by
  rw [State.members, State.memberships, Store.view, Store.view]
  cases s.poolMembers.get k <;> rfl

theorem SameGame.memberships (h : SameGame s s') : s'.memberships = s.memberships := by
  funext k
  rw [← State.fst_members, ← State.fst_members, h.members]

theorem KeepsFunds.refl (s : State) : KeepsFunds s s 0 :=
  ⟨fun _ h => h, Grew.refl _ _, le_refl _, le_refl _, le_refl _⟩

theorem KeepsFunds.of_eq (hopened : s'.opened = s.opened) (hlamports : s'.lamports = s.lamports)
    (htokens : s'.tokens = s.tokens) (hsupply : s'.mintSupply = s.mintSupply) :
    KeepsFunds s s' 0 := by
  refine ⟨fun w hw => by rw [hopened, hw], ?_, ?_, ?_, hsupply.le⟩
  · rw [hlamports]
    exact Grew.refl _ _
  · rw [htokens]
    exact le_refl _
  · rw [htokens]

theorem KeepsFunds.trans (h : KeepsFunds s s' m) (h' : KeepsFunds s' s'' n) :
    KeepsFunds s s'' (m + n) := by
  refine ⟨fun w hw => h'.opened w (h.opened w hw), h.rounds.trans h'.rounds, ?_,
    h.goldTokens.trans h'.goldTokens, h'.supply.trans h.supply⟩
  have := h.treasuryTokens
  have := h'.treasuryTokens
  omega

/-- A write to anything but the funds. -/
theorem KeepsFunds.same (h : KeepsFunds s s' n) (hopened : s''.opened = s'.opened)
    (hlamports : s''.lamports = s'.lamports) (htokens : s''.tokens = s'.tokens)
    (hsupply : s''.mintSupply = s'.mintSupply) : KeepsFunds s s'' n :=
  h.trans (.of_eq hopened hlamports htokens hsupply)

theorem Drains.trans (h : Drains s s' m) (h' : Drains s' s'' n) : Drains s s'' (m + n) :=
  ⟨h.stakes.trans h'.stakes, h.ledger.trans h'.ledger, h.gold.trans h'.gold,
    h.game.trans h'.game, h'.motherlode.trans h.motherlode, h.funds.trans h'.funds⟩

theorem Quiet.refl (s : State) : Quiet s s :=
  ⟨.refl s, .refl s, .refl s, .refl s, rfl, .refl s⟩

theorem Quiet.trans (h : Quiet s s') (h' : Quiet s' s'') : Quiet s s'' := Drains.trans h h'

/-- After quiet steps, a drain. -/
theorem Quiet.drains (h : Quiet s s') (h' : Drains s' s'' n) : Drains s s'' n := by
  have := Drains.trans h h'
  rwa [Nat.zero_add] at this

/-- After quiet steps, a computation that is quiet itself. -/
theorem Quiet.followed {x : Result State} (h : Quiet s s') (hx : Ensures x (Quiet s')) :
    Ensures x (Quiet s) := Ensures.mono hx fun _ => h.trans

end Compose

/-! ## Operations that are quiet -/

section Quiet

variable {s s' : State} {l : Pubkey → ℕ} {tok : Pubkey → Option ℕ} {n : ℕ}

theorem isDerived_of_isRound {k : Pubkey} (h : IsRound k) : IsDerived k := by
  obtain ⟨id, rfl⟩ := h
  rfl

/-- A signer has a key pair, so it is no round. -/
theorem signer_not_isRound {info : AccountInfo} (h : info.isSigner = true) :
    ¬ IsRound info.key := by
  have hkey := info.isKeypair_of_isSigner h
  rintro ⟨id, hid⟩
  rw [hid] at hkey
  cases hkey

/-- Lamports move, no round losing any, and tokens move, no vault losing any. -/
theorem quiet_funds (hl : Grew IsRound s.lamports l)
    (htok : Grew IsVault (balances s.tokens) (balances tok)) :
    Quiet s { s with lamports := l, tokens := tok } :=
  ⟨⟨rfl, rfl, rfl, rfl⟩, ⟨rfl, rfl, rfl, rfl⟩, ⟨rfl, rfl⟩, ⟨rfl, rfl, rfl, rfl, rfl⟩, rfl,
    ⟨fun _ h => h, hl, htok _ (.inl rfl), htok _ (.inr rfl), le_refl _⟩⟩

/-- A write to accounts that no book reads. -/
theorem quiet_of_eq (hstakes : s'.stakes = s.stakes) (hstakesV2 : s'.stakesV2 = s.stakesV2)
    (htreasury : s'.treasury = { s.treasury with balance := s'.treasury.balance })
    (hminers : s'.miners = s.miners) (hmembers : s'.poolMembers = s.poolMembers)
    (hextended : s'.minersExtended = s.minersExtended) (hvault : s'.goldVault = s.goldVault)
    (hboard : s'.board = s.board) (hrounds : s'.rounds = s.rounds)
    (hpools : s'.poolRounds = s.poolRounds) (hfunds : KeepsFunds s s' 0) : Quiet s s' := by
  refine ⟨⟨hstakes, hstakesV2, ?_, ?_⟩, ⟨?_, ?_, ?_, ?_⟩, ⟨hextended, hvault⟩,
    ⟨hboard, hrounds, hpools, ?_, ?_⟩, ?_, hfunds⟩
  all_goals first
    | rw [htreasury]
    | simp only [State.ledgers, State.wagers, hminers]
    | simp only [State.members, hmembers]

theorem quiet_lamports (hl : Grew IsRound s.lamports l) : Quiet s { s with lamports := l } :=
  @quiet_funds s l s.tokens hl (Grew.refl _ _)

theorem quiet_tokens (htok : Grew IsVault (balances s.tokens) (balances tok)) :
    Quiet s { s with tokens := tok } :=
  @quiet_funds s s.lamports tok (Grew.refl _ _) htok

theorem send_quiet {source : Pubkey} (dest : Pubkey) (n : ℕ) (h : ¬ IsRound source) :
    Ensures (s.send source dest n) (Quiet s) := by
  refine Ensures.mono (State.send_spec s source dest n) ?_
  rintro _ ⟨l, rfl, hl⟩
  exact quiet_lamports (hl.grew h)

theorem collect_quiet (s : State) (dest : Pubkey) (n : ℕ) (payer : AccountInfo) :
    Ensures (s.collect dest n payer) (Quiet s) := by
  refine Ensures.mono (State.collect_spec s dest n payer) ?_
  rintro _ ⟨l, rfl, -, hl⟩
  exact quiet_lamports (hl.mono fun _ => isDerived_of_isRound)

theorem createAccount_quiet (s : State) (target : AccountInfo) (len : ℕ)
    (payer : AccountInfo) :
    Ensures (s.createAccount target len payer) fun s' =>
      s.dataIsEmpty target.key = true ∧ Quiet s s' := by
  refine Ensures.mono (State.createAccount_spec s target len payer) ?_
  rintro _ ⟨hempty, l, rfl, -, hl⟩
  exact ⟨hempty, quiet_lamports (hl.mono fun _ => isDerived_of_isRound)⟩

theorem openTokenAccount_quiet (s : State) (info : AccountInfo) (owner mint : Pubkey)
    (payer : AccountInfo) :
    Ensures (s.openTokenAccount info owner mint payer) fun s' =>
      info.key = .associatedTokenAddress owner mint ∧ Quiet s s' := by
  refine Ensures.mono (State.openTokenAccount_spec s info owner mint payer) ?_
  rintro _ ⟨hkey, l, tok, rfl, hl, htok⟩
  refine ⟨hkey, quiet_funds (hl.mono fun _ => isDerived_of_isRound) ?_⟩
  rw [htok]
  exact Grew.refl _ _

theorem transferTokens_quiet {source : Pubkey} (dest : Pubkey) (n : ℕ) (h : ¬ IsVault source) :
    Ensures (s.transferTokens source dest n) (Quiet s) := by
  refine Ensures.mono (State.transferTokens_spec s source dest n) ?_
  rintro _ ⟨tok, rfl, htok, -⟩
  exact quiet_tokens (htok.grew h)

/-- Tokens that leave any account but the gold vault's leave the treasury at most. -/
theorem transferTokens_drains {source : Pubkey} (dest : Pubkey) (n : ℕ)
    (h : source ≠ goldVaultXautAddress) :
    Ensures (s.transferTokens source dest n) fun s' => Drains s s' n := by
  refine Ensures.mono (State.transferTokens_spec s source dest n) ?_
  rintro _ ⟨tok, rfl, htok, -⟩
  have htreasury := htok.balance treasuryTokensAddress
  refine ⟨⟨rfl, rfl, rfl, rfl⟩, ⟨rfl, rfl, rfl, rfl⟩, ⟨rfl, rfl⟩, ⟨rfl, rfl, rfl, rfl, rfl⟩, rfl,
    ⟨fun _ h => h, Grew.refl _ _, ?_, htok.le (Ne.symm h), le_refl _⟩⟩
  dsimp only
  split at htreasury <;> omega

/-- Tokens that are burned leave the treasury at most. -/
theorem burnTokens_drains {source : Pubkey} (n : ℕ) (h : source ≠ goldVaultXautAddress) :
    Ensures (s.burnTokens source n) fun s' => Drains s s' n := by
  refine Ensures.mono (State.burnTokens_spec s source n) ?_
  rintro _ ⟨tok, rfl, -, htok⟩
  have htreasury := htok treasuryTokensAddress
  have hgold := htok goldVaultXautAddress
  rw [if_neg (Ne.symm h)] at hgold
  refine ⟨⟨rfl, rfl, rfl, rfl⟩, ⟨rfl, rfl, rfl, rfl⟩, ⟨rfl, rfl⟩, ⟨rfl, rfl, rfl, rfl, rfl⟩, rfl,
    ⟨fun _ h => h, Grew.refl _ _, ?_, ?_, Nat.sub_le _ _⟩⟩
  · dsimp only
    split at htreasury <;> omega
  · dsimp only
    omega

/-- A swap that fills a token account out of one that backs no book. -/
theorem applySwap_quiet {authority solAccount tokenAccount : Pubkey} {o : SwapOutcome}
    (hauthority : ¬ IsRound authority) (hround : ¬ IsRound solAccount)
    (hvault : ¬ IsVault solAccount)
    (hfilled : balances s.tokens tokenAccount ≤ o.tokenBalance)
    (hsupply : o.supply ≤ s.mintSupply) :
    Quiet s (s.applySwap authority solAccount tokenAccount o) := by
  have htok : Grew IsVault (balances s.tokens)
      (balances (s.applySwap authority solAccount tokenAccount o).tokens) := by
    intro k hk
    have hsol : k ≠ solAccount := fun h => hvault (h ▸ hk)
    by_cases htoken : k = tokenAccount
    · rw [htoken]
      simpa [State.applySwap] using hfilled
    · rw [State.applySwap, balances_update_of_ne htoken, balances_update_of_ne hsol]
  have hl : Grew IsRound s.lamports (s.applySwap authority solAccount tokenAccount o).lamports := by
    intro k hk
    have hne : k ≠ authority := fun h => hauthority (h ▸ hk)
    have hne' : k ≠ solAccount := fun h => hround (h ▸ hk)
    simp [State.applySwap, hne, hne']
  exact quiet_of_eq rfl rfl rfl rfl rfl rfl rfl rfl rfl rfl
    ⟨fun _ h => h, hl, htok _ (.inl rfl), htok _ (.inr rfl), hsupply⟩

theorem releaseLamports_quiet (s : State) {source : Pubkey} (dest : Pubkey)
    (h : ¬ IsRound source) : Quiet s (s.releaseLamports source dest) := by
  obtain ⟨l, heq, hl⟩ := State.releaseLamports_spec s source dest
  rw [heq]
  exact quiet_lamports (hl.grew h)

theorem closeTokenAccount_quiet {source : Pubkey} (dest : Pubkey) (h : ¬ IsRound source) :
    Ensures (s.closeTokenAccount source dest) (Quiet s) := by
  refine Ensures.mono (State.closeTokenAccount_spec s source dest) ?_
  rintro _ ⟨l, tok, rfl, hl, htok⟩
  refine quiet_funds (hl.grew h) ?_
  rw [htok]
  exact Grew.refl _ _

theorem wagers_of_get {k : Pubkey} {m : Miner} (h : s.miners.get k = some m) :
    s.wagers k = m.wager := Store.view_of_get h

theorem ledgers_of_get {k : Pubkey} {m : Miner} (h : s.miners.get k = some m) :
    s.ledgers k = m.ledger := Store.view_of_get h

/-- A round is kept under its number. -/
theorem roundId_of_get {id : ℕ} {round : Round} (h : s.rounds.get (.roundPda id) = some round) :
    round.id = id := by
  have hkey : Pubkey.roundPda round.id = .roundPda id := s.rounds.key_of_get _ _ h
  injection hkey

/-- A write to a miner that neither the game nor the ledger can see. -/
theorem putMiner_quiet {m : Miner} (hwager : s.wagers m.pda = m.wager)
    (hledger : s.ledgers m.pda = m.ledger) : Quiet s { s with miners := s.miners.put m } := by
  have hw : (s.miners.put m).view ⟨0, 0, fun _ => 0, fun _ => 0⟩ Miner.wager = s.wagers :=
    Store.view_put_of_eq hwager
  have hl : (s.miners.put m).view ⟨⟨0, 0, 0⟩, 0⟩ Miner.ledger = s.ledgers :=
    Store.view_put_of_eq hledger
  exact ⟨⟨rfl, rfl, rfl, rfl⟩, ⟨hl, rfl, rfl, rfl⟩, ⟨rfl, rfl⟩, ⟨rfl, rfl, rfl, hw, rfl⟩, rfl,
    .of_eq rfl rfl rfl rfl⟩

/-- A write to the miner that an instruction loaded. -/
theorem replaceMiner_quiet {k : Pubkey} {m m' : Miner} (hget : s.miners.get k = some m)
    (hauth : m'.authority = m.authority) (hwager : m'.wager = m.wager)
    (hledger : m'.ledger = m.ledger) : Quiet s { s with miners := s.miners.put m' } := by
  have hpda : m'.pda = k := by
    rw [← s.miners.key_of_get k m hget, Miner.pda, hauth]
    rfl
  refine putMiner_quiet ?_ ?_
  · rw [hpda, wagers_of_get hget, hwager]
  · rw [hpda, ledgers_of_get hget, hledger]

end Quiet

/-! ## Accounts without data -/

/-- What it means that no account with data lives at an address. -/
structure NoData (s : State) (k : Pubkey) : Prop where
  miners : s.miners.get k = none
  rounds : s.rounds.get k = none
  poolRounds : s.poolRounds.get k = none
  poolMembers : s.poolMembers.get k = none
  minersExtended : s.minersExtended.get k = none
  automations : s.automations.get k = none
  stakesV2 : s.stakesV2.get k = none
  tokens : s.tokens k = none
  opened : ∀ w, s.opened w = true → k ≠ w.pda

theorem State.noData {s : State} {k : Pubkey} (h : s.dataIsEmpty k = true) : NoData s k := by
  simp only [dataIsEmpty, Bool.and_eq_true, Option.isNone_iff_eq_none, Bool.not_eq_true',
    Bool.and_eq_false_iff, beq_eq_false_iff_ne] at h
  obtain ⟨⟨⟨⟨⟨⟨⟨⟨⟨⟨⟨⟨⟨⟨⟨⟨⟨⟨hminers, hrounds⟩, hpool⟩, hmembers⟩, hext⟩, hauto⟩, -⟩, -⟩, hstakes⟩,
    -⟩, htok⟩, -⟩, -⟩, hcfg⟩, htre⟩, hboard⟩, hsol⟩, hotc⟩, hgold⟩ := h
  refine ⟨hminers, hrounds, hpool, hmembers, hext, hauto, hstakes, htok, fun w hw => ?_⟩
  cases w <;> simp_all

end Godl
