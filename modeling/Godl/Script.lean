import Godl.System

/-!
# Scripts

A script is a list of calls.  Performing it computes the state that it leads to, and a
script that is performed to its end is a run.

## Main definitions

* `State.waiting` — a program that is set up.
* `Call`, `perform` — a call, and calls in a row.
* `exists_run_of_perform` — a script that goes through is a run.
-/

namespace Godl

open Lib

/-- The crank bot's account. -/
def crankInfo : AccountInfo := ⟨crankBot, true, true, false, fun _ => rfl⟩

/-- The account of who sets the program up. -/
def deployerInfo : AccountInfo := ⟨deployerAddress, true, true, false, fun _ => rfl⟩

namespace AccountInfo

/-- An account that only signs, at the address of a key pair. -/
def signer (bytes : ℕ) : AccountInfo := ⟨.key bytes, true, true, false, fun _ => rfl⟩

/-- A writable account. -/
def writable (key : Pubkey) : AccountInfo := ⟨key, false, true, false, Bool.noConfusion⟩

/-- A program. -/
def program (key : Pubkey) : AccountInfo := ⟨key, false, false, true, Bool.noConfusion⟩

end AccountInfo

/-- Other programs at some addresses, and a hash of no bytes. -/
def Env.plain : Env where
  entropyId := .key 901
  godlMintId := .key 902
  mintAuthorityPda := .key 903
  isMintAuthority k := k = .key 904
  hashv _ _ := []

/-- What is on the chain beside the program: the other programs, an authority of the GODL mint
program, and what is always there. -/
def plainAccounts : List Pubkey :=
  .key 901 :: .key 902 :: .key 904 :: runtimeAccounts

/-- A program that is set up and waits in an empty round, among given lamports and
tokens.  The admin is the key pair 3, the fee collector 4 and the bury authority 5. -/
def State.waiting (roundId : ℕ) (lamports : Pubkey → ℕ) (tokens : Pubkey → Option ℕ) : State :=
  { State.genesis with
    opened := fun _ => true
    configResized := true
    config := ⟨.key 3, oneGodl, .key 5, .key 4, Pubkey.default, .key 6, 5, roundSlotsDefault,
      intermissionSlotsDefault⟩
    board := ⟨roundId, 0, u64Max⟩
    rounds := Store.empty.put (Round.fresh roundId (.key 3))
    poolRounds := Store.empty.put (PoolRound.fresh roundId (.key 3))
    lamports := lamports
    tokens := tokens
    foreign := fun k => plainAccounts.contains k }

/-- A call of the program. -/
structure Call where
  clock : Clock
  ix : GodlInstruction
  accounts : List AccountInfo
  cpi : Cpi

/-- A call in which no other program does anything. -/
def Call.plain (slot : ℕ) (time : ℤ) (ix : GodlInstruction) (accounts : List AccountInfo) :
    Call := ⟨⟨slot, time⟩, ix, accounts, ⟨none, none⟩⟩

/-- The step that a call makes. -/
def Call.label (c : Call) : Label := .call c.clock c.ix c.accounts c.cpi

/-- Perform calls in a row. -/
def perform (env : Env) : List Call → State → Result State
  | [], s => .ok s
  | c :: calls, s =>
      match processInstruction env c.clock c.ix c.accounts c.cpi s with
      | .ok s' => perform env calls s'
      | .error e => .error e

/-- The first call is performed, and then the others. -/
theorem perform_cons_eq_ok {env : Env} {c : Call} {calls : List Call} {s t : State} :
    perform env (c :: calls) s = .ok t ↔
      ∃ u, processInstruction env c.clock c.ix c.accounts c.cpi s = .ok u ∧
        perform env calls u = .ok t := by
  rw [perform]
  split
  · next u hu => simp [hu]
  · next e he => simp [he]

/-- Whether a computation returns a value with a property. -/
def returns (x : Result State) (P : State → Bool) : Bool :=
  match x with
  | .ok s => P s
  | .error _ => false

theorem exists_of_returns {x : Result State} {P : State → Bool} (h : returns x P = true) :
    ∃ s, x = .ok s ∧ P s = true := by
  cases x with
  | ok s => exact ⟨s, rfl, h⟩
  | error e => cases h

/-! ## Playing -/

/-- A variable of the entropy program that drew a value for the board. -/
def Var.drawn (value : Hash) : Var := ⟨.boardPda, 1, 1, value, 1⟩

/-- Rich key pairs at an empty round, and a variable that will draw `value`. -/
def State.table (roundId : ℕ) (value : Hash) : State :=
  { State.waiting roundId
      (fun
        | .key _ => 10 ^ 12
        | .roundPda _ => minimumBalance roundSize
        | .poolRoundPda _ => minimumBalance poolRoundSize
        | .treasuryPda => minimumBalance treasurySize
        | _ => 0)
      (fun k => if k = treasuryTokensAddress then some 0 else none) with
    vars := fun k => if k = .key 6 then some (Var.drawn value) else none }

namespace Call

/-- The player signs a deployment of `amount` on each square of a mask. -/
def deploy (slot player roundId amount squares : ℕ) (isPooled : Bool) (value : Hash) : Call where
  clock := ⟨slot, 0⟩
  ix := .deploy ⟨amount, squares, isPooled⟩
  accounts := [.signer player, .writable (.key player), .writable (.automationV2Pda (.key player)),
    .writable .boardPda, .writable (.minerPda (.key player)), .writable (.roundPda roundId),
    .writable (.poolRoundPda roundId), .writable (.poolMemberPda (.key player)),
    .writable .configPda, .program systemProgramId, .writable (.key 6), .program (.key 901)]
  cpi := ⟨some (Var.drawn value), none⟩

/-- The accounts of a reset. -/
def resetAccounts (signer : AccountInfo) (roundId : ℕ) (topMiner poolMember : Pubkey) :
    List AccountInfo :=
  [signer, .writable .boardPda, .writable .configPda, .writable (.key 4), .writable mintAddress,
    .writable (.roundPda roundId), .writable (.roundPda (roundId + 1)),
    .writable (.poolRoundPda (roundId + 1)), .writable topMiner, .writable poolMember,
    .writable .solMotherlodePda, .writable rushSolVault, .writable .treasuryPda,
    .writable treasuryTokensAddress, .program systemProgramId, .program splTokenId,
    .program godlApiId, .writable slotHashesId, .writable (.key 6), .program (.key 901),
    .writable (.key 904), .program (.key 902)]

/-- The crank bot resets a round. -/
def reset (slot roundId : ℕ) (topMiner poolMember : Pubkey) : Call :=
  .plain slot 0 .reset
    (resetAccounts crankInfo roundId topMiner poolMember)

/-- Someone resets a round. -/
def resetPermissionless (slot caller roundId : ℕ) (topMiner poolMember : Pubkey) : Call :=
  .plain slot 0 .resetPermissionless
    (resetAccounts (.signer caller) roundId topMiner poolMember)

/-- Someone checkpoints a player, naming a pool round and a pool member. -/
def checkpoint (slot caller player roundId : ℕ) (poolRound poolMember : Pubkey) : Call :=
  .plain slot 0 .checkpoint [.signer caller, .writable .boardPda,
    .writable (.minerPda (.key player)), .writable (.roundPda roundId), .writable .treasuryPda,
    .writable poolRound, .writable poolMember, .program systemProgramId]

/-- Someone closes a round whose rent was paid by `rentPayer`. -/
def close (slot caller roundId : ℕ) (rentPayer : Pubkey) : Call :=
  .plain slot 0 .close [.signer caller, .writable .boardPda, .writable rentPayer,
    .writable (.roundPda roundId), .writable (.poolRoundPda roundId), .writable .treasuryPda,
    .program systemProgramId]

end Call

/-- Player 7 bets on round 1. -/
def openingBet : Call := .deploy 10 7 1 1000 3 false 25#256

/-- Player 8 bets on it too; it is reset, both are checkpointed, one twice, and it is
closed. -/
def roundScript : List Call :=
  [.deploy 11 8 1 500 1 true 25#256,
   .reset 400 1 (.minerPda (.key 8)) (.poolMemberPda (.key 8)),
   .checkpoint 500 9 7 1 (.poolRoundPda 1) (.poolMemberPda (.key 7)),
   .checkpoint 501 9 8 1 (.poolRoundPda 1) (.poolMemberPda (.key 8)),
   .checkpoint 502 7 7 1 (.poolRoundPda 1) (.poolMemberPda (.key 7)),
   .close 300000 9 1 (.key 3)]

/-- A fresh table has its round. -/
theorem State.table_round (roundId : ℕ) (value : Hash) :
    (State.table roundId value).rounds.get (.roundPda roundId) =
      some (Round.fresh roundId (.key 3)) := Store.get_put_self ..

section Run

variable {env : Env} {allowed : GodlInstruction → Prop} {s t u : State} {h : History}

/-- A script continues a run. -/
theorem run_of_perform {calls : List Call} (hrun : Run (Step env allowed) s h t)
    (hallowed : ∀ c ∈ calls, allowed c.ix) (hok : perform env calls t = .ok u) :
    ∃ h', Run (Step env allowed) s (h' ++ h) u ∧
      h'.map (·.label) = (calls.map Call.label).reverse := by
  induction calls generalizing t h with
  | nil =>
    cases hok
    exact ⟨[], hrun, rfl⟩
  | cons c calls ih =>
    obtain ⟨t', ht', hrest⟩ := perform_cons_eq_ok.1 hok
    obtain ⟨hc, hcalls⟩ := List.forall_mem_cons.1 hallowed
    obtain ⟨h', hrun', hlabels⟩ := ih (hrun.step (.call hc ht')) hcalls hrest
    refine ⟨h' ++ [⟨t, c.label, t'⟩], ?_, ?_⟩
    · rwa [List.append_assoc]
    · simp [hlabels]

/-- **A script that goes through is a run.** -/
theorem exists_run_of_perform (env : Env) (allowed : GodlInstruction → Prop) (s : State)
    (calls : List Call) (P : State → Bool)
    (hallowed : ∀ c ∈ calls, allowed c.ix) (hok : returns (perform env calls s) P = true) :
    ∃ h u, Run (Step env allowed) s h u ∧
      h.map (·.label) = (calls.map Call.label).reverse ∧ P u = true := by
  obtain ⟨u, hu, hP⟩ := exists_of_returns hok
  obtain ⟨h, hrun, hlabels⟩ := run_of_perform .start hallowed hu
  rw [List.append_nil] at hrun
  exact ⟨h, u, hrun, hlabels, hP⟩

/-- The steps of a script are its calls. -/
theorem exists_call_of_mem {calls : List Call}
    (hlabels : h.map (·.label) = (calls.map Call.label).reverse) {x : Transition State Label}
    (hx : x ∈ h) : ∃ c ∈ calls, c.label = x.label := by
  have hmem : x.label ∈ (calls.map Call.label).reverse := hlabels ▸ List.mem_map_of_mem hx
  rwa [List.mem_reverse, List.mem_map] at hmem

/-- In the steps of a script, no other program does anything. -/
theorem label_ne_world {calls : List Call}
    (hlabels : h.map (·.label) = (calls.map Call.label).reverse) :
    ∀ x ∈ h, x.label ≠ .world := by
  intro x hx hworld
  obtain ⟨c, -, hc⟩ := exists_call_of_mem hlabels hx
  rw [hworld] at hc
  cases hc

theorem perform_append (calls calls' : List Call) :
    perform env (calls ++ calls') s = perform env calls s >>= perform env calls' := by
  induction calls generalizing s with
  | nil => rfl
  | cons c calls ih =>
    simp only [List.cons_append, perform]
    split
    · exact ih
    · rfl

/-- **A script around a call**: the run with the step that the call makes. -/
theorem exists_step_of_perform (env : Env) (allowed : GodlInstruction → Prop) (s : State)
    (calls : List Call) (c : Call) (calls' : List Call) (P Q R : State → Bool)
    (hallowed : ∀ c' ∈ calls ++ c :: calls', allowed c'.ix)
    (hbefore : returns (perform env calls s) P = true)
    (hstep : returns (perform env (calls ++ [c]) s) Q = true)
    (hafter : returns (perform env (calls ++ c :: calls') s) R = true) :
    ∃ h t t' h' u, Run (Step env allowed) s (h' ++ ⟨t, c.label, t'⟩ :: h) u ∧
      h'.map (·.label) = (calls'.map Call.label).reverse ∧ P t = true ∧ Q t' = true ∧
      R u = true := by
  obtain ⟨t, ht, hP⟩ := exists_of_returns hbefore
  obtain ⟨t', ht', hQ⟩ := exists_of_returns hstep
  obtain ⟨u, hu, hR⟩ := exists_of_returns hafter
  have hhead : ∀ c' ∈ calls, allowed c'.ix :=
    fun c' hc' => hallowed c' (List.mem_append_left _ hc')
  have hrest : ∀ c' ∈ c :: calls', allowed c'.ix :=
    fun c' hc' => hallowed c' (List.mem_append_right _ hc')
  obtain ⟨h, hrun, -⟩ := run_of_perform (h := []) .start hhead ht
  rw [perform_append, ht] at ht' hu
  obtain ⟨v, hcall, hdone⟩ := perform_cons_eq_ok.1 ht'
  obtain rfl : t' = v := (Except.ok.inj hdone).symm
  obtain ⟨t'', hcall', hlast⟩ := perform_cons_eq_ok.1 hu
  obtain rfl : t' = t'' := Except.ok.inj (hcall.symm.trans hcall')
  rw [List.append_nil] at hrun
  obtain ⟨h', hrun', hlabels⟩ := run_of_perform
    (hrun.step (.call (hrest c (List.mem_cons_self ..)) hcall))
    (fun c' hc' => hrest c' (List.mem_cons_of_mem _ hc')) hlast
  exact ⟨h, t, t', h', u, hrun', hlabels, hP, hQ, hR⟩

/-- **Two calls after a script**, from the same state. -/
theorem exists_two_calls (env : Env) (allowed : GodlInstruction → Prop) (s : State)
    (calls : List Call) (c c' : Call) (P Q R : State → Bool)
    (hallowed : ∀ c ∈ calls, allowed c.ix)
    (hok : returns (perform env calls s) (fun t => P t &&
      returns (processInstruction env c.clock c.ix c.accounts c.cpi t) Q &&
      returns (processInstruction env c'.clock c'.ix c'.accounts c'.cpi t) R) = true) :
    ∃ h t t₁ t₂, Run (Step env allowed) s h t ∧ P t = true ∧
      processInstruction env c.clock c.ix c.accounts c.cpi t = .ok t₁ ∧
      processInstruction env c'.clock c'.ix c'.accounts c'.cpi t = .ok t₂ ∧
      Q t₁ = true ∧ R t₂ = true := by
  obtain ⟨h, t, hrun, -, ht⟩ := exists_run_of_perform env allowed s calls _ hallowed hok
  rw [Bool.and_eq_true, Bool.and_eq_true] at ht
  obtain ⟨t₁, ht₁, hQ⟩ := exists_of_returns ht.1.2
  obtain ⟨t₂, ht₂, hR⟩ := exists_of_returns ht.2
  exact ⟨h, t, t₁, t₂, hrun, ht.1.1, ht₁, ht₂, hQ, hR⟩

/-- **Two calls in a row after a script**, with the states between them. -/
theorem exists_calls_after (env : Env) (allowed : GodlInstruction → Prop) (s : State)
    (calls : List Call) (c c' : Call) (P Q R : State → Bool)
    (hallowed : ∀ c ∈ calls, allowed c.ix)
    (hok : returns (perform env calls s) (fun t => P t &&
      returns (processInstruction env c.clock c.ix c.accounts c.cpi t) fun t' => Q t' &&
        returns (processInstruction env c'.clock c'.ix c'.accounts c'.cpi t') R) = true) :
    ∃ h t t' u, Run (Step env allowed) s h t ∧ P t = true ∧
      processInstruction env c.clock c.ix c.accounts c.cpi t = .ok t' ∧ Q t' = true ∧
      processInstruction env c'.clock c'.ix c'.accounts c'.cpi t' = .ok u ∧ R u = true := by
  obtain ⟨h, t, hrun, -, ht⟩ := exists_run_of_perform env allowed s calls _ hallowed hok
  obtain ⟨hP, hcalls⟩ := Bool.and_eq_true_iff.1 ht
  obtain ⟨t', ht', hrest⟩ := exists_of_returns hcalls
  obtain ⟨hQ, hcall⟩ := Bool.and_eq_true_iff.1 hrest
  obtain ⟨u, hu, hR⟩ := exists_of_returns hcall
  exact ⟨h, t, t', u, hrun, hP, ht', hQ, hu, hR⟩

end Run

end Godl
