import Godl.Theorems.Custody
import Godl.Lib.Flow

/-!
# Conservation

The program moves lamports and tokens and neither makes nor loses any: apart from the swaps, where
another program pays out, every call conserves the lamports of all accounts together and, mint by
mint, the tokens of all owners together.  GODL follows its supply, which only a reset raises and
only a burn lowers.

## Main definitions

* `Conserved s s'` — lamports and tokens are conserved.

## Main results

* `Act.conserved` — by every act but a swap.
* `conserved_of_run` — along every run of calls without swaps.
-/

namespace Godl

open Lib

/-- Lamports and tokens are conserved, and GODL with its supply. -/
structure Conserved (s s' : State) : Prop where
  lamports : Flow s.lamports s'.lamports 0 0
  tokens : ∀ mint, mint ≠ mintAddress → Flow (s.tokensOf mint) (s'.tokensOf mint) 0 0
  godl : Flow (s.tokensOf mintAddress) (s'.tokensOf mintAddress) s.mintSupply s'.mintSupply

section Acts

variable {signs : Pubkey → Prop} {R : Right → Prop} {s s' s'' : State}

theorem Conserved.refl (s : State) : Conserved s s where
  lamports := .refl _ _
  tokens _ _ := .refl _ _
  godl := .refl _ _

theorem Conserved.trans (h : Conserved s s') (h' : Conserved s' s'') : Conserved s s'' where
  lamports := h.lamports.trans h'.lamports
  tokens mint hmint := (h.tokens mint hmint).trans (h'.tokens mint hmint)
  godl := h.godl.trans h'.godl

/-- Only tokens move, and each mint keeps its own. -/
theorem Conserved.moveTokens {tok : Pubkey → Option ℕ}
    (h : ∀ mint a, Flow (fun owner => balances s.tokens (.associatedTokenAddress owner mint))
      (fun owner => balances tok (.associatedTokenAddress owner mint)) a a) :
    Conserved s { s with tokens := tok } :=
  { Conserved.refl s with
    tokens := fun mint _ => h mint 0
    godl := h mintAddress s.mintSupply }

/-- A transfer stays within one mint. -/
theorem conserved_transfer {owner dest mint : Pubkey} {n : ℕ}
    (hok : s.transferTokens (.associatedTokenAddress owner mint)
      (.associatedTokenAddress dest mint) n = .ok s') : Conserved s s' := by
  obtain ⟨tok, rfl, hmoved, -⟩ := (s.transferTokens_spec _ _ n).elim hok
  refine Conserved.moveTokens fun mint' a => ?_
  by_cases hmint : mint' = mint
  · subst hmint
    have hbalances : ∀ k, balances tok (.associatedTokenAddress k mint') +
        (if k = owner then n else 0) = balances s.tokens (.associatedTokenAddress k mint') +
          (if k = dest then n else 0) := by
      intro k
      have hbalance := hmoved.balance (.associatedTokenAddress k mint')
      simp only [Pubkey.associatedTokenAddress.injEq, and_true] at hbalance
      exact hbalance
    exact Flow.transfer hbalances
  · refine Flow.of_eq (funext fun k => ?_)
    have hbalance := hmoved.balance (.associatedTokenAddress k mint')
    simp only [Pubkey.associatedTokenAddress.injEq, hmint, and_false, if_false] at hbalance
    exact hbalance

theorem conserved_burn {n : ℕ}
    (hok : s.burnTokens (.associatedTokenAddress .treasuryPda mintAddress) n = .ok s') :
    Conserved s s' := by
  obtain ⟨tok, rfl, hsupply, hburned⟩ := (s.burnTokens_spec _ n).elim hok
  have hother : ∀ owner mint, (owner ≠ .treasuryPda ∨ mint ≠ mintAddress) →
      balances tok (.associatedTokenAddress owner mint) =
        balances s.tokens (.associatedTokenAddress owner mint) := by
    intro owner mint hne
    have hbalance := hburned (.associatedTokenAddress owner mint)
    rw [if_neg (by simpa only [Pubkey.associatedTokenAddress.injEq, not_and_or] using hne)]
      at hbalance
    exact hbalance
  refine ⟨.refl _ _, fun mint hmint => .of_eq (funext fun owner => hother owner mint (.inr hmint)),
    Flow.single (i := .treasuryPda) (fun owner hne => hother owner _ (.inl hne)) ?_⟩
  have hbalance := hburned (.associatedTokenAddress .treasuryPda mintAddress)
  rw [if_pos rfl] at hbalance
  change balances tok _ + s.mintSupply = balances s.tokens _ + (s.mintSupply - n)
  omega

theorem conserved_mint {n : ℕ}
    (hok : s.mintGodl (.associatedTokenAddress .treasuryPda mintAddress) n = .ok s') :
    Conserved s s' := by
  obtain ⟨tok, rfl, hminted⟩ := (s.mintGodl_spec _ n).elim hok
  have hother : ∀ owner mint, (owner ≠ .treasuryPda ∨ mint ≠ mintAddress) →
      balances tok (.associatedTokenAddress owner mint) =
        balances s.tokens (.associatedTokenAddress owner mint) := by
    intro owner mint hne
    have hbalance := hminted (.associatedTokenAddress owner mint)
    rw [if_neg (by simpa only [Pubkey.associatedTokenAddress.injEq, not_and_or] using hne)]
      at hbalance
    exact hbalance
  refine ⟨.refl _ _, fun mint hmint => .of_eq (funext fun owner => hother owner mint (.inr hmint)),
    Flow.single (i := .treasuryPda) (fun owner hne => hother owner _ (.inl hne)) ?_⟩
  have hbalance := hminted (.associatedTokenAddress .treasuryPda mintAddress)
  rw [if_pos rfl] at hbalance
  change balances tok _ + s.mintSupply = balances s.tokens _ + (s.mintSupply + n)
  omega

/-- An account that holds nothing is opened or closed. -/
theorem conserved_emptyTokens {k : Pubkey} {o : Option ℕ} (hbefore : balances s.tokens k = 0)
    (hafter : o.getD 0 = 0) :
    Conserved s { s with tokens := Function.update s.tokens k o } := by
  refine Conserved.moveTokens fun mint a => .of_eq (funext fun owner => ?_)
  by_cases hk : Pubkey.associatedTokenAddress owner mint = k
  · rw [hk, hbefore, balances, Function.update_self, hafter]
  · rw [balances_update_of_ne hk]

/-- **Every act but a swap conserves lamports and tokens.** -/
theorem Act.conserved (h : Act signs R s s') (hno : ¬ R .swap) : Conserved s s' := by
  cases h with
  | move dest _ hn =>
    obtain ⟨l, heq, hmoved⟩ := State.moveLamports_spec dest hn
    rw [heq]
    exact { Conserved.refl s with lamports := .transfer hmoved.balance }
  | transfer _ hok => exact conserved_transfer hok
  | burn _ hok => exact conserved_burn hok
  | mint _ hok => exact conserved_mint hok
  | openTokens hnone => exact conserved_emptyTokens (balances_of_none hnone) rfl
  | closeTokens hzero => exact conserved_emptyTokens (balances_of_eq hzero) rfl
  | swap hmay => exact absurd hmay hno
  | _ => exact { Conserved.refl s with }

theorem Acts.conserved (h : Acts signs R s s') (hno : ¬ R .swap) : Conserved s s' := by
  induction h with
  | refl => exact .refl s
  | tail _ hact ih => exact ih.trans (hact.conserved hno)

end Acts

section Runs

variable {env : Env} {s t : State} {h : History}

/-- **Nothing is made and nothing is lost.**  Calls without swaps, however many and in whatever
order, conserve the lamports of all accounts together and the tokens of each mint; GODL changes
as its supply does. -/
theorem conserved_of_run (hrun : Run (Step env fun ix => ¬ ix.May .swap) s h t)
    (hcalls : ∀ x ∈ h, x.label ≠ .world) : Conserved s t := by
  refine hrun.keeps (P := Conserved s) (.refl s) fun x hx hstep hbefore => ?_
  generalize hl : x.label = l at hstep
  cases hstep with
  | call hallowed hok =>
    have hacts := (processInstruction_acts env _ _ _ _ x.before).elim hok
    exact hbefore.trans (hacts.conserved hallowed)
  | world => exact absurd hl (hcalls x hx)

/-- Two players bet, the round is reset, checkpointed and closed, and all of it is conserved. -/
theorem conserved_of_run_round : ∃ h t,
    Run (Step .plain fun ix => ¬ ix.May .swap) (.table 1 25#256) h t ∧
    h.map (·.label) = ((openingBet :: roundScript).map Call.label).reverse ∧
    Conserved (.table 1 25#256) t := by
  obtain ⟨h, t, hrun, hlabels, -⟩ := exists_run_of_perform .plain
    (fun ix => ¬ ix.May .swap) (.table 1 25#256) (openingBet :: roundScript) (fun _ => true)
    (by simp [roundScript, openingBet, Call.deploy, Call.reset, Call.plain, Call.checkpoint,
      Call.close, GodlInstruction.May]) (by decide +kernel)
  exact ⟨h, t, hrun, hlabels, conserved_of_run hrun (label_ne_world hlabels)⟩

end Runs

end Godl
