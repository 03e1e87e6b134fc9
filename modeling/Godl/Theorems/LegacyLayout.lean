import Godl.Proof.LegacyLayout
import Godl.Script

/-!
# The legacy and the gold-aware instructions agree

While the legacy checkpoint and the legacy deploy are accepted, they and their gold-aware
counterparts leave the same accounts behind, and only the gold accounts can make the newer
instruction fail where the older one goes through.

## Main definitions

* `legacy_agrees` — the theorem, for every state and every list of accounts.
-/

namespace Godl

open Lib

/-- **Legacy and gold-aware instructions agree.**  Where a legacy checkpoint goes through, the
gold-aware one leaves the same state up to the extended account, or it stops at the gold
accounts.  Where a legacy deploy goes through, the gold-aware one leaves the same state up to the
extended account and the rent that the signer pays for it, or it stops at the gold accounts. -/
theorem legacy_agrees (env : Env) (clock : Clock) (cpi : Cpi) (s t : State)
    (goldVaultInfo minerExtendedInfo : AccountInfo) :
    (∀ shared, processInstruction env clock .checkpoint shared cpi s = .ok t →
      ∃ minerInfo, shared[2]? = some minerInfo ∧
        (∀ t', processInstruction env clock .checkpointWithMinerExtended
            (shared ++ [goldVaultInfo, minerExtendedInfo]) cpi s = .ok t' →
          Settled minerExtendedInfo.key t t') ∧
        ∀ e, processInstruction env clock .checkpointWithMinerExtended
            (shared ++ [goldVaultInfo, minerExtendedInfo]) cpi s = .error e →
          CheckpointFaultAt s minerInfo.key goldVaultInfo minerExtendedInfo e) ∧
    ∀ args shared entropyAccounts, shared.length = 10 →
      processInstruction env clock (.deploy args) (shared ++ entropyAccounts) cpi s = .ok t →
      ∃ signerInfo authorityInfo, shared[0]? = some signerInfo ∧
        shared[1]? = some authorityInfo ∧
        (∀ t', processInstruction env clock (.deployWithMinerExtended args)
            (shared ++ goldVaultInfo :: minerExtendedInfo :: entropyAccounts) cpi s = .ok t' →
          Financed minerExtendedInfo.key signerInfo.key
            (s.extendedRent minerExtendedInfo.key) t t') ∧
        ∀ e, processInstruction env clock (.deployWithMinerExtended args)
            (shared ++ goldVaultInfo :: minerExtendedInfo :: entropyAccounts) cpi s = .error e →
          DeployFault s authorityInfo.key goldVaultInfo minerExtendedInfo e := by
  refine ⟨fun shared hok => ?_, fun args shared entropyAccounts hlen hok => ?_⟩
  · simp only [processInstruction] at hok
    split at hok
    · next a b c d e f g h =>
      obtain ⟨_, _, hbody⟩ := bind_eq_ok.1 hok
      have hlock := checkpointBody_lockstep clock ⟨a, b, c, d, e, f, g, h⟩ goldVaultInfo
        minerExtendedInfo s
      refine ⟨c, rfl, fun t' ht' => hlock.related hbody ht', fun e he => ?_⟩
      exact hlock.fault hbody he
    · cases hok
  · simp only [processInstruction] at hok
    split at hok
    · next a b c d e f g h i j entropy heq =>
      obtain ⟨rfl, rfl⟩ := List.append_inj
        (show shared ++ entropyAccounts = [a, b, c, d, e, f, g, h, i, j] ++ entropy from heq) hlen
      obtain ⟨_, _, hbody⟩ := bind_eq_ok.1 hok
      have hlock := deployBody_lockstep clock env args ⟨a, b, c, d, e, f, g, h, i, j⟩
        goldVaultInfo minerExtendedInfo entropyAccounts cpi s
      refine ⟨a, b, rfl, rfl, fun t' ht' => hlock.related hbody ht', fun e he => ?_⟩
      exact hlock.fault hbody he
    · cases hok

/-- The gold-aware deploy of player 7. -/
def goldDeploy : Call :=
  { openingBet with
    ix := .deployWithMinerExtended ⟨1000, 3, false⟩
    accounts := openingBet.accounts.take 10 ++ .writable .goldVaultPda ::
      .writable (.minerExtendedPda (.key 7)) :: openingBet.accounts.drop 10 }

/-- The gold-aware checkpoint of player 7. -/
def goldCheckpoint : Call :=
  { Call.checkpoint 500 9 7 1 (.poolRoundPda 1) (.poolMemberPda (.key 7)) with
    ix := .checkpointWithMinerExtended
    accounts := (Call.checkpoint 500 9 7 1 (.poolRoundPda 1) (.poolMemberPda (.key 7))).accounts ++
      [.writable .goldVaultPda, .writable (.minerExtendedPda (.key 7))] }

/-- Player 7 deploys and is checkpointed, each in both ways. -/
theorem legacy_agrees_player :
    (∃ t t', processInstruction .plain openingBet.clock openingBet.ix openingBet.accounts
        openingBet.cpi (State.table 1 25#256) = .ok t ∧
      processInstruction .plain goldDeploy.clock goldDeploy.ix goldDeploy.accounts goldDeploy.cpi
        (State.table 1 25#256) = .ok t' ∧
      Financed (.minerExtendedPda (.key 7)) (.key 7)
        ((State.table 1 25#256).extendedRent (.minerExtendedPda (.key 7))) t t') ∧
    ∃ s t t', processInstruction .plain ⟨500, 0⟩ .checkpoint (goldCheckpoint.accounts.take 8)
        ⟨none, none⟩ s = .ok t ∧
      processInstruction .plain ⟨500, 0⟩ .checkpointWithMinerExtended goldCheckpoint.accounts
        ⟨none, none⟩ s = .ok t' ∧
      (t.miners.get (.minerPda (.key 7))).any (fun m => 0 < m.rewardsSol) = true ∧
      Settled (.minerExtendedPda (.key 7)) t t' := by
  constructor
  · obtain ⟨t, ht, -⟩ := exists_of_returns (show returns (processInstruction .plain
      openingBet.clock openingBet.ix openingBet.accounts openingBet.cpi (State.table 1 25#256))
      (fun _ => true) = true by decide +kernel)
    obtain ⟨t', ht', -⟩ := exists_of_returns (show returns (processInstruction .plain
      goldDeploy.clock goldDeploy.ix goldDeploy.accounts goldDeploy.cpi (State.table 1 25#256))
      (fun _ => true) = true by decide +kernel)
    obtain ⟨signerInfo, -, hsigner, -, hsame, -⟩ := (legacy_agrees .plain openingBet.clock
      openingBet.cpi (State.table 1 25#256) t (.writable .goldVaultPda)
      (.writable (.minerExtendedPda (.key 7)))).2 ⟨1000, 3, false⟩ (openingBet.accounts.take 10)
        (openingBet.accounts.drop 10) rfl ht
    cases hsigner
    exact ⟨t, t', ht, ht', hsame t' ht'⟩
  · obtain ⟨-, s, t, t', -, -, ht, ht', hP, -⟩ := exists_two_calls .plain anyInstruction
      (State.table 1 25#256) [goldDeploy, .deploy 11 8 1 500 1 true 25#256,
        .reset 400 1 (.minerPda (.key 8)) (.poolMemberPda (.key 8))]
      (.checkpoint 500 9 7 1 (.poolRoundPda 1) (.poolMemberPda (.key 7))) goldCheckpoint
      (fun _ => true) (fun t => (t.miners.get (.minerPda (.key 7))).any fun m => 0 < m.rewardsSol)
      (fun _ => true) (fun _ _ => trivial) (by decide +kernel)
    obtain ⟨_, -, hsame, -⟩ := (legacy_agrees .plain ⟨500, 0⟩ ⟨none, none⟩ s t
      (.writable .goldVaultPda) (.writable (.minerExtendedPda (.key 7)))).1
      (goldCheckpoint.accounts.take 8) ht
    exact ⟨s, t, t', ht, ht', hP, hsame t' ht'⟩

end Godl
