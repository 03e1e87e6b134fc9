import Godl.Theorems.Custody

/-!
# Privileges

An instruction writes what its rights allow and leaves the rest of the state as it is: stakes
are untouched by the game, miners by staking, and the config by everything but administration.
The vaults that belong to records keep their tokens with them.

## Main definitions

* `SettingsKept` — what only the admin changes.

## Main results

* `untouched_of_call` — every instruction touches what its rights allow.
* `config_of_run` — without the admin the config stays.
-/

namespace Godl

open Lib

/-- **Every instruction touches what its rights allow**, whatever accounts it is handed. -/
theorem untouched_of_call (env : Env) (clock : Clock) (ix : GodlInstruction)
    (accounts : List AccountInfo) (cpi : Cpi) (s : State) :
    Holds (Untouched ix.May s) (processInstruction env clock ix accounts cpi s) :=
  Ensures.mono (processInstruction_acts env clock ix accounts cpi s) fun _ hacts =>
    hacts.untouched fun _ => signers_isKeypair

/-! ## Administration -/

/-- What only the admin changes. -/
structure SettingsKept (s s' : State) : Prop where
  config : s'.config = s.config
  configResized : s'.configResized = s.configResized
  mintAuthority : s'.mintAuthority = s.mintAuthority

section Settings

variable {signs : Pubkey → Prop} {R : Right → Prop} {env : Env} {s s' s'' t : State} {h : History}

theorem SettingsKept.refl (s : State) : SettingsKept s s := ⟨rfl, rfl, rfl⟩

theorem SettingsKept.trans (h : SettingsKept s s') (h' : SettingsKept s' s'') :
    SettingsKept s s'' :=
  ⟨h'.config.trans h.config, h'.configResized.trans h.configResized,
    h'.mintAuthority.trans h.mintAuthority⟩

/-- Without the admin an act keeps the settings, once there are any. -/
theorem Act.settings (h : Act signs R s s') (hopened : s.opened .config = true)
    (hno : ¬ signs s.config.admin) : SettingsKept s s' ∧ s'.opened .config = true := by
  cases h with
  | transfer _ hok =>
    obtain ⟨tok, rfl, -⟩ := (s.transferTokens_spec _ _ _).elim hok
    exact ⟨⟨rfl, rfl, rfl⟩, hopened⟩
  | burn _ hok =>
    obtain ⟨tok, rfl, -⟩ := (s.burnTokens_spec _ _).elim hok
    exact ⟨⟨rfl, rfl, rfl⟩, hopened⟩
  | mint _ hok =>
    obtain ⟨tok, rfl, -⟩ := (s.mintGodl_spec _ _).elim hok
    exact ⟨⟨rfl, rfl, rfl⟩, hopened⟩
  | openSingleton w =>
    have hconfig : Function.update s.opened w true .config = true := by
      by_cases hw : Singleton.config = w
      · rw [hw, Function.update_self]
      · rw [Function.update_of_ne hw, hopened]
    exact ⟨⟨rfl, rfl, rfl⟩, hconfig⟩
  | config _ c resized hsign =>
    rcases hsign with hsign | ⟨hclosed, -⟩
    · exact absurd hsign hno
    · rw [hopened] at hclosed
      cases hclosed
  | mintAuthority _ k hsign => exact absurd hsign hno
  | _ => exact ⟨⟨rfl, rfl, rfl⟩, hopened⟩

theorem Acts.settings (h : Acts signs R s s') (hopened : s.opened .config = true)
    (hno : ¬ signs s.config.admin) : SettingsKept s s' ∧ s'.opened .config = true := by
  induction h with
  | refl => exact ⟨.refl s, hopened⟩
  | tail _ hact ih =>
    obtain ⟨hkept, hopened'⟩ := ih
    obtain ⟨hkept', hopened''⟩ := hact.settings hopened' (hkept.config ▸ hno)
    exact ⟨hkept.trans hkept', hopened''⟩

/-- **Only the admin governs.**  In a run in which the admin of its first state signs nothing, the
config stays as it is, and so does the mint authority unless another program hands it over. -/
theorem config_of_run (hrun : Run (Step env anyInstruction) s h t)
    (hopened : s.opened .config = true) (hno : ¬ h.signers s.config.admin) :
    t.config = s.config ∧ t.configResized = s.configResized ∧
      ((∀ x ∈ h, x.label ≠ .world) → t.mintAuthority = s.mintAuthority) := by
  have hlast : t.config = s.config ∧ t.configResized = s.configResized ∧
      t.opened .config = true ∧
      ((∀ x ∈ h, x.label ≠ .world) → t.mintAuthority = s.mintAuthority) := by
    refine hrun.keeps (P := fun u => u.config = s.config ∧ u.configResized = s.configResized ∧
      u.opened .config = true ∧ ((∀ x ∈ h, x.label ≠ .world) → u.mintAuthority = s.mintAuthority))
      ⟨rfl, rfl, hopened, fun _ => rfl⟩ ?_
    rintro x hx hstep ⟨hconfig, hresized, hopen, hmint⟩
    have hno' : ¬ x.label.signers x.before.config.admin := by
      rw [hconfig]
      exact fun hsign => hno ⟨x, hx, hsign⟩
    generalize hl : x.label = l at hstep hno'
    cases hstep with
    | call _ hok =>
      have hacts := (processInstruction_acts env _ _ _ _ x.before).elim hok
      obtain ⟨hkept, hopen'⟩ := hacts.settings hopen hno'
      exact ⟨hkept.config.trans hconfig, hkept.configResized.trans hresized, hopen',
        fun hcalls => hkept.mintAuthority.trans (hmint hcalls)⟩
    | world hworld =>
      rw [hworld.accounts]
      exact ⟨hconfig, hresized, hopen, fun hcalls => absurd hl (hcalls x hx)⟩
  obtain ⟨hconfig, hresized, -, hmint⟩ := hlast
  exact ⟨hconfig, hresized, hmint⟩

/-- While others play, the config stays. -/
theorem config_of_run_won : ∃ h t, Run (Step .plain anyInstruction) (.won 1 25#256) h t ∧
    h.map (·.label) = (otherPlayers.map Call.label).reverse ∧
    t.config = (State.won 1 25#256).config ∧ t.configResized = (State.won 1 25#256).configResized ∧
    ((∀ x ∈ h, x.label ≠ .world) → t.mintAuthority = (State.won 1 25#256).mintAuthority) := by
  obtain ⟨h, t, hrun, hlabels, hsigners⟩ := exists_run_otherPlayers
  have hno : ¬ History.signers h (.key 3) :=
    fun hsign => absurd (hsigners (.key 3) hsign) (by decide)
  exact ⟨h, t, hrun, hlabels, config_of_run hrun rfl hno⟩

end Settings

end Godl
