import Nidra.Lib.Confined
import Nidra.Persister.Worker

/-
  This file proves that the persister keeps the episode state
  of every tenant to itself.

  Key definitions include:
    * `EpisodeView`

  Main declarations:
    * `advanceHost_exec`
    * `handle_same`, `handle_unseen`
-/

namespace Nidra

namespace Persister

open TtlStore (AgreeOn)

set_option linter.unusedSectionVars false

variable {𝕜 : Type}

------------------------------------------------------------
-- The Episodes of a Tenant
------------------------------------------------------------

/- Two states have the same episode state of one tenant. -/
abbrev EpisodeView
    (tenantId : String)
    (w w' : World 𝕜) : Prop :=
  AgreeOn (fun k => k.1 = tenantId) w.ep w'.ep

section Episodes

variable {tenantId : String}

/- A state written for both reads alike again. -/
theorem withState_same
    {w w' : World 𝕜}
    (hView : EpisodeView tenantId w w')
    (hNow : w.now = w'.now)
    {key : String × String}
    (hKey : key.1 = tenantId)
    (state : HostEpisodeState 𝕜) :
    EpisodeView tenantId (w.withState key state)
      (w'.withState key state) := by
  unfold EpisodeView World.withState
  dsimp only
  rw [hNow, AgreeOn.get hView hKey]
  split_ifs
  · exact AgreeOn.delete hView key
  · exact AgreeOn.renew hView hKey _ _ _

theorem withState_unseen
    (w : World 𝕜)
    {key : String × String}
    (hKey : key.1 ≠ tenantId)
    (state : HostEpisodeState 𝕜) :
    EpisodeView tenantId w (w.withState key state) := by
  unfold EpisodeView World.withState
  dsimp only
  split_ifs
  · apply TtlStore.agreeOn_delete
    exact hKey
  · apply TtlStore.agreeOn_renew
    exact hKey

theorem stateOf_same
    {w w' : World 𝕜}
    (hView : EpisodeView tenantId w w')
    (hNow : w.now = w'.now)
    {key : String × String}
    (hKey : key.1 = tenantId) :
    w.stateOf key = w'.stateOf key := by
  unfold World.stateOf
  rw [hNow, AgreeOn.get hView hKey]

variable [Zero 𝕜] [One 𝕜] [LinearOrder 𝕜]
variable (cfg : PersisterConfig 𝕜)

/- Where an episode leads to is written and nothing else. -/
theorem advanceHost_exec
    (w : World 𝕜)
    (forecast : Forecast 𝕜)
    (tenant : Uuid)
    (peak : 𝕜)
    (state : HostEpisodeState 𝕜) :
    ((advanceHost cfg forecast tenant peak state).exec w).ep =
      match advance state (summaryOf forecast peak) cfg.rules
          w.drawn with
      | none => w.ep
      | some transition =>
          (w.withState (episodeKey forecast)
            transition.state).ep := by
  unfold advanceHost uuid4 commit
  simp only [Program.exec_bind, Program.eval_step,
    Program.exec_step, Program.exec_pure]
  cases advance state (summaryOf forecast peak) cfg.rules
      w.drawn with
  | none => rfl
  | some transition => rfl

/- Forecasts of a tenant lead states that agree alike. -/
theorem handle_same
    {w w' : World 𝕜}
    (hView : EpisodeView tenantId w w')
    (hNow : w.now = w'.now)
    (hDrawn : w.drawn = w'.drawn)
    {payload : Forecast 𝕜}
    (hTenant : payload.tenantId = tenantId) :
    EpisodeView tenantId ((handle cfg payload).exec w)
      ((handle cfg payload).exec w') := by
  unfold handle
  cases payload.check cfg.horizonK with
  | some error => exact hView
  | none =>
      dsimp only
      unfold process
      cases vet payload with
      | error error => exact hView
      | ok vetted =>
          rcases vetted with ⟨tenant, peak⟩
          dsimp only
          rw [Program.exec_bind, Program.exec_bind, readState,
            Program.eval_read, Program.eval_read,
            Program.exec_read, Program.exec_read,
            stateOf_same hView hNow hTenant]
          cases w'.stateOf (episodeKey payload) with
          | none => exact hView
          | some state =>
              unfold advanceRead EpisodeView
              dsimp only
              rw [advanceHost_exec, advanceHost_exec, hDrawn]
              cases advance state (summaryOf payload peak)
                  cfg.rules w'.drawn with
              | none => exact hView
              | some transition =>
                  exact withState_same hView hNow hTenant _

/- No other tenant sees a forecast. -/
theorem handle_unseen
    (w : World 𝕜)
    {payload : Forecast 𝕜}
    (hOther : payload.tenantId ≠ tenantId) :
    EpisodeView tenantId w ((handle cfg payload).exec w) := by
  unfold handle
  cases payload.check cfg.horizonK with
  | some error => exact TtlStore.agreeOn_refl
  | none =>
      dsimp only
      unfold process
      cases vet payload with
      | error error => exact TtlStore.agreeOn_refl
      | ok vetted =>
          rcases vetted with ⟨tenant, peak⟩
          dsimp only
          rw [Program.exec_bind, readState,
            Program.eval_read, Program.exec_read]
          cases w.stateOf (episodeKey payload) with
          | none => exact TtlStore.agreeOn_refl
          | some state =>
              unfold advanceRead EpisodeView
              dsimp only
              rw [advanceHost_exec]
              cases advance state (summaryOf payload peak)
                  cfg.rules w.drawn with
              | none => exact TtlStore.agreeOn_refl
              | some transition =>
                  exact withState_unseen w hOther _

end Episodes

end Persister

end Nidra
