import Nidra.Features.CloseScript

/-
  This file defines watchdog sweeps in which the close of a
  tenant may fail, and proves that a sweep closes the window
  of every healthy tenant that is due, when no tenant before
  it is due and fails.

  Key definitions include:
    * `closeOrRaise`, `sweepOrRaise`, `watchdogTickOrRaise`
    * `Happening`, `World.happen`
    * `SweepFair`, `FailsLast`

  Main declarations:
    * `watchdogTickOrRaise_none`
    * `swept_sweepOrRaise`
    * `sweepsFair_of_failsLast`
-/

namespace Nidra

namespace Features

set_option linter.unusedSectionVars false

variable {𝕜 : Type}
variable [Field 𝕜] [LinearOrder 𝕜] [FloorRing 𝕜]
variable [ExpLog 𝕜]
variable (cfg : FeaturesConfig)

------------------------------------------------------------
-- A sweep that may fail
------------------------------------------------------------

/-
  What a sweep did: the vectors that it emitted, the tenants
  whose window it closed, and whether it raised.
-/
structure Sweep (𝕜 : Type) where
  emitted : List (StateVector 𝕜)
  closed : List String
  raised : Bool

def Sweep.nothing : Sweep 𝕜 :=
  { emitted := []
    closed := []
    raised := false }

def Sweep.append
    (first rest : Sweep 𝕜) : Sweep 𝕜 :=
  { emitted := first.emitted ++ rest.emitted
    closed := first.closed ++ rest.closed
    raised := rest.raised }

/-
  A close that fails, if it does, after some of its effects,
  at the latest after all of them.
-/
def closeOrRaise
    (failsAt : Option ℕ)
    (tenantId : String)
    (windowTs : ℤ) :
    Program (World 𝕜) (Option (List (StateVector 𝕜))) :=
  match failsAt with
  | none => do
      let vectors ← closeWindow cfg tenantId windowTs
      return some vectors
  | some budget => do
      let _ ← (closeWindow cfg tenantId windowTs).cut budget
      return none

/- The sweep of a tenant whose close raised, or did not. -/
def Sweep.ofClose
    (tenantId : String) :
    Option (List (StateVector 𝕜)) → Sweep 𝕜
  | none =>
      { emitted := []
        closed := []
        raised := true }
  | some vectors =>
      { emitted := vectors
        closed := [tenantId]
        raised := false }

/- The turn of one tenant. -/
def sweepOrRaise
    (failsAt : Option ℕ)
    (tenantId : String) : Program (World 𝕜) (Sweep 𝕜) := do
  let current ← readOpen tenantId
  match current with
  | none => return .nothing
  | some marker =>
      let now ← readClock
      if now - marker.lastSeen < cfg.graceS then
        return .nothing
      else
        let _ ← readClock
        let vectors ←
          closeOrRaise cfg failsAt tenantId marker.windowTs
        return .ofClose tenantId vectors

/- The turns of the tenants, until one of them raises. -/
def sweepTenantsOrRaise
    (fails : String → Option ℕ) :
    List String → Program (World 𝕜) (Sweep 𝕜)
  | [] => return .nothing
  | tenantId :: rest => do
      let first ← sweepOrRaise cfg (fails tenantId) tenantId
      if first.raised then return first
      else
        let others ← sweepTenantsOrRaise fails rest
        return first.append others

/- A sweep in which the closes of some tenants fail. -/
def watchdogTickOrRaise
    (fails : String → Option ℕ) :
    Program (World 𝕜) (Sweep 𝕜) := do
  let tenants ← openTenants
  sweepTenantsOrRaise cfg fails tenants

/- Without failures the turn of a tenant is the worker's. -/
theorem sweepOrRaise_none
    (tenantId : String)
    (w : World 𝕜) :
    let swept := (sweepOrRaise cfg none tenantId).run w
    swept.2 = ((sweepTenant cfg tenantId).run w).2 ∧
      swept.1.emitted =
        ((sweepTenant cfg tenantId).run w).1 ∧
      swept.1.raised = false := by
  simp only [sweepOrRaise, sweepTenant, readOpen,
    Program.run_bind, Program.run_read]
  cases w.opened.get w.now tenantId with
  | none => exact ⟨rfl, rfl, rfl⟩
  | some marker =>
      simp only [Program.run_bind]
      split
      · exact ⟨rfl, rfl, rfl⟩
      · simp only [closeOrRaise, Program.run_bind]
        exact ⟨rfl, rfl, rfl⟩

/- Without failures a sweep is the worker's. -/
theorem watchdogTickOrRaise_none
    (w : World 𝕜) :
    (watchdogTickOrRaise cfg (fun _ => none)).exec w =
        (watchdogTick cfg).exec w ∧
      ((watchdogTickOrRaise cfg (fun _ => none)).eval
          w).emitted =
        (watchdogTick cfg).eval w := by
  have hTenants :
      ∀ (tenants : List String) (w : World 𝕜),
        let swept :=
          (sweepTenantsOrRaise cfg (fun _ => none)
            tenants).run w
        swept.2 = ((sweepTenants cfg tenants).run w).2 ∧
          swept.1.emitted =
            ((sweepTenants cfg tenants).run w).1 := by
    intro tenants
    induction tenants with
    | nil =>
        intro w
        exact ⟨rfl, rfl⟩
    | cons tenantId rest ih =>
        intro w
        rcases sweepOrRaise_none cfg tenantId w with
          ⟨hState, hEmitted, hCalm⟩
        simp only [sweepTenantsOrRaise, sweepTenants,
          Program.run_bind]
        rw [hCalm, if_neg Bool.false_ne_true, hState]
        rcases ih ((sweepTenant cfg tenantId).run w).2 with
          ⟨hStates, hOthers⟩
        simp only [Program.run_bind, Program.run_pure]
        exact
          ⟨hStates, congrArg₂ (· ++ ·) hEmitted hOthers⟩
  exact hTenants _ w

------------------------------------------------------------
-- The turn of one tenant
------------------------------------------------------------

/- Acts on a window of one tenant leave the others open. -/
theorem opened_after
    {tenantId other : String}
    (hNe : other ≠ tenantId)
    (windowTs : ℤ)
    (acts : List (CloseAct 𝕜))
    (w : World 𝕜)
    (time : ℚ) :
    (w.after cfg tenantId windowTs acts).opened.get time
        other =
      w.opened.get time other := by
  induction acts generalizing w with
  | nil => rfl
  | cons act acts ih =>
      have hNext := ih (act.apply cfg tenantId windowTs w)
      refine hNext.trans ?_
      cases act with
      | cleared => exact TtlStore.get_delete_ne _ _ hNe
      | _ => rfl

/- A close gets through some of its acts, failing or not. -/
theorem exec_closeOrRaise
    (failsAt : Option ℕ)
    (tenantId : String)
    (windowTs : ℤ)
    (w : World 𝕜) :
    ∃ acts,
      (closeOrRaise cfg failsAt tenantId windowTs).exec w =
        w.after cfg tenantId windowTs acts := by
  cases failsAt with
  | none =>
      refine ⟨closeScript cfg tenantId windowTs w, ?_⟩
      simp only [closeOrRaise, Program.exec_bind,
        Program.exec_pure]
      rw [Program.exec_eq_applyAll, trace_closeWindow,
        applyAll_map]
  | some budget =>
      refine
        ⟨(closeScript cfg tenantId windowTs w).take budget, ?_⟩
      simp only [closeOrRaise, Program.exec_bind,
        Program.exec_pure]
      rw [Program.exec_cut, Program.attempt_eq_applyAll,
        trace_closeWindow, ← List.map_take, applyAll_map]

/- What a close answers. -/
theorem eval_closeOrRaise
    (failsAt : Option ℕ)
    (tenantId : String)
    (windowTs : ℤ)
    (w : World 𝕜) :
    ((closeOrRaise cfg failsAt tenantId windowTs).eval
      w).isSome = failsAt.isNone := by
  cases failsAt <;> simp [closeOrRaise]

theorem eval_readClock
    (w : World 𝕜) :
    readClock.eval w = (readClock.exec w).now := by
  simp only [readClock, Program.eval_step, Program.exec_step]
  cases w.readings <;> rfl

/-
  The turn of a tenant takes time and leaves the others as
  they are. It leaves the tenant, whose window is not open or
  whose grace is not over; or it closes the window; or the
  close raises.
-/
structure Swept
    (w : World 𝕜)
    (tenantId : String)
    (failsAt : Option ℕ)
    (swept : Sweep 𝕜)
    (w' : World 𝕜) : Prop where
  now : w.now ≤ w'.now
  others :
    ∀ other, other ≠ tenantId → ∀ time,
      w'.opened.get time other = w.opened.get time other
  raised :
    swept.raised = true →
      failsAt ≠ none ∧
        ∃ marker,
          w.opened.get w.now tenantId = some marker ∧
            cfg.graceS ≤ w'.now - marker.lastSeen
  closed :
    failsAt = none →
      ∀ marker, w.opened.get w.now tenantId = some marker →
        cfg.graceS ≤ w.now - marker.lastSeen →
          tenantId ∈ swept.closed

theorem swept_sweepOrRaise
    (w : World 𝕜)
    (tenantId : String)
    (failsAt : Option ℕ) :
    Swept cfg w tenantId failsAt
      ((sweepOrRaise cfg failsAt tenantId).eval w)
      ((sweepOrRaise cfg failsAt tenantId).exec w) := by
  simp only [sweepOrRaise, readOpen, Program.exec_bind,
    Program.eval_bind, Program.eval_read, Program.exec_read]
  cases hOpen : w.opened.get w.now tenantId with
  | none =>
      simp only [Program.exec_pure, Program.eval_pure]
      refine
        { now := le_rfl
          others := fun _ _ _ => rfl
          raised := ?_
          closed := ?_ }
      · intro hRaised
        cases hRaised
      · intro _ marker hMarker
        rw [hOpen] at hMarker
        cases hMarker
  | some marker =>
      simp only [Program.exec_bind, Program.eval_bind,
        eval_readClock]
      rcases readClock_exec w with ⟨hNow, hOpened, _⟩
      by_cases hEarly :
          (readClock.exec w).now - marker.lastSeen < cfg.graceS
      · simp only [hEarly, if_true, Program.exec_pure,
          Program.eval_pure]
        refine
          { now := hNow
            others := ?_
            raised := ?_
            closed := ?_ }
        · intro other _ time
          rw [hOpened]
        · intro hRaised
          cases hRaised
        · intro _ marker' hMarker hDue
          rw [hOpen] at hMarker
          cases hMarker
          linarith
      · simp only [hEarly, if_false, Program.exec_bind,
          Program.eval_bind, Program.exec_pure,
          Program.eval_pure]
        rcases readClock_exec (readClock.exec w) with
          ⟨hNow₂, hOpened₂, _⟩
        rcases exec_closeOrRaise cfg failsAt tenantId
            marker.windowTs
            (readClock.exec (readClock.exec w)) with
          ⟨acts, hActs⟩
        have hAnswer :=
          eval_closeOrRaise cfg failsAt tenantId
            marker.windowTs
            (readClock.exec (readClock.exec w))
        rw [hActs]
        refine
          { now := ?_
            others := ?_
            raised := ?_
            closed := ?_ }
        · rw [now_after]
          exact hNow.trans hNow₂
        · intro other hNe time
          rw [opened_after cfg hNe, hOpened₂, hOpened]
        · intro hRaised
          rw [now_after]
          refine ⟨?_, marker, hOpen, by linarith⟩
          rintro rfl
          rcases Option.isSome_iff_exists.mp hAnswer with
            ⟨vectors, hVectors⟩
          rw [hVectors] at hRaised
          cases hRaised
        · rintro rfl _ _ _
          rcases Option.isSome_iff_exists.mp hAnswer with
            ⟨vectors, hVectors⟩
          rw [hVectors]
          exact List.mem_singleton.mpr rfl

------------------------------------------------------------
-- The turns of all tenants
------------------------------------------------------------

/- A sweep takes the tenants that it finds by turns. -/
theorem run_watchdogTickOrRaise
    (fails : String → Option ℕ)
    (w : World 𝕜) :
    (watchdogTickOrRaise cfg fails).run w =
      (sweepTenantsOrRaise cfg fails (openTenants.eval w)).run
        w := by
  simp only [watchdogTickOrRaise, Program.run_bind]
  rfl

/- A sweep takes time. -/
theorem now_le_sweepTenantsOrRaise
    (fails : String → Option ℕ)
    (tenants : List String)
    (w : World 𝕜) :
    w.now ≤
      ((sweepTenantsOrRaise cfg fails tenants).exec w).now := by
  induction tenants generalizing w with
  | nil => exact le_rfl
  | cons tenantId rest ih =>
      have hFirst :=
        (swept_sweepOrRaise cfg w tenantId (fails tenantId)).now
      simp only [sweepTenantsOrRaise, Program.exec_bind]
      split
      · exact hFirst
      · simp only [Program.exec_bind, Program.exec_pure]
        exact hFirst.trans (ih _)

/-
  A healthy tenant that is due, and whose marker does not
  expire before the sweep ends, is closed when no tenant that
  comes before it is due by then and fails.
-/
theorem mem_closed_of_due
    (fails : String → Option ℕ)
    {tenantId : String}
    (hHealthy : fails tenantId = none)
    {tenants : List String}
    (hSorted : tenants.Pairwise (· < ·))
    (hMem : tenantId ∈ tenants)
    {w : World 𝕜}
    {later : ℚ}
    (hLater :
      ((sweepTenantsOrRaise cfg fails tenants).exec w).now ≤
        later)
    {marker : OpenMarker}
    (hOpen : w.opened.get later tenantId = some marker)
    (hDue : cfg.graceS ≤ w.now - marker.lastSeen)
    (hBefore :
      ∀ other ∈ tenants, other < tenantId →
        fails other ≠ none →
          ∀ marker, w.opened.get w.now other = some marker →
            later - marker.lastSeen < cfg.graceS) :
    tenantId ∈
      ((sweepTenantsOrRaise cfg fails tenants).eval
        w).closed := by
  induction tenants generalizing w with
  | nil => cases hMem
  | cons first rest ih =>
      have hEnd :=
        (now_le_sweepTenantsOrRaise cfg fails (first :: rest)
          w).trans hLater
      have hSwept :=
        swept_sweepOrRaise cfg w first (fails first)
      simp only [sweepTenantsOrRaise, Program.exec_bind,
        Program.eval_bind] at hLater ⊢
      generalize
        (sweepOrRaise cfg (fails first) first).eval w = swept
          at hSwept hLater ⊢
      generalize
        (sweepOrRaise cfg (fails first) first).exec w = w₁
          at hSwept hLater ⊢
      rcases List.pairwise_cons.mp hSorted with
        ⟨hFirst, hRest⟩
      rcases List.mem_cons.mp hMem with rfl | hMemRest
      · have hClosed :=
          hSwept.closed hHealthy marker
            (TtlStore.get_of_get_later hEnd hOpen) hDue
        split
        · exact hClosed
        · simp only [Program.eval_bind, Program.eval_pure]
          exact List.mem_append_left _ hClosed
      · have hEarlier := hFirst tenantId hMemRest
        by_cases hRaised : swept.raised = true
        · rcases hSwept.raised hRaised with
            ⟨hFails, marker', hOpen', hOver⟩
          rw [if_pos hRaised] at hLater
          have hCalm :=
            hBefore first List.mem_cons_self hEarlier hFails
              marker' hOpen'
          simp only [Program.exec_pure] at hLater
          linarith
        · rw [if_neg hRaised] at hLater ⊢
          simp only [Program.exec_bind, Program.eval_bind,
            Program.exec_pure, Program.eval_pure]
            at hLater ⊢
          apply List.mem_append_right
          have hNow := hSwept.now
          apply ih hRest hMemRest hLater
          · rw [hSwept.others tenantId hEarlier.ne']
            exact hOpen
          · linarith
          · intro other hOther hLess hFails marker' hOpen'
            have hNe : other ≠ first :=
              (hFirst other hOther).ne'
            rw [hSwept.others other hNe] at hOpen'
            exact
              hBefore other (List.mem_cons_of_mem _ hOther)
                hLess hFails marker'
                (TtlStore.get_of_get_later hNow hOpen')

theorem openTenants_sorted
    (w : World 𝕜) :
    (openTenants.eval w).Pairwise (· < ·) := by
  have hPerm :
      (openTenants.eval w).Perm (w.opened.liveKeys w.now) :=
    List.mergeSort_perm _ _
  have hNodup : (openTenants.eval w).Nodup :=
    hPerm.nodup_iff.mpr (TtlStore.nodup_liveKeys _ _)
  have hOrdered :
      (openTenants.eval w).Pairwise (· ≤ ·) := by
    have hSorted :
        (openTenants.eval w).Pairwise
          (fun a b => decide (a ≤ b) = true) :=
      List.pairwise_mergeSort
        (fun a b c hAB hBC => by
          simp only [decide_eq_true_eq] at hAB hBC ⊢
          exact le_trans hAB hBC)
        (fun a b => by
          simp only [Bool.or_eq_true, decide_eq_true_eq]
          exact le_total a b)
        (w.opened.liveKeys w.now)
    simp only [decide_eq_true_eq] at hSorted
    exact hSorted
  exact
    (hOrdered.and hNodup).imp
      (fun hBoth => lt_of_le_of_ne hBoth.1 hBoth.2)

/- The open tenants in the order of their names. -/
theorem openTenants_eq
    {w : World 𝕜}
    {tenants : List String}
    (hSorted : tenants.Pairwise (· < ·))
    (hPerm : tenants.Perm (w.opened.liveKeys w.now)) :
    openTenants.eval w = tenants := by
  have hOpen :
      (openTenants.eval w).Perm (w.opened.liveKeys w.now) :=
    List.mergeSort_perm _ _
  exact
    (hOpen.trans hPerm.symm).eq_of_pairwise
      (fun a b _ _ hAB hBA => absurd hAB (lt_asymm hBA))
      (openTenants_sorted w) hSorted

------------------------------------------------------------
-- Every run
------------------------------------------------------------

/- Time passes, an event is handled, or the tenants swept. -/
inductive Happening (𝕜 : Type) where
  | wait (time : ℚ)
  | ingest (event : RawEvent 𝕜)
  | sweep (fails : String → Option ℕ)

def World.happen
    (w : World 𝕜) : Happening 𝕜 → World 𝕜
  | .wait time => w.wait time
  | .ingest event => (ingestEvent cfg event).exec w
  | .sweep fails => (watchdogTickOrRaise cfg fails).exec w

/- A tenant whose window is open, and its grace over. -/
def Due
    (w : World 𝕜)
    (time : ℚ)
    (tenantId : String) : Prop :=
  ∃ marker,
    w.opened.get w.now tenantId = some marker ∧
      cfg.graceS ≤ time - marker.lastSeen

instance
    (w : World 𝕜)
    (time : ℚ)
    (tenantId : String) :
    Decidable (Due cfg w time tenantId) :=
  decidable_of_iff
    ((w.opened.get w.now tenantId).any (fun marker =>
      decide (cfg.graceS ≤ time - marker.lastSeen)) = true)
    (by
      simp only [Option.any_eq_true, decide_eq_true_eq]
      rfl)

/-
  A sweep closes the window of every tenant that is due and
  whose close does not fail, if its marker does not expire
  before the sweep ends.
-/
def SweepFair (w : World 𝕜) : Happening 𝕜 → Prop
  | .wait _ => True
  | .ingest _ => True
  | .sweep fails =>
      ∀ tenantId,
        fails tenantId = none →
          Due cfg w w.now tenantId →
            (w.opened.get
              ((watchdogTickOrRaise cfg fails).exec w).now
                tenantId).isSome →
              tenantId ∈
                ((watchdogTickOrRaise cfg fails).eval w).closed

/-
  A tenant whose close fails, and that is due by the time the
  sweep ends, comes after every healthy tenant that is due.
-/
def FailsLast (w : World 𝕜) : Happening 𝕜 → Prop
  | .wait _ => True
  | .ingest _ => True
  | .sweep fails =>
      ∀ healthy failing,
        fails healthy = none → Due cfg w w.now healthy →
          fails failing ≠ none →
            Due cfg w
                ((watchdogTickOrRaise cfg fails).exec w).now
                failing →
              healthy < failing

theorem sweepFair_of_failsLast
    (w : World 𝕜)
    (happening : Happening 𝕜)
    (hLast : FailsLast cfg w happening) :
    SweepFair cfg w happening := by
  cases happening with
  | wait time => trivial
  | ingest event => trivial
  | sweep fails =>
      intro tenantId hHealthy hDue hLive
      rcases hDue with ⟨marker, hOpen, hOver⟩
      rcases Option.isSome_iff_exists.mp hLive with
        ⟨marker', hLater⟩
      have hEnd :
          w.now ≤
            ((watchdogTickOrRaise cfg fails).exec w).now :=
        now_le_sweepTenantsOrRaise cfg fails _ w
      have hSame :=
        (TtlStore.get_of_get_later hEnd hLater).symm.trans
          hOpen
      cases hSame
      have hMem :=
        (mem_openTenants w tenantId).mpr
          (Option.isSome_of_eq_some hOpen)
      apply
        mem_closed_of_due cfg fails hHealthy
          (openTenants_sorted w) hMem le_rfl hLater hOver
      intro other _ hLess hFails marker' hOpen'
      by_contra hCalm
      have hAfter :=
        hLast tenantId other hHealthy ⟨marker, hOpen, hOver⟩
          hFails ⟨marker', hOpen', not_lt.mp hCalm⟩
      exact lt_asymm hLess hAfter

/-
  Every sweep of a run is fair when in each of them the
  tenants whose close fails come last.
-/
theorem sweepsFair_of_failsLast
    (w : World 𝕜)
    (happenings : List (Happening 𝕜))
    (hAll :
      AllAlong (World.happen cfg) (FailsLast cfg) w
        happenings) :
    AllAlong (World.happen cfg) (SweepFair cfg) w
      happenings :=
  AllAlong.imp_of_invariant (fun _ => True)
    (fun w happening _ hLast =>
      ⟨sweepFair_of_failsLast cfg w happening hLast, trivial⟩)
    trivial hAll

------------------------------------------------------------
-- Two runs
------------------------------------------------------------

section Examples

local instance exampleExpLog : ExpLog ℚ := ExpLog.tangent

/- A packet of a tenant. -/
def packetOf (tenantId : String) : RawEvent ℚ :=
  { packetAt 0 with tenantId := tenantId }

/- The close of one tenant fails after two of its effects. -/
def failingTenant
    (failing tenantId : String) : Option ℕ :=
  if tenantId = failing then some 2 else none

/- Both tenants have an open window, and fall silent. -/
def twoTenants (failing : String) : List (Happening ℚ) :=
  [.ingest (packetOf "acme"), .ingest (packetOf "zeta"),
    .wait 10, .sweep (failingTenant failing)]

/- What the sweep of the run finds. -/
def bothSilent : World ℚ :=
  (((World.start 0 []).happen minuteWindows
      (.ingest (packetOf "acme"))).happen minuteWindows
        (.ingest (packetOf "zeta"))).happen minuteWindows
          (.wait 10)

theorem openTenants_bothSilent :
    openTenants.eval bothSilent = ["acme", "zeta"] := by
  apply openTenants_eq
  · decide +kernel
  · decide +kernel

theorem sweepsFair_lastFails :
    AllAlong (World.happen minuteWindows)
      (SweepFair minuteWindows) (World.start 0 [])
      (twoTenants "zeta") := by
  apply sweepsFair_of_failsLast
  refine ⟨trivial, trivial, trivial, ?_, trivial⟩
  intro healthy failing hHealthy hDue hFails _
  rcases hDue with ⟨marker, hOpen, _⟩
  have hMem : healthy ∈ openTenants.eval bothSilent :=
    (mem_openTenants bothSilent healthy).mpr
      (Option.isSome_of_eq_some hOpen)
  have hLast : failing = "zeta" := by
    by_contra hOther
    exact hFails (if_neg hOther)
  subst hLast
  simp only [openTenants_bothSilent, List.mem_cons,
    List.not_mem_nil, or_false] at hMem
  rcases hMem with rfl | rfl
  · decide +kernel
  · cases hHealthy

/- The first tenant's failure leaves the second one's open. -/
theorem not_sweepsFair_firstFails :
    ¬ AllAlong (World.happen minuteWindows)
      (SweepFair minuteWindows) (World.start 0 [])
      (twoTenants "acme") := by
  rintro ⟨_, _, _, hFair, _⟩
  have hSweep :
      (watchdogTickOrRaise minuteWindows
          (failingTenant "acme")).run bothSilent =
        (sweepTenantsOrRaise minuteWindows
          (failingTenant "acme") ["acme", "zeta"]).run
            bothSilent := by
    rw [run_watchdogTickOrRaise, openTenants_bothSilent]
  have hDue :
      Due minuteWindows bothSilent bothSilent.now "zeta" := by
    decide +kernel
  have hLive :
      (bothSilent.opened.get
        ((watchdogTickOrRaise minuteWindows
          (failingTenant "acme")).exec bothSilent).now
            "zeta").isSome := by
    rw [Program.exec, hSweep]
    decide +kernel
  have hClosed : "zeta" ∈ _ :=
    hFair "zeta" (by decide) hDue hLive
  have hNone :
      ((watchdogTickOrRaise minuteWindows
        (failingTenant "acme")).eval bothSilent).closed =
          [] := by
    rw [Program.eval, hSweep]
    decide +kernel
  exact absurd (hNone ▸ hClosed) List.not_mem_nil

end Examples

end Features

end Nidra
