import Nidra.Features.Worker
import Nidra.Lib.Confined

/-
  This file proves that the features worker keeps every
  tenant to itself: what is done for one tenant depends on
  the state of that tenant only, and is not seen in the state
  of any other.

  Key definitions include:
    * `TenantView`, `Synced`
    * `ForTenant`
    * `Clock`, `sweepAll`, `tickAt`

  Main declarations:
    * `forTenant_closeWindow`
    * `forTenant_ingestEvent`, `forTenant_sweepTenant`
    * `tickAt_view`
    * `exists_clock_watchdogTick`
-/

namespace Nidra

namespace Features

open TtlStore (AgreeOn)

set_option linter.unusedSectionVars false

variable {𝕜 : Type}

------------------------------------------------------------
-- The State of a Tenant
------------------------------------------------------------

/- The tenant that a record is about. -/
def Record.tenantId : Record 𝕜 → String
  | .published vector => vector.tenantId
  | .folded event _ => event.tenantId

/- The records about one tenant, in their order. -/
def World.logOf
    (w : World 𝕜)
    (tenantId : String) : List (Record 𝕜) :=
  w.log.filter (fun record => record.tenantId = tenantId)

def World.storedOf
    (w : World 𝕜)
    (tenantId : String) : List (StateVector 𝕜) :=
  w.stored.filter (fun row => row.tenantId = tenantId)

/- Two states have the same of one tenant. -/
structure TenantView
    (tenantId : String)
    (w w' : World 𝕜) : Prop where
  opened :
    AgreeOn (fun k => k = tenantId) w.opened w'.opened
  hosts : AgreeOn (fun k => k.1 = tenantId) w.hosts w'.hosts
  windows :
    AgreeOn (fun k => k.1 = tenantId) w.windows w'.windows
  graphs : AgreeOn (fun k => k.1 = tenantId) w.graphs w'.graphs
  peers : AgreeOn (fun k => k.1 = tenantId) w.peers w'.peers
  prev : AgreeOn (fun k => k.1 = tenantId) w.prev w'.prev
  stored : w.storedOf tenantId = w'.storedOf tenantId
  log : w.logOf tenantId = w'.logOf tenantId

/- What is the same of a tenant, at the same clock. -/
structure Synced
    (tenantId : String)
    (w w' : World 𝕜) : Prop extends
    TenantView tenantId w w' where
  now : w.now = w'.now
  readings : w.readings = w'.readings

section Views

variable {tenantId : String}

@[simp] theorem TenantView.refl
    (w : World 𝕜) :
    TenantView tenantId w w where
  opened := TtlStore.agreeOn_refl
  hosts := TtlStore.agreeOn_refl
  windows := TtlStore.agreeOn_refl
  graphs := TtlStore.agreeOn_refl
  peers := TtlStore.agreeOn_refl
  prev := TtlStore.agreeOn_refl
  stored := rfl
  log := rfl

theorem TenantView.symm
    {w w' : World 𝕜}
    (hView : TenantView tenantId w w') :
    TenantView tenantId w' w where
  opened := hView.opened.symm
  hosts := hView.hosts.symm
  windows := hView.windows.symm
  graphs := hView.graphs.symm
  peers := hView.peers.symm
  prev := hView.prev.symm
  stored := hView.stored.symm
  log := hView.log.symm

theorem TenantView.trans
    {w w' w'' : World 𝕜}
    (hFirst : TenantView tenantId w w')
    (hSecond : TenantView tenantId w' w'') :
    TenantView tenantId w w'' where
  opened := hFirst.opened.trans hSecond.opened
  hosts := hFirst.hosts.trans hSecond.hosts
  windows := hFirst.windows.trans hSecond.windows
  graphs := hFirst.graphs.trans hSecond.graphs
  peers := hFirst.peers.trans hSecond.peers
  prev := hFirst.prev.trans hSecond.prev
  stored := hFirst.stored.trans hSecond.stored
  log := hFirst.log.trans hSecond.log

end Views

/- The other tenants have what they had. -/
def OthersKept
    (tenantId : String)
    (w w' : World 𝕜) : Prop :=
  ∀ other, other ≠ tenantId → TenantView other w w'

/- A program that keeps to the state of one tenant. -/
abbrev ForTenant
    {α : Type}
    (tenantId : String)
    (p : Program (World 𝕜) α) : Prop :=
  p.Confined (Synced tenantId) (OthersKept tenantId)

section Rules

variable {α β : Type}
variable {tenantId : String}

theorem forTenant_pure (a : α) :
    ForTenant tenantId (pure a : Program (World 𝕜) α) :=
  Program.confined_pure
    (fun w _ _ => TenantView.refl w) a

theorem ForTenant.bind
    {p : Program (World 𝕜) α}
    {f : α → Program (World 𝕜) β}
    (hP : ForTenant tenantId p)
    (hF : ∀ a, ForTenant tenantId (f a)) :
    ForTenant tenantId (p >>= f) := by
  apply Program.Confined.bind _ hP hF
  intro w w' w'' hFirst hSecond other hOther
  exact (hFirst other hOther).trans (hSecond other hOther)

theorem forTenant_read
    {f : World 𝕜 → α}
    (hSame : ∀ w w', Synced tenantId w w' → f w = f w') :
    ForTenant tenantId (Program.read f) :=
  Program.confined_read (fun w _ _ => TenantView.refl w) hSame

theorem forTenant_write
    {f : World 𝕜 → World 𝕜}
    (hSame :
      ∀ w w', Synced tenantId w w' →
        Synced tenantId (f w) (f w'))
    (hUnseen : ∀ w, OthersKept tenantId w (f w)) :
    ForTenant tenantId (Program.write f) :=
  Program.confined_write hSame hUnseen

end Rules

------------------------------------------------------------
-- Effects for One Tenant
------------------------------------------------------------

section Effects

variable (tenantId : String)

/- The clock belongs to no tenant. -/
theorem TenantView.clock
    (w : World 𝕜)
    (now : ℚ)
    (readings : List ℚ) :
    TenantView tenantId w
      { w with now := now, readings := readings } :=
  { TenantView.refl w with }

theorem forTenant_readClock :
    ForTenant tenantId (readClock : Program (World 𝕜) ℚ) := by
  apply Program.confined_step
  · intro w w' hSynced
    rw [hSynced.readings, hSynced.now]
    cases w'.readings with
    | nil => exact ⟨rfl, hSynced⟩
    | cons reading rest =>
        exact ⟨rfl,
          { hSynced with
            now := rfl
            readings := rfl }⟩
  · intro w other _
    cases w.readings with
    | nil => exact TenantView.refl w
    | cons reading rest => exact TenantView.clock other w _ _

theorem forTenant_readOpen :
    ForTenant tenantId
      (readOpen tenantId :
        Program (World 𝕜) (Option OpenMarker)) := by
  apply forTenant_read
  intro w w' hSynced
  rw [hSynced.now, hSynced.opened.get rfl]

theorem forTenant_readHosts
    (windowTs : ℤ) :
    ForTenant tenantId
      (readHosts tenantId windowTs :
        Program (World 𝕜) (List String)) := by
  apply forTenant_read
  intro w w' hSynced
  rw [hSynced.now, hSynced.hosts.get rfl]

theorem forTenant_readEdges
    (windowTs : ℤ) :
    ForTenant tenantId
      (readEdges tenantId windowTs :
        Program (World 𝕜) (List (String × String))) := by
  apply forTenant_read
  intro w w' hSynced
  rw [hSynced.now, hSynced.graphs.get rfl]

theorem forTenant_readWindow
    (host : String)
    (windowTs : ℤ) :
    ForTenant tenantId
      (readWindow tenantId host windowTs :
        Program (World 𝕜) (Tally (WindowField 𝕜) 𝕜)) := by
  apply forTenant_read
  intro w w' hSynced
  rw [hSynced.now, hSynced.windows.get rfl]

theorem forTenant_readHistory
    (host : String) :
    ForTenant tenantId
      (readHistory tenantId host :
        Program (World 𝕜)
          (Option ℤ × List (Tracked 𝕜))) := by
  apply forTenant_read
  intro w w' hSynced
  rw [hSynced.now, hSynced.prev.get rfl]

theorem forTenant_clearOpen
    (windowTs : ℤ) :
    ForTenant tenantId
      (clearOpen tenantId windowTs :
        Program (World 𝕜) Bool) := by
  apply (forTenant_readOpen tenantId).bind
  intro current
  cases current with
  | none => exact forTenant_pure false
  | some marker =>
      dsimp only
      split_ifs
      · exact forTenant_pure false
      · apply Program.confined_step
        · intro w w' hSynced
          exact ⟨rfl,
            { hSynced with
              opened := hSynced.opened.delete tenantId }⟩
        · intro w other hOther
          exact
            { TenantView.refl w with
              opened :=
                TtlStore.agreeOn_delete hOther.symm }

theorem forTenant_writeHistory
    (host : String)
    (lastTs : ℤ)
    (history : List (Tracked 𝕜)) :
    ForTenant tenantId
      (writeHistory tenantId host lastTs history) := by
  apply ForTenant.bind
  · apply forTenant_write
    · intro w w' hSynced
      exact
        { hSynced with
          prev := by
            dsimp only
            rw [hSynced.now]
            exact hSynced.prev.put rfl _ _ }
    · intro w other hOther
      exact
        { TenantView.refl w with
          prev := by
            apply TtlStore.agreeOn_put
            exact hOther.symm }
  · intro _
    apply forTenant_write
    · intro w w' hSynced
      exact
        { hSynced with
          prev := by
            dsimp only
            rw [hSynced.now]
            exact hSynced.prev.expire rfl _ _ }
    · intro w other hOther
      exact
        { TenantView.refl w with
          prev := by
            apply TtlStore.agreeOn_expire
            exact hOther.symm }

theorem forTenant_recordPeers
    (host : String)
    (peers : Finset String) :
    ForTenant tenantId
      (recordPeers tenantId host peers :
        Program (World 𝕜) ℕ) := by
  have hRenewal :
      ForTenant tenantId
        (Program.write (fun w : World 𝕜 =>
          { w with
            peers :=
              w.peers.expire w.now peersTtlS
                (tenantId, host) })) := by
    apply forTenant_write
    · intro w w' hSynced
      exact
        { hSynced with
          peers := by
            dsimp only
            rw [hSynced.now]
            exact hSynced.peers.expire rfl _ _ }
    · intro w other hOther
      exact
        { TenantView.refl w with
          peers := by
            apply TtlStore.agreeOn_expire
            exact hOther.symm }
  unfold recordPeers
  dsimp only
  split_ifs
  · exact hRenewal.bind (fun _ => forTenant_pure 0)
  · apply ForTenant.bind
    · apply forTenant_read
      intro w w' hSynced
      rw [hSynced.now, hSynced.peers.get rfl]
    · intro known
      apply ForTenant.bind
      · apply forTenant_write
        · intro w w' hSynced
          exact
            { hSynced with
              peers := by
                dsimp only
                rw [hSynced.now, hSynced.peers.get rfl]
                exact hSynced.peers.put rfl _ _ }
        · intro w other hOther
          exact
            { TenantView.refl w with
              peers := by
                apply TtlStore.agreeOn_put
                exact hOther.symm }
      · intro _
        exact hRenewal.bind (fun _ => forTenant_pure _)

theorem forTenant_discardGraph
    (windowTs : ℤ) :
    ForTenant tenantId
      (discardGraph tenantId windowTs :
        Program (World 𝕜) Unit) := by
  apply forTenant_write
  · intro w w' hSynced
    exact
      { hSynced with
        graphs := hSynced.graphs.delete _ }
  · intro w other hOther
    exact
      { TenantView.refl w with
        graphs := by
          apply TtlStore.agreeOn_delete
          exact hOther.symm }

theorem forTenant_discardWindow
    (windowTs : ℤ)
    (hosts : List String) :
    ForTenant tenantId
      (discardWindow tenantId windowTs hosts :
        Program (World 𝕜) Unit) := by
  apply forTenant_write
  · intro w w' hSynced
    exact
      { hSynced with
        hosts := hSynced.hosts.delete _
        windows :=
          hSynced.windows.foldl_delete
            (fun host => (tenantId, host, windowTs)) hosts }
  · intro w other hOther
    exact
      { TenantView.refl w with
        hosts := by
          apply TtlStore.agreeOn_delete
          exact hOther.symm
        windows := by
          apply TtlStore.agreeOn_foldl_delete
            (fun host => (tenantId, host, windowTs))
          intro _
          exact hOther.symm }

/- A vector is stored for its own tenant, by its own rows. -/
theorem saveRow_filter
    (rows : List (StateVector 𝕜))
    {vector : StateVector 𝕜}
    (hTenant : vector.tenantId = tenantId) :
    (saveRow rows vector).filter
        (fun row => row.tenantId = tenantId) =
      saveRow
        (rows.filter (fun row => row.tenantId = tenantId))
        vector := by
  have hAny :
      (rows.filter (fun row => row.tenantId = tenantId)).any
          (fun row =>
            row.tenantId = vector.tenantId ∧
              row.hostId = vector.hostId ∧
              row.windowTs = vector.windowTs) =
        rows.any (fun row =>
          row.tenantId = vector.tenantId ∧
            row.hostId = vector.hostId ∧
            row.windowTs = vector.windowTs) := by
    rw [Bool.eq_iff_iff]
    simp only [List.any_eq_true, List.mem_filter,
      decide_eq_true_eq]
    constructor
    · rintro ⟨row, ⟨hRow, _⟩, hKey⟩
      exact ⟨row, hRow, hKey⟩
    · rintro ⟨row, hRow, hKey⟩
      exact ⟨row, ⟨hRow, hKey.1.trans hTenant⟩, hKey⟩
  unfold saveRow
  rw [hAny]
  split_ifs
  · rfl
  · rw [List.filter_append, List.filter_singleton]
    simp [hTenant]

theorem saveRow_filter_of_ne
    (rows : List (StateVector 𝕜))
    {vector : StateVector 𝕜}
    (hOther : vector.tenantId ≠ tenantId) :
    (saveRow rows vector).filter
        (fun row => row.tenantId = tenantId) =
      rows.filter (fun row => row.tenantId = tenantId) := by
  unfold saveRow
  split_ifs
  · rfl
  · rw [List.filter_append]
    simp [hOther]

theorem forTenant_publish
    (cfg : FeaturesConfig)
    (host : String)
    (windowTs : ℤ)
    (features : FeatureVector 𝕜) :
    ForTenant tenantId
      (publish cfg tenantId host windowTs features) := by
  unfold publish
  dsimp only
  have hLog : ∀ vector : StateVector 𝕜,
      vector.tenantId = tenantId →
        ForTenant tenantId
          (Program.write (fun w : World 𝕜 =>
            { w with
              log := w.log ++ [.published vector] })) := by
    intro vector hTenant
    apply forTenant_write
    · intro w w' hSynced
      exact
        { hSynced with
          log := by
            have hBefore := hSynced.log
            unfold World.logOf at hBefore ⊢
            rw [List.filter_append, List.filter_append,
              hBefore] }
    · intro w other hOther
      have hNot : vector.tenantId ≠ other := by
        rw [hTenant]
        exact hOther.symm
      exact
        { TenantView.refl w with
          log := by
            unfold World.logOf
            rw [List.filter_append]
            simp [Record.tenantId, hNot] }
  split_ifs
  · apply ForTenant.bind
    · apply forTenant_write
      · intro w w' hSynced
        exact
          { hSynced with
            stored := by
              have hBefore := hSynced.stored
              unfold World.storedOf at hBefore ⊢
              rw [saveRow_filter tenantId _ rfl,
                saveRow_filter tenantId _ rfl, hBefore] }
      · intro w other hOther
        exact
          { TenantView.refl w with
            stored :=
              (saveRow_filter_of_ne other _
                hOther.symm).symm }
    · intro _
      exact (hLog _ rfl).bind (fun _ => forTenant_pure _)
  · exact (hLog _ rfl).bind (fun _ => forTenant_pure _)

end Effects

------------------------------------------------------------
-- Calls for One Tenant
------------------------------------------------------------

section Calls

variable [Field 𝕜] [LinearOrder 𝕜] [FloorRing 𝕜]

theorem forTenant_accumulate
    (event : RawEvent 𝕜)
    (windowTs : ℤ)
    (now : ℚ) :
    ForTenant event.tenantId
      (accumulate event windowTs now) := by
  apply forTenant_write
  · intro w w' hSynced
    have hGraphs :
        AgreeOn (fun k => k.1 = event.tenantId)
          (w.accumulate event windowTs now).graphs
          (w'.accumulate event windowTs now).graphs := by
      unfold World.accumulate
      dsimp only
      split_ifs
      · exact hSynced.graphs
      · rw [hSynced.now, hSynced.graphs.get rfl]
        exact hSynced.graphs.renew rfl _ _ _
    exact
      { hSynced with
        graphs := hGraphs
        windows := by
          unfold World.accumulate
          dsimp only
          rw [hSynced.now, hSynced.windows.get rfl]
          exact hSynced.windows.renew rfl _ _ _
        hosts := by
          unfold World.accumulate
          dsimp only
          rw [hSynced.now, hSynced.hosts.get rfl]
          exact hSynced.hosts.renew rfl _ _ _
        opened := by
          unfold World.accumulate
          dsimp only
          rw [hSynced.now]
          exact hSynced.opened.renew rfl _ _ _
        log := by
          have hBefore := hSynced.log
          unfold World.logOf at hBefore ⊢
          unfold World.accumulate
          dsimp only
          rw [List.filter_append, List.filter_append,
            hBefore] }
  · intro w other hOther
    exact
      { TenantView.refl w with
        graphs := by
          unfold World.accumulate
          dsimp only
          split_ifs
          · exact TtlStore.agreeOn_refl
          · apply TtlStore.agreeOn_renew
            exact hOther.symm
        windows := by
          apply TtlStore.agreeOn_renew
          exact hOther.symm
        hosts := by
          apply TtlStore.agreeOn_renew
          exact hOther.symm
        opened := by
          apply TtlStore.agreeOn_renew
          exact hOther.symm
        log := by
          unfold World.logOf World.accumulate
          dsimp only
          rw [List.filter_append]
          simp [Record.tenantId, hOther.symm] }

variable [ExpLog 𝕜]
variable (cfg : FeaturesConfig)
variable (tenantId : String)

theorem forTenant_publishSilent
    (host : String)
    (silent : List ℤ)
    (history : List (Tracked 𝕜)) :
    ForTenant tenantId
      (publishSilent cfg tenantId host silent history) := by
  induction silent generalizing history with
  | nil => exact forTenant_pure _
  | cons silentTs rest ih =>
      apply ForTenant.bind
      · exact forTenant_publish tenantId cfg host silentTs _
      · intro vector
        apply ForTenant.bind
        · exact ih _
        · intro filled
          exact forTenant_pure _

theorem forTenant_fillSince
    (host : String)
    (lastTs : Option ℤ)
    (windowTs : ℤ)
    (history : List (Tracked 𝕜)) :
    ForTenant tenantId
      (fillSince cfg tenantId host lastTs windowTs
        history) := by
  cases lastTs with
  | none => exact forTenant_pure _
  | some lastTs =>
      unfold fillSince fillGap
      dsimp only
      split_ifs
      · exact forTenant_pure _
      · exact forTenant_pure _
      · exact forTenant_publishSilent cfg tenantId host _ _

theorem forTenant_emitWindow
    (host : String)
    (windowTs : ℤ)
    (graph previous : WindowGraph)
    (history : List (Tracked 𝕜)) :
    ForTenant tenantId
      (emitWindow cfg tenantId host windowTs graph previous
        history) := by
  apply (forTenant_readWindow tenantId host windowTs).bind
  intro hash
  apply (forTenant_recordPeers tenantId host _).bind
  intro newPeerCount
  apply (forTenant_publish tenantId cfg host windowTs _).bind
  intro vector
  apply (forTenant_writeHistory tenantId host windowTs _).bind
  intro _
  exact forTenant_pure vector

theorem forTenant_emitHost
    (host : String)
    (windowTs : ℤ)
    (graph previous : WindowGraph) :
    ForTenant tenantId
      (emitHost (𝕜 := 𝕜) cfg tenantId host windowTs graph
        previous) := by
  apply (forTenant_readHistory tenantId host).bind
  intro found
  apply (forTenant_fillSince cfg tenantId host _ windowTs
    _).bind
  intro filled
  apply (forTenant_emitWindow cfg tenantId host windowTs graph
    previous _).bind
  intro vector
  exact forTenant_pure _

theorem forTenant_emitHosts
    (windowTs : ℤ)
    (graph previous : WindowGraph)
    (hosts : List String) :
    ForTenant tenantId
      (emitHosts (𝕜 := 𝕜) cfg tenantId windowTs graph previous
        hosts) := by
  induction hosts with
  | nil => exact forTenant_pure _
  | cons host rest ih =>
      apply (forTenant_emitHost cfg tenantId host windowTs
        graph previous).bind
      intro vectors
      apply ih.bind
      intro others
      exact forTenant_pure _

theorem forTenant_closeWindow
    (windowTs : ℤ) :
    ForTenant tenantId
      (closeWindow (𝕜 := 𝕜) cfg tenantId windowTs) := by
  apply (forTenant_readHosts tenantId windowTs).bind
  intro hosts
  apply (forTenant_readEdges tenantId windowTs).bind
  intro edges
  apply (forTenant_readEdges tenantId _).bind
  intro before
  apply (forTenant_emitHosts cfg tenantId windowTs _ _
    hosts).bind
  intro vectors
  apply (forTenant_discardWindow tenantId windowTs hosts).bind
  intro _
  apply (forTenant_discardGraph tenantId _).bind
  intro _
  apply (forTenant_clearOpen tenantId windowTs).bind
  intro _
  exact forTenant_pure vectors

/- An event is handled for its own tenant. -/
theorem forTenant_ingestEvent
    (event : RawEvent 𝕜) :
    ForTenant event.tenantId (ingestEvent cfg event) := by
  unfold ingestEvent
  split_ifs
  · exact forTenant_pure _
  · apply (forTenant_readOpen event.tenantId).bind
    intro current
    unfold ingestAt
    split_ifs
    · exact forTenant_pure _
    · apply ForTenant.bind
      · unfold closeEarlier
        cases current with
        | none => exact forTenant_pure _
        | some marker =>
            dsimp only
            split_ifs
            · exact forTenant_closeWindow cfg _ _
            · exact forTenant_pure _
      · intro emitted
        apply (forTenant_readClock event.tenantId).bind
        intro now
        apply (forTenant_accumulate event _ now).bind
        intro _
        exact forTenant_pure emitted

/- A tenant is swept for itself. -/
theorem forTenant_sweepTenant :
    ForTenant tenantId
      (sweepTenant (𝕜 := 𝕜) cfg tenantId) := by
  apply (forTenant_readOpen tenantId).bind
  intro current
  cases current with
  | none => exact forTenant_pure _
  | some marker =>
      apply (forTenant_readClock tenantId).bind
      intro now
      split_ifs
      · exact forTenant_pure _
      · apply (forTenant_readClock tenantId).bind
        intro _
        exact forTenant_closeWindow cfg tenantId _

------------------------------------------------------------
-- A Sweep at Given Clock Readings
------------------------------------------------------------

/- What the clock shows while something is done. -/
structure Clock where
  now : ℚ
  readings : List ℚ

def World.at
    (w : World 𝕜)
    (clock : Clock) : World 𝕜 :=
  { w with
    now := clock.now
    readings := clock.readings }

theorem view_at
    (w : World 𝕜)
    (clock : Clock) :
    TenantView tenantId w (w.at clock) :=
  TenantView.clock tenantId w clock.now clock.readings

theorem TenantView.at
    {w w' : World 𝕜}
    (hView : TenantView tenantId w w')
    (clock : Clock) :
    Synced tenantId (w.at clock) (w'.at clock) :=
  { hView with
    now := rfl
    readings := rfl }

/- Sweep tenants in turn, each when the clock shows its time. -/
def sweepAll
    (clock : String → Clock)
    (tenants : List String)
    (w : World 𝕜) : World 𝕜 :=
  tenants.foldl
    (fun w tenantId =>
      (sweepTenant cfg tenantId).exec (w.at (clock tenantId)))
    w

/- The clock at the scan for open windows and at each sweep. -/
structure TickClock where
  scan : Clock
  sweep : String → Clock

/- A watchdog tick at given clock readings. -/
def tickAt
    (clock : TickClock)
    (w : World 𝕜) : World 𝕜 :=
  let scanned := w.at clock.scan
  sweepAll cfg clock.sweep (openTenants.eval scanned) scanned

/- Of a sweep, a tenant sees its own turn only. -/
theorem sweepAll_view
    (clock : String → Clock)
    {tenants : List String}
    (hNodup : tenants.Nodup)
    (w : World 𝕜) :
    TenantView tenantId
      (sweepAll cfg clock tenants w)
      (if tenantId ∈ tenants then
        (sweepTenant cfg tenantId).exec
          (w.at (clock tenantId))
      else w) := by
  induction tenants generalizing w with
  | nil => exact TenantView.refl w
  | cons first rest ih =>
      rcases List.nodup_cons.mp hNodup with ⟨hNot, hRest⟩
      have hLater := ih hRest
        ((sweepTenant cfg first).exec (w.at (clock first)))
      by_cases hFirst : first = tenantId
      · subst hFirst
        rw [if_neg hNot] at hLater
        rw [if_pos List.mem_cons_self]
        exact hLater
      · have hUnseen :
            TenantView tenantId w
              ((sweepTenant cfg first).exec
                (w.at (clock first))) :=
          (view_at tenantId w (clock first)).trans
            ((forTenant_sweepTenant cfg first).unseen _ _
              (Ne.symm hFirst))
        have hMem :
            tenantId ∈ first :: rest ↔ tenantId ∈ rest := by
          rw [List.mem_cons]
          exact or_iff_right (Ne.symm hFirst)
        refine TenantView.trans hLater ?_
        by_cases hIn : tenantId ∈ rest
        · rw [if_pos hIn, if_pos (hMem.mpr hIn)]
          exact ((forTenant_sweepTenant cfg tenantId).same _ _
            (hUnseen.symm.at _ _)).2.toTenantView
        · rw [if_neg hIn, if_neg (fun h => hIn (hMem.mp h))]
          exact hUnseen.symm

variable {tenantId}

/- A scan finds a tenant once. -/
theorem nodup_openTenants
    (w : World 𝕜) :
    (openTenants.eval w).Nodup := by
  unfold openTenants
  rw [Program.eval_read,
    (List.mergeSort_perm _ _).nodup_iff]
  exact TtlStore.nodup_liveKeys _ _

/- A tick does the same for a tenant in states it sees alike. -/
theorem tickAt_view
    (clock : TickClock)
    {w w' : World 𝕜}
    (hView : TenantView tenantId w w') :
    TenantView tenantId (tickAt cfg clock w)
      (tickAt cfg clock w') := by
  have hScanned := hView.at tenantId clock.scan
  have hMem :
      tenantId ∈ openTenants.eval (w.at clock.scan) ↔
        tenantId ∈ openTenants.eval (w'.at clock.scan) := by
    rw [mem_openTenants, mem_openTenants, hScanned.now,
      hScanned.opened.get rfl]
  have hLeft := sweepAll_view cfg tenantId clock.sweep
    (nodup_openTenants (w.at clock.scan))
    (w.at clock.scan)
  have hRight := sweepAll_view cfg tenantId clock.sweep
    (nodup_openTenants (w'.at clock.scan))
    (w'.at clock.scan)
  refine (hLeft.trans ?_).trans hRight.symm
  by_cases hIn :
      tenantId ∈ openTenants.eval (w.at clock.scan)
  · rw [if_pos hIn, if_pos (hMem.mp hIn)]
    exact ((forTenant_sweepTenant cfg tenantId).same _ _
      (hScanned.toTenantView.at _ _)).2.toTenantView
  · rw [if_neg hIn, if_neg (fun h => hIn (hMem.mpr h))]
    exact hScanned.toTenantView

/- Readings for tenants that are not swept do not matter. -/
theorem sweepAll_congr
    {clock clock' : String → Clock}
    {tenants : List String}
    (hSame : ∀ t ∈ tenants, clock t = clock' t)
    (w : World 𝕜) :
    sweepAll cfg clock tenants w =
      sweepAll cfg clock' tenants w := by
  unfold sweepAll
  apply List.foldl_ext
  intro w t hT
  rw [hSame t hT]

/- Every sweep goes by what the clock shows at each turn. -/
theorem exists_clock_sweepTenants
    {tenants : List String}
    (hNodup : tenants.Nodup)
    (w : World 𝕜) :
    ∃ clock,
      sweepAll cfg clock tenants w =
        (sweepTenants cfg tenants).exec w := by
  induction tenants generalizing w with
  | nil => exact ⟨fun _ => ⟨0, []⟩, rfl⟩
  | cons first rest ih =>
      rcases List.nodup_cons.mp hNodup with ⟨hNot, hRest⟩
      rcases ih hRest ((sweepTenant cfg first).exec w) with
        ⟨clock, hClock⟩
      refine ⟨Function.update clock first
        ⟨w.now, w.readings⟩, ?_⟩
      have hLater :
          sweepAll cfg
              (Function.update clock first
                ⟨w.now, w.readings⟩) rest
              ((sweepTenant cfg first).exec w) =
            sweepAll cfg clock rest
              ((sweepTenant cfg first).exec w) := by
        apply sweepAll_congr
        intro t hT
        rw [Function.update_of_ne]
        rintro rfl
        exact hNot hT
      have hFirst :
          sweepAll cfg
              (Function.update clock first
                ⟨w.now, w.readings⟩) (first :: rest) w =
            sweepAll cfg
              (Function.update clock first
                ⟨w.now, w.readings⟩) rest
              ((sweepTenant cfg first).exec w) := by
        unfold sweepAll
        rw [List.foldl_cons, Function.update_self]
        rfl
      rw [hFirst, hLater, hClock, sweepTenants,
        Program.exec_bind, Program.exec_bind,
        Program.exec_pure]

/- Every watchdog tick is one at some clock readings. -/
theorem exists_clock_watchdogTick
    (w : World 𝕜) :
    ∃ clock,
      tickAt cfg clock w = (watchdogTick cfg).exec w := by
  rcases exists_clock_sweepTenants cfg (nodup_openTenants w) w
    with ⟨clock, hClock⟩
  refine ⟨⟨⟨w.now, w.readings⟩, clock⟩, ?_⟩
  rw [watchdogTick, Program.exec_bind]
  exact hClock

end Calls

end Features

end Nidra
