import Nidra.Common.RedisKeys
import Nidra.Features.Tenants
import Nidra.Persister.Tenants

/-
  This file runs the features worker and the persister on the
  inputs of several tenants, and proves that what a tenant
  has is what it would have without the inputs of another
  one, at the same clock readings.

  Key definitions include:
    * `State`, `Input`, `Reading`
    * `State.step`, `State.run`
    * `View`, `SameFor`

  Main declarations:
    * `exists_reading`
    * `View.step`, `step_unseen`
    * `tenants_do_not_interfere`
-/

namespace Nidra

namespace Pipeline

open Features (TenantView Clock TickClock)
open Persister (EpisodeView)

set_option linter.unusedSectionVars false

variable {𝕜 : Type}

------------------------------------------------------------
-- Inputs
------------------------------------------------------------

/- Both workers; they share Redis under different keys. -/
structure State (𝕜 : Type) where
  features : Features.World 𝕜
  persister : Persister.World 𝕜

/- What the pipeline is driven by. -/
inductive Input (𝕜 : Type) where
  | event (raw : RawEvent 𝕜)
  | tick
  | forecast (payload : Forecast 𝕜)

/-
  What the clock shows while an input is handled, for each
  tenant that something is done for, and the id that is drawn.
-/
structure Reading where
  tick : TickClock
  tenant : String → Clock
  drawn : ℕ

/- The tenant that sent an input; a tick is everyone's. -/
def Input.tenantId : Input 𝕜 → Option String
  | .event raw => some raw.tenantId
  | .tick => none
  | .forecast payload => some payload.tenantId

/- The inputs that another tenant did not send. -/
def without
    (tenantId : String)
    (inputs : List (Input 𝕜 × Reading)) :
    List (Input 𝕜 × Reading) :=
  inputs.filter (fun i => i.1.tenantId ≠ some tenantId)

section Runs

variable [Field 𝕜] [LinearOrder 𝕜] [FloorRing 𝕜]
variable [ExpLog 𝕜]
variable (cfg : Features.FeaturesConfig)
variable (rules : Persister.PersisterConfig 𝕜)

/- The persister when the clock and the ids are read. -/
def State.persisterAt
    (s : State 𝕜)
    (clock : Clock)
    (drawn : ℕ) : Persister.World 𝕜 :=
  { s.persister with
    now := clock.now
    drawn := drawn }

/- Handle one input to the end. -/
def State.step
    (s : State 𝕜) : Input 𝕜 × Reading → State 𝕜
  | (.event raw, reading) =>
      { s with
        features :=
          (Features.ingestEvent cfg raw).exec
            (s.features.at (reading.tenant raw.tenantId)) }
  | (.tick, reading) =>
      { s with
        features :=
          Features.tickAt cfg reading.tick s.features }
  | (.forecast payload, reading) =>
      { s with
        persister :=
          (Persister.handle rules payload).exec
            (s.persisterAt (reading.tenant payload.tenantId)
              reading.drawn) }

def State.run
    (s : State 𝕜)
    (inputs : List (Input 𝕜 × Reading)) : State 𝕜 :=
  inputs.foldl (State.step cfg rules) s

/- What the workers do is done at some readings. -/
theorem exists_reading
    (s : State 𝕜)
    (raw : RawEvent 𝕜) :
    (∃ reading,
        (s.step cfg rules (.event raw, reading)).features =
          s.features.step cfg (.ingest raw)) ∧
      ∃ reading,
        (s.step cfg rules (.tick, reading)).features =
          s.features.step cfg .watchdog := by
  constructor
  · exact ⟨⟨⟨⟨0, []⟩, fun _ => ⟨0, []⟩⟩,
      fun _ => ⟨s.features.now, s.features.readings⟩, 0⟩, rfl⟩
  · rcases Features.exists_clock_watchdogTick cfg s.features
      with ⟨clock, hClock⟩
    exact ⟨⟨clock, fun _ => ⟨0, []⟩, 0⟩, hClock⟩

------------------------------------------------------------
-- Two Runs
------------------------------------------------------------

/- Two states have the same of one tenant. -/
structure View
    (tenantId : String)
    (s s' : State 𝕜) : Prop where
  features : TenantView tenantId s.features s'.features
  persister : EpisodeView tenantId s.persister s'.persister

section Steps

variable {tenantId : String}

/- An input does the same where a tenant sees the same. -/
theorem View.step
    {s s' : State 𝕜}
    (hView : View tenantId s s')
    (input : Input 𝕜 × Reading) :
    View tenantId (s.step cfg rules input)
      (s'.step cfg rules input) := by
  rcases input with ⟨input, reading⟩
  cases input with
  | event raw =>
      refine { hView with features := ?_ }
      have hEvent := Features.forTenant_ingestEvent cfg raw
      by_cases hOwn : raw.tenantId = tenantId
      · subst hOwn
        exact (hEvent.same _ _
          (hView.features.at _ _)).2.toTenantView
      · have hUnseen := fun w : Features.World 𝕜 =>
          (Features.view_at tenantId w
            (reading.tenant raw.tenantId)).trans
              (hEvent.unseen _ _ (Ne.symm hOwn))
        exact ((hUnseen s.features).symm.trans
          hView.features).trans (hUnseen s'.features)
  | tick =>
      exact
        { hView with
          features :=
            Features.tickAt_view cfg reading.tick
              hView.features }
  | forecast payload =>
      refine { hView with persister := ?_ }
      by_cases hOwn : payload.tenantId = tenantId
      · have hAt :
            EpisodeView tenantId
              (s.persisterAt (reading.tenant payload.tenantId)
                reading.drawn)
              (s'.persisterAt (reading.tenant payload.tenantId)
                reading.drawn) :=
          hView.persister
        exact Persister.handle_same rules hAt rfl rfl hOwn
      · have hUnseen : ∀ u : State 𝕜,
            EpisodeView tenantId u.persister
              (u.step cfg rules
                (.forecast payload, reading)).persister :=
          fun u => Persister.handle_unseen rules
            (u.persisterAt (reading.tenant payload.tenantId)
              reading.drawn) hOwn
        exact ((hUnseen s).symm.trans hView.persister).trans
          (hUnseen s')

/- An input of another tenant is not seen. -/
theorem step_unseen
    (s : State 𝕜)
    {input : Input 𝕜 × Reading}
    {other : String}
    (hInput : input.1.tenantId = some other)
    (hOther : other ≠ tenantId) :
    View tenantId (s.step cfg rules input) s := by
  rcases input with ⟨input, reading⟩
  cases input with
  | event raw =>
      cases hInput
      refine { features := ?_, persister := fun _ _ => rfl }
      exact ((Features.view_at tenantId s.features
        (reading.tenant raw.tenantId)).trans
          ((Features.forTenant_ingestEvent cfg raw).unseen _
            _ (Ne.symm hOther))).symm
  | tick => cases hInput
  | forecast payload =>
      cases hInput
      refine
        { features := TenantView.refl s.features
          persister := ?_ }
      have hUnseen := Persister.handle_unseen rules
        (s.persisterAt (reading.tenant payload.tenantId)
          reading.drawn) hOther
      exact hUnseen.symm

/- Runs with and without another tenant look the same. -/
theorem View.run
    {other : String}
    (hOther : other ≠ tenantId)
    (inputs : List (Input 𝕜 × Reading))
    {s s' : State 𝕜}
    (hView : View tenantId s s') :
    View tenantId (s.run cfg rules inputs)
      (s'.run cfg rules (without other inputs)) := by
  induction inputs generalizing s s' with
  | nil => exact hView
  | cons input rest ih =>
      unfold without
      by_cases hInput : input.1.tenantId = some other
      · rw [List.filter_cons_of_neg (by simp [hInput])]
        apply ih
        have hUnseen := step_unseen cfg rules s hInput hOther
        exact
          { features := hUnseen.features.trans hView.features
            persister :=
              hUnseen.persister.trans hView.persister }
      · rw [List.filter_cons_of_pos (by simp [hInput])]
        exact ih (hView.step cfg rules input)

end Steps

------------------------------------------------------------
-- What a Tenant Has
------------------------------------------------------------

/- The vectors published for a tenant, in their order. -/
def State.published
    (s : State 𝕜)
    (tenantId : String) : List (StateVector 𝕜) :=
  (s.features.logOf tenantId).filterMap (fun record =>
    match record with
    | .published vector => some vector
    | .folded _ _ => none)

/- Whatever a tenant has, at any time, is the same. -/
structure SameFor
    (tenantId : String)
    (s s' : State 𝕜) : Prop where
  published : s.published tenantId = s'.published tenantId
  peers :
    ∀ now host,
      s.features.peers.get now (tenantId, host) =
        s'.features.peers.get now (tenantId, host)
  histories :
    ∀ now host,
      s.features.prev.get now (tenantId, host) =
        s'.features.prev.get now (tenantId, host)
  opened :
    ∀ now,
      s.features.opened.get now tenantId =
        s'.features.opened.get now tenantId
  hosts :
    ∀ now windowTs,
      s.features.hosts.get now (tenantId, windowTs) =
        s'.features.hosts.get now (tenantId, windowTs)
  windows :
    ∀ now host windowTs,
      s.features.windows.get now (tenantId, host, windowTs) =
        s'.features.windows.get now (tenantId, host, windowTs)
  graphs :
    ∀ now windowTs,
      s.features.graphs.get now (tenantId, windowTs) =
        s'.features.graphs.get now (tenantId, windowTs)
  stored :
    s.features.storedOf tenantId =
      s'.features.storedOf tenantId
  episodes :
    ∀ now hostId,
      s.persister.ep.get now (tenantId, hostId) =
        s'.persister.ep.get now (tenantId, hostId)

theorem View.sameFor
    {tenantId : String}
    {s s' : State 𝕜}
    (hView : View tenantId s s') :
    SameFor tenantId s s' where
  published := by
    unfold State.published
    rw [hView.features.log]
  peers now _ := hView.features.peers.get rfl now
  histories now _ := hView.features.prev.get rfl now
  opened now := hView.features.opened.get rfl now
  hosts now _ := hView.features.hosts.get rfl now
  windows now _ _ := hView.features.windows.get rfl now
  graphs now _ := hView.features.graphs.get rfl now
  stored := hView.features.stored
  episodes now _ := hView.persister.get rfl now

/-
  What a tenant has after any inputs is what it has after the
  inputs that another tenant did not send, at the same clock
  readings; and no two keys of tenants share a text.
-/
theorem tenants_do_not_interfere
    {a b : Uuid}
    (hDistinct : a ≠ b)
    (start : State 𝕜)
    (inputs : List (Input 𝕜 × Reading)) :
    SameFor a.str
        (start.run cfg rules inputs)
        (start.run cfg rules (without b.str inputs)) ∧
      Function.Injective RedisKey.text := by
  refine ⟨?_, RedisKey.text_injective⟩
  have hOther : b.str ≠ a.str := by
    intro hSame
    exact hDistinct (RedisKey.str_injective hSame).symm
  have hStart : View a.str start start :=
    { features := TenantView.refl start.features
      persister := TtlStore.agreeOn_refl }
  exact (hStart.run cfg rules hOther inputs).sameFor

end Runs

------------------------------------------------------------
-- Two Tenants
------------------------------------------------------------

local instance tenantExpLog : ExpLog ℚ :=
  ExpLog.tangent

theorem frameLen_given :
    ∃ f : PacketField,
      (if f = .frameLen then some (60 : ℚ) else none) ≠
        none :=
  ⟨.frameLen, by decide⟩

/- One packet of a host with an address of the new kind. -/
def packetFrom (tenant : Uuid) : RawEvent ℚ where
  tenantId := tenant.str
  jobId := "job"
  ts := 0
  srcIp := "fe80::1"
  dstIp := "fe80::2"
  measurements :=
    .packet (fun f => if f = .frameLen then some 60 else none)
  nonempty := frameLen_given

/- The clock shows one time to all. -/
def readingAt (now : ℚ) : Reading where
  tick :=
    { scan := ⟨now, []⟩
      sweep := fun _ => ⟨now, []⟩ }
  tenant := fun _ => ⟨now, []⟩
  drawn := 0

def bothOpen : List (Input ℚ × Reading) :=
  [(.event (packetFrom 0), readingAt 0),
    (.event (packetFrom 1), readingAt 1),
    (.tick, readingAt 600)]

def idle : State ℚ :=
  { features := Features.World.start 0 []
    persister := Persister.World.start 0 }

theorem minute_pos : (0 : ℤ) < 60 := by decide

/- Windows of a minute, at sixty times the pace. -/
def minuteConfig : Features.FeaturesConfig :=
  { windowDelta := 60
    windowDelta_pos := minute_pos
    defaultSpeed := 60 }

def promptRules : Persister.PersisterConfig ℚ :=
  { rules :=
      { riskThreshold := 1 / 2
        closeAfter := 1
        leadTimeM := 1 }
    horizonK := 1 }

theorem tenants_do_not_interfere_bothOpen :
    SameFor (0 : Uuid).str
      (idle.run minuteConfig promptRules bothOpen)
      (idle.run minuteConfig promptRules
        (without (1 : Uuid).str bothOpen)) :=
  (tenants_do_not_interfere minuteConfig promptRules
    (by decide : (0 : Uuid) ≠ 1) idle bothOpen).1

end Pipeline

end Nidra
