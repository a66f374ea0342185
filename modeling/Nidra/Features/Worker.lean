import Nidra.Features.State

/-
  This file defines the features worker: folding events into
  the open window of their tenant, closing windows when a
  later event or the watchdog says so, and publishing one
  state vector for every host of a closed window, with the
  silent windows before it.

  Key definitions include:
    * `gapWindows`, `fillGap`
    * `emitWindow`, `emitHost`, `emitHosts`, `closeWindow`
    * `ingestAt`, `ingestEvent`
    * `watchdogTick`
    * `Call`, `World.step`, `World.runCalls`
-/

namespace Nidra

namespace Features

variable {𝕜 : Type}
variable [Field 𝕜] [LinearOrder 𝕜] [FloorRing 𝕜]
variable [ExpLog 𝕜]
variable (cfg : FeaturesConfig)

------------------------------------------------------------
-- Silent windows
------------------------------------------------------------

/- Silent windows between two windows of a host. -/
def gapWindows (lastTs windowTs : ℤ) : ℤ :=
  (windowTs - lastTs) / cfg.windowDelta - 1

/- The windows that a gap of a host is filled with. -/
def silentWindows (lastTs windowTs : ℤ) : List ℤ :=
  (List.range (gapWindows cfg lastTs windowTs).toNat).map
    (fun (i : ℕ) =>
      lastTs + ((i : ℤ) + 1) * cfg.windowDelta)

/- The tracked values of a silent window. -/
def silentTracked : Tracked 𝕜 :=
  fun _ => 0

/- Publish a zero row for each silent window. -/
def publishSilent
    (tenantId host : String) :
    List ℤ → List (Tracked 𝕜) →
      Program (World 𝕜)
        (List (Tracked 𝕜) × List (StateVector 𝕜))
  | [], history => return (history, [])
  | silentTs :: rest, history => do
      let vector ←
        publish cfg tenantId host silentTs zeroFeatures
      let history :=
        trimHistory (history ++ [silentTracked])
      let (history, vectors) ←
        publishSilent tenantId host rest history
      return (history, vector :: vectors)

/-
  Emit a zero row for each window the host sat out. A gap
  that is too long restarts the sequence instead.
-/
def fillGap
    (tenantId host : String)
    (lastTs windowTs : ℤ)
    (history : List (Tracked 𝕜)) :
    Program (World 𝕜)
      (List (Tracked 𝕜) × List (StateVector 𝕜)) :=
  let gap := gapWindows cfg lastTs windowTs
  if gap ≤ 0 then return (history, [])
  else if cfg.maxGapWindows < gap then return ([], [])
  else
    publishSilent cfg tenantId host
      (silentWindows cfg lastTs windowTs) history

/- A host that was seen before has its gap filled. -/
def fillSince
    (tenantId host : String)
    (lastTs : Option ℤ)
    (windowTs : ℤ)
    (history : List (Tracked 𝕜)) :
    Program (World 𝕜)
      (List (Tracked 𝕜) × List (StateVector 𝕜)) :=
  match lastTs with
  | none => return (history, [])
  | some lastTs =>
      fillGap cfg tenantId host lastTs windowTs history

------------------------------------------------------------
-- Closing a window
------------------------------------------------------------

/- Compute, publish and remember one window of a host. -/
def emitWindow
    (tenantId host : String)
    (windowTs : ℤ)
    (graph previous : WindowGraph)
    (history : List (Tracked 𝕜)) :
    Program (World 𝕜) (StateVector 𝕜) := do
  let hash ← readWindow tenantId host windowTs
  let accumulator := WindowAccumulator.fromHash hash
  let peers := accumulator.dstIp.keys.toFinset
  let newPeerCount ← recordPeers tenantId host peers
  let features :=
    computeFeatures accumulator host graph previous
      newPeerCount history cfg.elevatedFanout cfg.degreeCap
  let vector ← publish cfg tenantId host windowTs features
  writeHistory tenantId host windowTs
    (trimHistory (history ++ [trackedValues features]))
  return vector

/-
  The silent windows since the host was last seen, then its
  vector for this window.
-/
def emitHost
    (tenantId host : String)
    (windowTs : ℤ)
    (graph previous : WindowGraph) :
    Program (World 𝕜) (List (StateVector 𝕜)) := do
  let (lastTs, history) ← readHistory tenantId host
  let (history, silent) ←
    fillSince cfg tenantId host lastTs windowTs history
  let vector ←
    emitWindow cfg tenantId host windowTs graph previous
      history
  return silent ++ [vector]

/- Emit every host of a list. -/
def emitHosts
    (tenantId : String)
    (windowTs : ℤ)
    (graph previous : WindowGraph) :
    List String → Program (World 𝕜) (List (StateVector 𝕜))
  | [] => return []
  | host :: rest => do
      let vectors ←
        emitHost cfg tenantId host windowTs graph previous
      let others ←
        emitHosts tenantId windowTs graph previous rest
      return vectors ++ others

/- Compute and publish every host's vector for a window. -/
def closeWindow
    (tenantId : String)
    (windowTs : ℤ) :
    Program (World 𝕜) (List (StateVector 𝕜)) := do
  let hosts ← readHosts tenantId windowTs
  let edges ← readEdges tenantId windowTs
  let before ←
    readEdges tenantId (windowTs - cfg.windowDelta)
  let vectors ←
    emitHosts cfg tenantId windowTs
      (WindowGraph.fromEdges edges)
      (WindowGraph.fromEdges before) hosts
  discardWindow tenantId windowTs hosts
  discardGraph tenantId (windowTs - cfg.windowDelta)
  let _ ← clearOpen tenantId windowTs
  return vectors

------------------------------------------------------------
-- Handler
------------------------------------------------------------

/- Whether an event is older than the open window. -/
def isLate
    (current : Option OpenMarker)
    (windowTs : ℤ) : Bool :=
  match current with
  | none => false
  | some marker => decide (windowTs < marker.windowTs)

/- Close the open window when the event is later. -/
def closeEarlier
    (tenantId : String)
    (current : Option OpenMarker)
    (windowTs : ℤ) :
    Program (World 𝕜) (List (StateVector 𝕜)) :=
  match current with
  | none => return []
  | some marker =>
      if marker.windowTs < windowTs then
        closeWindow cfg tenantId marker.windowTs
      else return []

/-
  Fold one event in, unless its window has closed already;
  an earlier open window is closed first.
-/
def ingestAt
    (event : RawEvent 𝕜)
    (windowTs : ℤ)
    (current : Option OpenMarker) :
    Program (World 𝕜) (List (StateVector 𝕜)) :=
  if isLate current windowTs then return []
  else do
    let emitted ←
      closeEarlier cfg event.tenantId current windowTs
    let now ← readClock
    accumulate event windowTs now
    return emitted

/- Handle one event of the raw stream. -/
def ingestEvent
    (event : RawEvent 𝕜) :
    Program (World 𝕜) (List (StateVector 𝕜)) :=
  if event.srcIp = "" then return []
  else do
    let current ← readOpen event.tenantId
    ingestAt cfg event (align event.ts cfg.windowDelta)
      current

------------------------------------------------------------
-- Watchdog
------------------------------------------------------------

/- Close the open window of a tenant once its grace is over. -/
def sweepTenant
    (tenantId : String) :
    Program (World 𝕜) (List (StateVector 𝕜)) := do
  let current ← readOpen tenantId
  match current with
  | none => return []
  | some marker =>
      let now ← readClock
      if now - marker.lastSeen < cfg.graceS then return []
      else
        -- The log line reads the clock once more.
        let _ ← readClock
        closeWindow cfg tenantId marker.windowTs

def sweepTenants :
    List String → Program (World 𝕜) (List (StateVector 𝕜))
  | [] => return []
  | tenantId :: rest => do
      let emitted ← sweepTenant cfg tenantId
      let others ← sweepTenants rest
      return emitted ++ others

/- Close every open window whose grace has elapsed. -/
def watchdogTick :
    Program (World 𝕜) (List (StateVector 𝕜)) := do
  let tenants ← openTenants
  sweepTenants cfg tenants

------------------------------------------------------------
-- Runs
------------------------------------------------------------

/- What can happen to the worker while nothing fails. -/
inductive Call (𝕜 : Type) where
  | wait (time : ℚ)
  | ingest (event : RawEvent 𝕜)
  | watchdog

def World.step
    (w : World 𝕜) : Call 𝕜 → World 𝕜
  | .wait time => w.wait time
  | .ingest event => (ingestEvent cfg event).exec w
  | .watchdog => (watchdogTick cfg).exec w

def World.runCalls
    (w : World 𝕜)
    (calls : List (Call 𝕜)) : World 𝕜 :=
  calls.foldl (World.step cfg) w

end Features

end Nidra
