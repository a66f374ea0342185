import Nidra.Features.Compute
import Nidra.Lib.Program
import Nidra.Lib.TtlStore

/-
  This file defines the window state that the features
  service keeps in Redis, the vectors it has put out, and the
  commands by which it reads and changes them. One Redis
  command, one pipeline, one insert and one publish are each
  one effect.

  Key definitions include:
    * `FeaturesConfig`
    * `align`
    * `edgeField`, `parseEdge`
    * `OpenMarker`, `HostHistory`, `Record`, `World`
    * `accumulate`, `readOpen`, `openTenants`, `clearOpen`
    * `readHosts`, `readWindow`, `readEdges`
    * `readHistory`, `writeHistory`, `recordPeers`
    * `discardWindow`, `discardGraph`
    * `publish`
-/

namespace Nidra

namespace Features

------------------------------------------------------------
-- Configuration
------------------------------------------------------------

/- The settings of the features service. -/
structure FeaturesConfig where
  windowDelta : ℤ
  windowDelta_pos : 0 < windowDelta
  maxGapWindows : ℤ := 40
  elevatedFanout : ℕ := 5
  degreeCap : ℕ := 200
  watchdogFloorS : ℚ := 2
  defaultSpeed : ℚ := 1
  storeWired : Bool := true

/-
  Watchdog grace: two windows of replayed time, never under
  the configured floor.
-/
def FeaturesConfig.graceS (cfg : FeaturesConfig) : ℚ :=
  if cfg.defaultSpeed ≤ 0 then cfg.watchdogFloorS
  else
    max cfg.watchdogFloorS
      (2 * (cfg.windowDelta : ℚ) / cfg.defaultSpeed)

def windowTtlS : ℚ := 3600

def peersTtlS : ℚ := 24 * 3600

/- How many windows of tracked values a host carries. -/
def historyLen : ℕ := 3

/-
  Epoch seconds of the window containing a time, floored to
  an absolute multiple of the window delta.
-/
def align
    (ts : ℚ)
    (windowDelta : ℤ) : ℤ :=
  truncate ts / windowDelta * windowDelta

------------------------------------------------------------
-- Edges
------------------------------------------------------------

def edgeField (src dst : String) : String :=
  src ++ ">" ++ dst

/- Split at the first separator; both ends are needed. -/
def parseEdge (field : String) : Option (String × String) :=
  let chars := field.toList
  let src := chars.takeWhile (fun c => c ≠ '>')
  match chars.dropWhile (fun c => c ≠ '>') with
  | [] => none
  | _ :: dst =>
      if src = [] ∨ dst = [] then none
      else some (String.ofList src, String.ofList dst)

------------------------------------------------------------
-- The state
------------------------------------------------------------

/- The tenant's open window, and when it last saw an event. -/
structure OpenMarker where
  windowTs : ℤ
  lastSeen : ℚ

/- The last emitted window and the values tracked before. -/
structure HostHistory (𝕜 : Type) where
  lastTs : ℤ
  history : List (Tracked 𝕜)

/- What the service did, in the order it did it. -/
inductive Record (𝕜 : Type) where
  | published (vector : StateVector 𝕜)
  | folded (event : RawEvent 𝕜) (windowTs : ℤ)

/-
  Redis, the vectors table, the log of what was done, and the
  wall clock: the time it is, and the readings it will give,
  after which it stands still.
-/
structure World (𝕜 : Type) where
  now : ℚ
  readings : List ℚ
  opened : TtlStore ℚ String OpenMarker
  hosts : TtlStore ℚ (String × ℤ) (Finset String)
  windows :
    TtlStore ℚ (String × String × ℤ)
      (Tally (WindowField 𝕜) 𝕜)
  graphs : TtlStore ℚ (String × ℤ) (Tally String 𝕜)
  peers : TtlStore ℚ (String × String) (Finset String)
  prev : TtlStore ℚ (String × String) (HostHistory 𝕜)
  stored : List (StateVector 𝕜)
  log : List (Record 𝕜)

variable {𝕜 : Type}

/- The state before anything happened. -/
def World.start
    (now : ℚ)
    (readings : List ℚ) : World 𝕜 :=
  { now := now
    readings := readings
    opened := .empty
    hosts := .empty
    windows := .empty
    graphs := .empty
    peers := .empty
    prev := .empty
    stored := []
    log := [] }

/- Let the time pass; the clock never goes back. -/
def World.wait
    (w : World 𝕜)
    (time : ℚ) : World 𝕜 :=
  { w with now := max w.now time }

/- One reading of the wall clock. -/
def readClock : Program (World 𝕜) ℚ :=
  .step (fun w =>
    match w.readings with
    | [] => (w.now, w)
    | reading :: rest =>
        let now := max w.now reading
        (now, { w with now := now, readings := rest }))

------------------------------------------------------------
-- Accumulation
------------------------------------------------------------

section Accumulate

variable [Field 𝕜] [LinearOrder 𝕜] [FloorRing 𝕜]

/- Fold one event into its host's open window. -/
def World.accumulate
    (w : World 𝕜)
    (event : RawEvent 𝕜)
    (windowTs : ℤ)
    (now : ℚ) : World 𝕜 :=
  let tenant := event.tenantId
  let host := event.srcIp
  let win := (tenant, host, windowTs)
  let graph := (tenant, windowTs)
  let counted := (w.windows.get w.now win).getD .empty
  let seen := (w.hosts.get w.now graph).getD ∅
  let edges := (w.graphs.get w.now graph).getD .empty
  { w with
    windows :=
      w.windows.renew w.now windowTtlS win
        (counted.merge (eventIncrements event))
    hosts :=
      w.hosts.renew w.now windowTtlS graph
        (insert host seen)
    graphs :=
      if event.dstIp = "" then w.graphs
      else
        w.graphs.renew w.now windowTtlS graph
          (edges.bump (edgeField host event.dstIp) 1)
    opened :=
      w.opened.renew w.now windowTtlS tenant
        { windowTs := windowTs, lastSeen := now }
    log := w.log ++ [.folded event windowTs] }

def accumulate
    (event : RawEvent 𝕜)
    (windowTs : ℤ)
    (now : ℚ) : Program (World 𝕜) Unit :=
  .write (fun w => w.accumulate event windowTs now)

end Accumulate

------------------------------------------------------------
-- The open marker
------------------------------------------------------------

def readOpen
    (tenantId : String) :
    Program (World 𝕜) (Option OpenMarker) :=
  .read (fun w => w.opened.get w.now tenantId)

/- Every tenant with an open window, in order. -/
def openTenants : Program (World 𝕜) (List String) :=
  .read (fun w =>
    (w.opened.liveKeys w.now).mergeSort
      (fun a b => decide (a ≤ b)))

/- The tenants that a sweep finds, by name. -/
theorem mem_openTenants
    (w : World 𝕜)
    (tenantId : String) :
    tenantId ∈ openTenants.eval w ↔
      (w.opened.get w.now tenantId).isSome := by
  have hSorted :
      tenantId ∈ openTenants.eval w ↔
        tenantId ∈ w.opened.liveKeys w.now :=
    List.mem_mergeSort
  rw [hSorted, TtlStore.mem_liveKeys]

/-
  Drop the open marker, unless another window has already
  replaced it.
-/
def clearOpen
    (tenantId : String)
    (windowTs : ℤ) : Program (World 𝕜) Bool := do
  let current ← readOpen tenantId
  match current with
  | none => return false
  | some marker =>
      if marker.windowTs ≠ windowTs then return false
      else
        .step (fun w =>
          (true,
            { w with opened := w.opened.delete tenantId }))

------------------------------------------------------------
-- Reading
------------------------------------------------------------

/- Source hosts with data in the window, in order. -/
def readHosts
    (tenantId : String)
    (windowTs : ℤ) : Program (World 𝕜) (List String) :=
  .read (fun w =>
    ((w.hosts.get w.now (tenantId, windowTs)).getD ∅).sort
      (· ≤ ·))

def readWindow
    (tenantId host : String)
    (windowTs : ℤ) :
    Program (World 𝕜) (Tally (WindowField 𝕜) 𝕜) :=
  .read (fun w =>
    (w.windows.get w.now
      (tenantId, host, windowTs)).getD .empty)

/- The window's host graph as edges. -/
def readEdges
    (tenantId : String)
    (windowTs : ℤ) :
    Program (World 𝕜) (List (String × String)) :=
  .read (fun w =>
    ((w.graphs.get w.now
      (tenantId, windowTs)).getD .empty).keys.filterMap
        parseEdge)

/- The last emitted window and the tracked values. -/
def readHistory
    (tenantId host : String) :
    Program (World 𝕜) (Option ℤ × List (Tracked 𝕜)) :=
  .read (fun w =>
    match w.prev.get w.now (tenantId, host) with
    | none => (none, [])
    | some r => (some r.lastTs, r.history))

/- The last windows of a history. -/
def trimHistory
    (history : List (Tracked 𝕜)) : List (Tracked 𝕜) :=
  history.drop (history.length - historyLen)

def writeHistory
    (tenantId host : String)
    (lastTs : ℤ)
    (history : List (Tracked 𝕜)) :
    Program (World 𝕜) Unit := do
  .write (fun w =>
    { w with
      prev :=
        w.prev.put w.now (tenantId, host)
          { lastTs := lastTs
            history := trimHistory history } })
  .write (fun w =>
    { w with
      prev :=
        w.prev.expire w.now peersTtlS (tenantId, host) })

/-
  Add this window's destinations to the host's peer set; the
  answer is how many were new.
-/
def recordPeers
    (tenantId host : String)
    (peers : Finset String) : Program (World 𝕜) ℕ := do
  let key := (tenantId, host)
  let renewal : World 𝕜 → World 𝕜 := fun w =>
    { w with peers := w.peers.expire w.now peersTtlS key }
  if peers = ∅ then
    .write renewal
    return 0
  else
    let known ← .read (fun w =>
      (w.peers.get w.now key).getD ∅)
    .write (fun w =>
      { w with
        peers :=
          w.peers.put w.now key
            ((w.peers.get w.now key).getD ∅ ∪ peers) })
    .write renewal
    return (peers \ known).card

/- Delete the accumulators of a closed window. -/
def discardWindow
    (tenantId : String)
    (windowTs : ℤ)
    (hosts : List String) : Program (World 𝕜) Unit :=
  .write (fun w =>
    { w with
      windows :=
        hosts.foldl
          (fun windows host =>
            windows.delete (tenantId, host, windowTs))
          w.windows
      hosts := w.hosts.delete (tenantId, windowTs) })

def discardGraph
    (tenantId : String)
    (windowTs : ℤ) : Program (World 𝕜) Unit :=
  .write (fun w =>
    { w with graphs := w.graphs.delete (tenantId, windowTs) })

------------------------------------------------------------
-- Publishing
------------------------------------------------------------

/- Insert a row; a second row of a window changes nothing. -/
def saveRow
    (rows : List (StateVector 𝕜))
    (vector : StateVector 𝕜) : List (StateVector 𝕜) :=
  if rows.any (fun row =>
      row.tenantId = vector.tenantId ∧
        row.hostId = vector.hostId ∧
        row.windowTs = vector.windowTs)
  then rows
  else rows ++ [vector]

/- Store a vector, then put it on the bus. -/
def publish
    (cfg : FeaturesConfig)
    (tenantId host : String)
    (windowTs : ℤ)
    (features : FeatureVector 𝕜) :
    Program (World 𝕜) (StateVector 𝕜) := do
  let vector : StateVector 𝕜 :=
    { tenantId := tenantId
      hostId := host
      windowTs := windowTs
      features := features }
  if cfg.storeWired then
    .write (fun w =>
      { w with stored := saveRow w.stored vector })
  .write (fun w =>
    { w with log := w.log ++ [.published vector] })
  return vector

end Features

end Nidra
