import Nidra.Data.Audit
import Nidra.Lib.FirstRun

/-
  This file defines the lead-time report of the forecast
  command: for each labelled episode, the first alert of its
  host relative to the onset.

  Key definitions include:
    * `Alert`
    * `hostAlerts`
    * `firstAlert`
    * `LeadTimeEntry`, `leadTimeReport`
-/

namespace Nidra

namespace Cli

open Data

/- Whether an origin's forecast is above the threshold. -/
structure Alert where
  hostId : String
  originTs : ℤ
  above : Bool
deriving DecidableEq, Repr

/- The alerts of one host, in the order of time. -/
def hostAlerts
    (alerts : List Alert)
    (hostId : String) : List Alert :=
  sortByKey Alert.originTs
    (alerts.filter (fun a => a.hostId = hostId))

/-
  The first of `m` consecutive alerts that are complete by
  the end of the episode.
-/
def firstAlert
    (alerts : List Alert)
    (endTs : ℤ)
    (m : ℕ) : Option Alert := do
  let i ←
    firstRun m Alert.above (fun a => a.originTs ≤ endTs)
      alerts
  alerts[i]?

/-
  The entry of one episode. The last two fields are left out
  of it when there is no first alert.
-/
structure LeadTimeEntry where
  hostId : String
  onsetTs : ℤ
  endTs : ℤ
  nWindows : ℤ
  firstAlertTs : Option ℤ
  leadTimeS : Option ℤ
  warnedBeforeOnset : Option Bool
deriving DecidableEq, Repr

def leadTimeEntry
    (alerts : List Alert)
    (m : ℕ)
    (ep : MergedEpisode) : LeadTimeEntry :=
  let first :=
    (firstAlert (hostAlerts alerts ep.hostId) ep.endTs m).map
      Alert.originTs
  { hostId := ep.hostId
    onsetTs := ep.startTs
    endTs := ep.endTs
    nWindows := ep.nWindows
    firstAlertTs := first
    leadTimeS := first.map (fun ts => ep.startTs - ts)
    warnedBeforeOnset :=
      first.map (fun ts => decide (ts < ep.startTs)) }

structure LeadTimeReport where
  nEpisodes : ℕ
  nWarnedBeforeOnset : ℕ
  nAlertedWithinEpisode : ℕ
  episodes : List LeadTimeEntry

/- The gap that the command merges episodes over. -/
def mergeGapWindows : ℤ := 5

def leadTimeReport
    (states : List StateRow)
    (alerts : List Alert)
    (windowSeconds : ℤ)
    (m : ℕ) : LeadTimeReport :=
  let out :=
    (mergeEpisodes states windowSeconds mergeGapWindows).map
      (leadTimeEntry alerts m)
  { nEpisodes := out.length
    nWarnedBeforeOnset :=
      (out.filter
        (fun e => e.warnedBeforeOnset.getD false)).length
    nAlertedWithinEpisode :=
      (out.filter
        (fun e =>
          e.firstAlertTs.isSome &&
            !e.warnedBeforeOnset.getD false)).length
    episodes := out }

end Cli

end Nidra
