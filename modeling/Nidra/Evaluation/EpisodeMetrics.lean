import Nidra.Data.Onset
import Nidra.Lib.FirstRun
import Nidra.Lib.Quantiles

/-
  This file defines the per-episode report of a score:
  whether an episode was warned of before its onset, with
  which lead time, and whether and how late it was detected.

  Key definitions include:
    * `ScoredOrigin`
    * `episodeRows`, `preOnsetRows`
    * `EpisodeReport`, `episodeReport`
    * `perEpisodeReport`
-/

namespace Nidra

namespace Evaluation

open Data

------------------------------------------------------------
-- Rows
------------------------------------------------------------

/- An origin of the evaluation set with its score. -/
structure ScoredOrigin where
  hostId : String
  originTs : ℤ
  episodeKey : Option EpisodeKey
  insideEpisode : Bool
  score : ℚ

/- The rows keyed to an episode, in the order of time. -/
def episodeRows
    (rows : List ScoredOrigin)
    (key : EpisodeKey) : List ScoredOrigin :=
  sortByKey ScoredOrigin.originTs
    (rows.filter
      (fun r =>
        r.episodeKey = some key ∧ r.hostId = key.hostId))

/- A row lies in the span before an onset. -/
def ScoredOrigin.isPreOnset
    (startTs : ℤ)
    (preOnsetMinutes : ℕ)
    (r : ScoredOrigin) : Bool :=
  r.originTs < startTs ∧
    startTs - preOnsetMinutes * 60 ≤ r.originTs

def preOnsetRows
    (rows : List ScoredOrigin)
    (key : EpisodeKey)
    (preOnsetMinutes : ℕ) : List ScoredOrigin :=
  (episodeRows rows key).filter
    (ScoredOrigin.isPreOnset key.startTs preOnsetMinutes)

/- The first of the asked number of consecutive hits. -/
def firstHitRun
    (rows : List ScoredOrigin)
    (threshold : ℚ)
    (m : ℕ) : Option ScoredOrigin := do
  let i ←
    firstRun m (fun r => threshold ≤ r.score) (fun _ => true)
      rows
  rows[i]?

------------------------------------------------------------
-- The Report
------------------------------------------------------------

structure EpisodeReport where
  episode : EpisodeKey
  endTs : ℤ
  lengthWindows : ℕ
  nPreOnsetRows : ℕ
  warnedPreOnset : Bool
  leadTimeS : Option ℤ
  maxScorePreOnset : Option ℚ
  detectedWithinEpisode : Bool
  latencyMin : Option ℚ
  maxScoreInside : Option ℚ
  fractionInsideAboveThreshold : Option ℚ

def episodeReport
    (rows : List ScoredOrigin)
    (threshold : ℚ)
    (m preOnsetMinutes : ℕ)
    (key : EpisodeKey) : EpisodeReport :=
  let pre := preOnsetRows rows key preOnsetMinutes
  let dur :=
    (episodeRows rows key).filter ScoredOrigin.insideEpisode
  let pw := firstHitRun pre threshold m
  let dw := firstHitRun dur threshold m
  { episode := key
    endTs :=
      ((dur.map ScoredOrigin.originTs).max?).getD key.startTs
    lengthWindows := dur.length
    nPreOnsetRows := pre.length
    warnedPreOnset := pw.isSome
    leadTimeS := pw.map (fun r => key.startTs - r.originTs)
    maxScorePreOnset := (pre.map ScoredOrigin.score).max?
    detectedWithinEpisode := dw.isSome
    latencyMin :=
      dw.map
        (fun r => ((r.originTs - key.startTs : ℤ) : ℚ) / 60)
    maxScoreInside := (dur.map ScoredOrigin.score).max?
    fractionInsideAboveThreshold :=
      if dur.isEmpty then none
      else
        some
          (((dur.filter
            (fun r => threshold ≤ r.score)).length : ℚ) /
            dur.length) }

structure PerEpisodeReport where
  threshold : ℚ
  mConsecutive : ℕ
  preOnsetMinutes : ℕ
  nEpisodes : ℕ
  nWarnedPreOnset : ℕ
  nDetectedWithinEpisode : ℕ
  medianLeadTimeS : Option ℚ
  leadTimeDistributionS : List ℤ
  medianLatencyMin : Option ℚ
  latencyDistributionMin : List ℚ
  episodes : List EpisodeReport

/- The episodes that some row is keyed to. -/
def reportedKeys (rows : List ScoredOrigin) : List EpisodeKey :=
  sortByKey EpisodeKey.render
    (rows.filterMap ScoredOrigin.episodeKey).eraseDups

def medianOfList (values : List ℚ) : Option ℚ :=
  if values.isEmpty then none
  else some (median values)

/- A key of another host's rows has no row of its own. -/
def perEpisodeReport
    (rows : List ScoredOrigin)
    (threshold : ℚ)
    (m preOnsetMinutes : ℕ) : PerEpisodeReport :=
  let keys :=
    (reportedKeys rows).filter
      (fun key => !(episodeRows rows key).isEmpty)
  let episodes :=
    keys.map (episodeReport rows threshold m preOnsetMinutes)
  let lead := episodes.filterMap EpisodeReport.leadTimeS
  let lat := episodes.filterMap EpisodeReport.latencyMin
  { threshold := threshold
    mConsecutive := m
    preOnsetMinutes := preOnsetMinutes
    nEpisodes := episodes.length
    nWarnedPreOnset :=
      (episodes.filter EpisodeReport.warnedPreOnset).length
    nDetectedWithinEpisode :=
      (episodes.filter
        EpisodeReport.detectedWithinEpisode).length
    medianLeadTimeS := medianOfList (lead.map Int.cast)
    leadTimeDistributionS := lead
    medianLatencyMin := medianOfList lat
    latencyDistributionMin := lat
    episodes := episodes }

end Evaluation

end Nidra
