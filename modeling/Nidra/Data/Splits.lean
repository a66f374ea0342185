import Nidra.Data.Table
import Nidra.Lib.PyFloat

/-
  This file defines the splitting of labelled day tables into
  training, validation, test and holdout parts, with the
  attack episodes that the validation cutoff is moved away
  from.

  Key definitions include:
    * `Episode`, `findEpisodes`
    * `blockGroup`
    * `fractionCutoff`, `trailingBlockCutoff`
    * `temporalTrainValSplit`
    * `buildParts`
-/

namespace Nidra

namespace Data

------------------------------------------------------------
-- Episodes
------------------------------------------------------------

/- A run of attack rows of one host. -/
structure Episode where
  hostId : String
  startTs : ℤ
  endTs : ℤ
deriving DecidableEq, Repr

/-
  The state of the loop over the sorted rows: the start of
  the open run, and the row before the current one.
-/
structure EpisodeScan where
  episodes : List Episode
  start : Option ℤ
  last : Option StateRow

namespace EpisodeScan

def initial : EpisodeScan :=
  { episodes := []
    start := none
    last := none }

/- End the open run, if any, at the row before. -/
def close (scan : EpisodeScan) : EpisodeScan :=
  match scan.start, scan.last with
  | some start, some row =>
      { scan with
        episodes :=
          scan.episodes ++
            [ { hostId := row.hostId
                startTs := start
                endTs := row.windowTs } ]
        start := none }
  | _, _ => scan

/- Whether a row is the first one of its host. -/
def newHost
    (scan : EpisodeScan)
    (row : StateRow) : Bool :=
  match scan.last with
  | none => true
  | some previous => row.hostId ≠ previous.hostId

def visit
    (scan : EpisodeScan)
    (row : StateRow) : EpisodeScan :=
  let scan := if scan.newHost row then scan.close else scan
  let scan :=
    if row.isAttack then
      { scan with
        start := some (scan.start.getD row.windowTs) }
    else scan.close
  { scan with last := some row }

end EpisodeScan

/- The contiguous non-benign runs of each host. -/
def findEpisodes (table : List StateRow) : List Episode :=
  ((sortRows table).foldl EpisodeScan.visit
    .initial).close.episodes

------------------------------------------------------------
-- Captures
------------------------------------------------------------

/- The calendar day of a window. -/
def captureDay (windowTs : ℤ) : ℤ :=
  windowTs / 86400

/-
  The capture that a row of a table belongs to: its group
  when the table has that column, its day otherwise.
-/
def blockGroup
    (table : List StateRow)
    (row : StateRow) : String :=
  if table.any (fun r => r.splitGroup.isSome) then
    row.splitGroup.getD "nan"
  else toString (captureDay row.windowTs)

------------------------------------------------------------
-- Validation Block
------------------------------------------------------------

/- The span before an onset that lead time is measured on. -/
def defaultPreOnsetMarginS : ℕ := 1800

/- The timestamps of a block, each once, in order. -/
def uniqueTs (block : List StateRow) : List ℤ :=
  sortByKey id (block.map StateRow.windowTs).eraseDups

/-
  The timestamp before which the given fraction of the block
  lies, in float arithmetic. An empty block has none, and
  neither has a product past the floats (the source fails
  at both).
-/
def fractionCutoff
    (block : List StateRow)
    (valFraction : ℚ) : Option ℤ := do
  let count : ℤ := (uniqueTs block).length
  let cutoffIdx ←
    ((PyFloat.ofRat count).mul
      (.ofRat (1 - valFraction))).toInt
  (uniqueTs block)[(min (max cutoffIdx 0) (count - 1)).toNat]?

/-
  The episodes that end after a cutoff and start before it,
  or within the margin after it.
-/
def nearCutoff
    (block : List StateRow)
    (preOnsetMarginS : ℕ)
    (cutoff : ℤ) : List Episode :=
  (findEpisodes block).filter
    (fun ep =>
      ep.startTs - preOnsetMarginS < cutoff ∧
        cutoff ≤ ep.endTs)

/- The earliest start of the episodes near a cutoff. -/
def earliestNear
    (block : List StateRow)
    (preOnsetMarginS : ℕ)
    (cutoff : ℤ) : Option ℤ :=
  ((nearCutoff block preOnsetMarginS cutoff).map
    Episode.startTs).min?

/- Move a cutoff before an episode, but not out of the block. -/
def nudgeCutoff
    (cutoff first : ℤ)
    (preOnsetMarginS : ℕ) : Option ℤ → ℤ
  | none => cutoff
  | some onset => max (onset - preOnsetMarginS) first

/-
  The cutoff of a block, moved once to before the earliest of
  the episodes it is near.
-/
def trailingBlockCutoff
    (block : List StateRow)
    (valFraction : ℚ)
    (preOnsetMarginS : ℕ) : Option ℤ := do
  let cutoff ← fractionCutoff block valFraction
  let first ← (uniqueTs block).head?
  return nudgeCutoff cutoff first preOnsetMarginS
    (earliestNear block preOnsetMarginS cutoff)

/-
  Whether a row lies in the validation block of its table or,
  per day, of its capture.
-/
def isValRow
    (table : List StateRow)
    (valFraction : ℚ)
    (perDay : Bool)
    (preOnsetMarginS : ℕ)
    (row : StateRow) : Bool :=
  if perDay then
    ((table.map (blockGroup table)).eraseDups).any
      (fun day =>
        let block :=
          table.filter (fun r => blockGroup table r = day);
        blockGroup table row = day &&
          ((trailingBlockCutoff block valFraction
            preOnsetMarginS).any
              (fun cutoff => decide (cutoff ≤ row.windowTs))))
  else
    (trailingBlockCutoff table valFraction
      preOnsetMarginS).any
        (fun cutoff => decide (cutoff ≤ row.windowTs))

def temporalTrainValSplit
    (table : List StateRow)
    (valFraction : ℚ)
    (perDay : Bool)
    (preOnsetMarginS : ℕ) :
    List StateRow × List StateRow :=
  let isVal :=
    isValRow table valFraction perDay preOnsetMarginS
  (table.filter (fun row => !isVal row), table.filter isVal)

------------------------------------------------------------
-- Parts
------------------------------------------------------------

/- The roles of the captures and how validation is cut. -/
structure SplitRoles where
  trainDays : List String
  testDays : List String
  holdoutDays : List String
  valFraction : ℚ
  valBlockPerDay : Bool
  preOnsetMarginS : ℕ
  valDays : List String
  valCarveTrainDays : List String

structure SplitResult where
  train : List StateRow
  val : List StateRow
  test : List StateRow
  holdout : List StateRow

/- The captures, by their configuration key. -/
abbrev DayTables := String → Option (List StateRow)

/- The rows of the named captures, one after the other. -/
def DayTables.concat
    (dayTables : DayTables)
    (keys : List String) : List StateRow :=
  keys.flatMap (fun k => (dayTables k).getD [])

/- Two tables as one, of which one at least has rows. -/
def joinParts
    (first second : List StateRow) :
    Except String (List StateRow) :=
  match first ++ second with
  | [] => .error "No objects to concatenate"
  | rows => .ok rows

theorem eq_append_of_joinParts
    {first second rows : List StateRow}
    (hJoin : joinParts first second = .ok rows) :
    rows = first ++ second := by
  unfold joinParts at hJoin
  split at hJoin
  · cases hJoin
  · cases hJoin
    rfl

/- The message for a capture with two roles. -/
def overlapMessage (overlap : List String) : String :=
  let quoted := overlap.map (fun k => "'" ++ k ++ "'");
  "[" ++ ", ".intercalate quoted ++
    "] are listed as both training and validation captures"

/- The parts before risk labels are computed again. -/
def buildParts
    (dayTables : DayTables)
    (roles : SplitRoles) : Except String SplitResult :=
  let trainAll := dayTables.concat roles.trainDays
  let test := dayTables.concat roles.testDays
  let holdout := dayTables.concat roles.holdoutDays
  let overlap :=
    roles.valDays.filter (fun d => d ∈ roles.trainDays)
  if overlap ≠ [] then
    .error
      (overlapMessage (sortByKey id overlap.eraseDups))
  else if roles.valDays ≠ [] then
    let carve :=
      roles.valCarveTrainDays.filter
        (fun d => d ∈ roles.trainDays)
    if carve ≠ [] then
      let carved :=
        temporalTrainValSplit (dayTables.concat carve)
          roles.valFraction roles.valBlockPerDay
          roles.preOnsetMarginS
      let rest :=
        dayTables.concat
          (roles.trainDays.filter (fun d => d ∉ carve))
      do
        let train ← joinParts rest carved.1
        let val ←
          joinParts (dayTables.concat roles.valDays) carved.2
        .ok
          { train := train
            val := val
            test := test
            holdout := holdout }
    else
      .ok
        { train := trainAll
          val := dayTables.concat roles.valDays
          test := test
          holdout := holdout }
  else
    let parts :=
      temporalTrainValSplit trainAll roles.valFraction
        roles.valBlockPerDay roles.preOnsetMarginS
    .ok
      { train := parts.1
        val := parts.2
        test := test
        holdout := holdout }

end Data

end Nidra
