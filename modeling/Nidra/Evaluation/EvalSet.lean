import Nidra.Common.Schemas
import Nidra.Data.Dataset
import Nidra.Data.Onset

/-
  This file defines the stratified evaluation set of a split:
  the stratum of every candidate origin, the capped draw from
  each stratum, and the selected rows with their weights.

  Key definitions include:
    * `Stratum`, `strata`, `Caps`
    * `Generator`
    * `Origin`, `origins`
    * `Draw`, `drawStrata`
    * `EvalSet`, `buildEvalSet`
-/

namespace Nidra

namespace Evaluation

open Data

------------------------------------------------------------
-- Strata
------------------------------------------------------------

inductive Stratum where
  | positive
  | preOnset
  | activeNegative
  | silentNegative
deriving DecidableEq, Repr

def strata : List Stratum :=
  [.positive, .preOnset, .activeNegative, .silentNegative]

/- How many rows of a stratum are kept, if not all. -/
abbrev Caps := Stratum → Option ℕ

/- A candidate with its geometry. -/
structure Origin where
  candidate : Candidate
  geometry : OriginGeometry

namespace Origin

def positive (o : Origin) : Bool :=
  o.candidate.riskLabel = 1

/- The origin is a forecasting row before an onset. -/
def preOnset
    (preOnsetMinutes : ℕ)
    (o : Origin) : Bool :=
  !o.positive && !o.geometry.inside &&
    !o.candidate.originAttack &&
    o.geometry.minutesToOnset.any
      (fun m : ℚ => m ≤ preOnsetMinutes)

def active
    (preOnsetMinutes : ℕ)
    (o : Origin) : Bool :=
  !o.positive && !o.preOnset preOnsetMinutes &&
    o.candidate.originActive

/- The labels are written in this order, the last one stays. -/
def stratum
    (preOnsetMinutes : ℕ)
    (o : Origin) : Stratum :=
  if o.active preOnsetMinutes then .activeNegative
  else if o.preOnset preOnsetMinutes then .preOnset
  else if o.positive then .positive
  else .silentNegative

end Origin

/- What an evaluation set is built with. -/
structure EvalParameters where
  L : ℕ+
  K : ℕ
  windowSeconds : ℤ
  split : String
  caps : Caps
  seed : ℕ
  mergeGapWindows : ℤ
  preOnsetMinutes : ℕ
  onsetHorizonsMin : List ℚ

/- The candidate origins of a table. -/
def origins
    (table : List StateRow)
    (p : EvalParameters) : List Origin :=
  (enumerateCandidates (sortRows table) p.L p.K).map
    (fun c =>
      { candidate := c
        geometry :=
          episodeGeometry (sortRows table) p.windowSeconds
            p.mergeGapWindows c.hostId c.originTs })

/- The places of the origins of a stratum. -/
def stratumIndices
    (preOnsetMinutes : ℕ)
    (origins : List Origin)
    (name : Stratum) : List ℕ :=
  (List.range origins.length).filter
    (fun i =>
      (origins[i]?).any
        (fun o => o.stratum preOnsetMinutes = name))

------------------------------------------------------------
-- Draws
------------------------------------------------------------

/-
  A random number generator, which the package provides: from
  a list it draws the asked number of entries, none twice.
-/
structure Generator (ρ : Type) where
  ofSeed : ℕ → ρ
  choice : ρ → List ℕ → ℕ → List ℕ × ρ
  withoutReplacement :
    ∀ rng idx size, size ≤ idx.length →
      (choice rng idx size).1.Subperm idx ∧
        (choice rng idx size).1.length = size

/- What was drawn from one stratum. -/
structure Draw where
  name : Stratum
  full : List ℕ
  chosen : List ℕ

/- The weight of each drawn row of the stratum. -/
def Draw.weight (draw : Draw) : ℚ :=
  if draw.chosen = [] then 0
  else (draw.full.length : ℚ) / draw.chosen.length

variable {ρ : Type}

def drawOne
    (gen : Generator ρ)
    (rng : ρ)
    (cap : Option ℕ)
    (idx : List ℕ) : List ℕ × ρ :=
  match cap with
  | none => (idx, rng)
  | some cap =>
      if idx.length ≤ cap then (idx, rng)
      else gen.choice rng idx cap

/- Draw from the strata, one after the other. -/
def drawStrata
    (gen : Generator ρ)
    (caps : Caps)
    (indices : Stratum → List ℕ) :
    ρ → List Stratum → List Draw
  | _, [] => []
  | rng, name :: rest =>
      let drawn :=
        drawOne gen rng (caps name) (indices name);
      { name := name
        full := indices name
        chosen := sortByKey id drawn.1 } ::
        drawStrata gen caps indices drawn.2 rest

/- The weight that a stratum's rows were given. -/
def weightByStratum
    (draws : List Draw)
    (name : Stratum) : ℚ :=
  ((draws.find? (fun draw => draw.name = name)).map
    Draw.weight).getD 0

------------------------------------------------------------
-- The Evaluation Set
------------------------------------------------------------

structure EvalRow where
  sample : Sample
  stratum : Stratum
  weight : ℚ
  cluster : String
  insideEpisode : Bool
  minutesToOnset : Option ℚ
  episodeKey : Option EpisodeKey
  onsetLabels : List ℕ
  splitGroup : String
  attackGroup : String

structure EvalSet where
  rows : List EvalRow
  stratumCounts : List (Stratum × ℕ × ℕ)
  split : String
  windowSeconds : ℤ
  K : ℕ
  spanHours : ℚ
  nHosts : ℕ

/- The hours that the split's windows cover. -/
def observedSpanHours
    (table : List StateRow)
    (windowSeconds : ℤ) : ℚ :=
  if table.isEmpty then 0
  else (uniqueTs table).length * windowSeconds / 3600

/-
  The capture that the origin's window came from; empty when
  the table does not say.
-/
def groupOf
    (table : List StateRow)
    (hostId : String)
    (originTs : ℤ) : String :=
  if table.any (fun r => r.splitGroup.isSome) then
    match table.reverse.find?
        (fun r => r.hostId = hostId ∧ r.windowTs = originTs) with
    | some row => row.splitGroup.getD "nan"
    | none => ""
  else ""

/- The kind of attack that a positive row forecasts. -/
def attackGroupOf
    (group : String)
    (sample : Sample) : String :=
  if sample.riskLabel = 1 then
    match sample.futureStages.find?
        (fun stage => stage ≠ .benign) with
    | some stage => group ++ ":" ++ stage.label
    | none => ""
  else ""

/- The row of one origin. -/
def evalRow
    (table : List StateRow)
    (p : EvalParameters)
    (draws : List Draw)
    (o : Origin)
    (sample : Sample) : EvalRow :=
  let name := o.stratum p.preOnsetMinutes
  let group :=
    groupOf table o.candidate.hostId o.candidate.originTs
  { sample := sample
    stratum := name
    weight := weightByStratum draws name
    cluster :=
      (o.geometry.key.map EpisodeKey.render).getD
        o.candidate.hostId
    insideEpisode := o.geometry.inside
    minutesToOnset := o.geometry.minutesToOnset
    episodeKey := o.geometry.key
    onsetLabels := onsetTargets o.geometry p.onsetHorizonsMin
    splitGroup := group
    attackGroup := attackGroupOf group sample }

/- The row of the origin at a place, cut out of the table. -/
def evalRowAt
    (table : List StateRow)
    (p : EvalParameters)
    (draws : List Draw)
    (i : ℕ) : Option EvalRow := do
  let o ← (origins table p)[i]?
  let sample ←
    materializeOne (sortRows table) p.L p.K (fun _ => [])
      o.candidate
  return evalRow (sortRows table) p draws o sample

/- The draws of the strata of a table. -/
def evalDraws
    (gen : Generator ρ)
    (table : List StateRow)
    (p : EvalParameters) : List Draw :=
  drawStrata gen p.caps
    (stratumIndices p.preOnsetMinutes (origins table p))
    (gen.ofSeed p.seed) strata

/- The selected places, in order. -/
def selectAll (draws : List Draw) : List ℕ :=
  sortByKey id (draws.flatMap Draw.chosen)

def buildEvalSet
    (gen : Generator ρ)
    (table : List StateRow)
    (p : EvalParameters) : EvalSet :=
  let df := sortRows table
  let draws := evalDraws gen table p
  { rows :=
      (selectAll draws).filterMap (evalRowAt table p draws)
    stratumCounts :=
      draws.map
        (fun draw =>
          (draw.name, draw.full.length, draw.chosen.length))
    split := p.split
    windowSeconds := p.windowSeconds
    K := p.K
    spanHours := observedSpanHours df p.windowSeconds
    nHosts := (df.map StateRow.hostId).eraseDups.length }

end Evaluation

end Nidra
