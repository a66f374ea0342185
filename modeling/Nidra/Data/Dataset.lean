import Nidra.Data.Splits

/-
  This file defines the construction of training samples: the
  candidate origins of a table, and the slices of context and
  future rows that are cut out around a selected origin.

  Key definitions include:
    * `Candidate`, `enumerateCandidates`
    * `Sample`, `materializeOne`
-/

namespace Nidra

namespace Data

------------------------------------------------------------
-- Candidates
------------------------------------------------------------

/-
  A possible origin: its place among the rows of its host,
  and what selection looks at.
-/
structure Candidate where
  hostId : String
  t : ℕ
  riskLabel : ℕ
  originActive : Bool
  originAttack : Bool
  originTs : ℤ
deriving DecidableEq, Repr

/- The candidate at a row of its host. -/
def candidateAt
    (hostId : String)
    (t : ℕ)
    (row : StateRow) : Candidate :=
  { hostId := hostId
    t := t
    riskLabel := row.riskLabel
    originActive := 0 < row.features .isActive
    originAttack := row.isAttack
    originTs := row.windowTs }

/-
  The origins of one host: the places with L rows up to them
  and K rows after them.
-/
def hostCandidates
    (L : ℕ+)
    (K : ℕ)
    (hostId : String)
    (rows : List StateRow) : List Candidate :=
  let first := (L : ℕ) - 1
  (List.range' first (rows.length - K - first)).filterMap
    (fun t => rows[t]?.map (candidateAt hostId t))

def enumerateCandidates
    (table : List StateRow)
    (L : ℕ+)
    (K : ℕ) : List Candidate :=
  inGroups StateRow.hostId (hostCandidates L K)
    (sortRows table)

/- The rows of one host, in the order of time. -/
def hostRows
    (table : List StateRow)
    (hostId : String) : List StateRow :=
  (sortRows table).filter (fun row => row.hostId = hostId)

------------------------------------------------------------
-- Samples
------------------------------------------------------------

/- One sample: its rows and what is known of its origin. -/
structure Sample where
  hostId : String
  context : List StateRow
  future : List StateRow
  originTs : ℤ
  episodeId : ℤ
  stageLabel : Stage
  riskLabel : ℕ

namespace Sample

/- The rows of a sample, oldest first. -/
def rows (sample : Sample) : List StateRow :=
  sample.context ++ sample.future

def futureStages (sample : Sample) : List Stage :=
  sample.future.map StateRow.stageLabel

end Sample

/-
  Known episodes of each host, as start, end and number. The
  callers of the sample construction pass none.
-/
abbrev EpisodeLookup := String → List (ℤ × ℤ × ℕ)

/- The number of the episode that a window lies in, or -1. -/
def episodeIdAt
    (ts : ℤ) : List (ℤ × ℤ × ℕ) → ℤ
  | [] => -1
  | (start, finish, eid) :: rest =>
      if start ≤ ts ∧ ts ≤ finish then eid
      else if ts < start then -1
      else episodeIdAt ts rest

/- Cut the rows of one selected candidate. -/
def materializeOne
    (table : List StateRow)
    (L : ℕ+)
    (K : ℕ)
    (episodeLookup : EpisodeLookup)
    (candidate : Candidate) : Option Sample := do
  let rows := hostRows table candidate.hostId
  let origin ← rows[candidate.t]?
  some
    { hostId := candidate.hostId
      context := (rows.drop (candidate.t + 1 - L)).take L
      future := (rows.drop (candidate.t + 1)).take K
      originTs := origin.windowTs
      episodeId :=
        episodeIdAt origin.windowTs
          (episodeLookup candidate.hostId)
      stageLabel := origin.stageLabel
      riskLabel := origin.riskLabel }

------------------------------------------------------------
-- Rows of Candidates
------------------------------------------------------------

theorem mem_hostCandidates
    {L : ℕ+}
    {K : ℕ}
    {hostId : String}
    {rows : List StateRow}
    {c : Candidate} :
    c ∈ hostCandidates L K hostId rows ↔
      ∃ (t : ℕ) (row : StateRow),
        (L : ℕ) ≤ t + 1 ∧ t + K < rows.length ∧
          rows[t]? = some row ∧
          c = candidateAt hostId t row := by
  unfold hostCandidates
  rw [List.mem_filterMap]
  have hL : 0 < (L : ℕ) := L.pos
  constructor
  · rintro ⟨t, hRange, hAt⟩
    rw [List.mem_range'_1] at hRange
    rcases Option.map_eq_some_iff.mp hAt with
      ⟨row, hRow, rfl⟩
    exact ⟨t, row, by omega, by omega, hRow, rfl⟩
  · rintro ⟨t, row, hLow, hHigh, hRow, rfl⟩
    refine ⟨t, ?_, by rw [hRow]; rfl⟩
    rw [List.mem_range'_1]
    omega

/- A candidate is a row of its host in the table. -/
theorem mem_enumerateCandidates
    {table : List StateRow}
    {L : ℕ+}
    {K : ℕ}
    {c : Candidate} :
    c ∈ enumerateCandidates table L K ↔
      ∃ (t : ℕ) (row : StateRow),
        (L : ℕ) ≤ t + 1 ∧ t + K < (hostRows table c.hostId).length ∧
          (hostRows table c.hostId)[t]? = some row ∧
          c = candidateAt c.hostId t row := by
  unfold enumerateCandidates
  rw [mem_inGroups]
  constructor
  · rintro ⟨hostId, _, hIn⟩
    rcases mem_hostCandidates.mp hIn with
      ⟨t, row, hLow, hHigh, hRow, hEq⟩
    have hHost : c.hostId = hostId := by rw [hEq]; rfl
    rw [hHost]
    exact ⟨t, row, hLow, hHigh, hRow, hEq⟩
  · rintro ⟨t, row, hLow, hHigh, hRow, hEq⟩
    have hMem : row ∈ hostRows table c.hostId :=
      List.mem_of_getElem? hRow
    rcases List.mem_filter.mp hMem with ⟨hSorted, hHost⟩
    refine ⟨c.hostId, ⟨row, hSorted, of_decide_eq_true hHost⟩,
      ?_⟩
    exact mem_hostCandidates.mpr
      ⟨t, row, hLow, hHigh, hRow, hEq⟩

theorem mem_hostRows
    {table : List StateRow}
    {hostId : String}
    {row : StateRow} :
    row ∈ hostRows table hostId ↔
      row ∈ table ∧ row.hostId = hostId := by
  rw [hostRows, List.mem_filter, mem_sortRows,
    decide_eq_true_iff]

theorem exists_row_of_candidate
    {table : List StateRow}
    {L : ℕ+}
    {K : ℕ}
    {c : Candidate}
    (hMem : c ∈ enumerateCandidates table L K) :
    ∃ row ∈ table,
      row.hostId = c.hostId ∧
        c = candidateAt c.hostId c.t row := by
  rcases mem_enumerateCandidates.mp hMem with
    ⟨t, row, _, _, hRow, hEq⟩
  rcases mem_hostRows.mp (List.mem_of_getElem? hRow) with
    ⟨hIn, hHost⟩
  refine ⟨row, hIn, hHost, ?_⟩
  have hT : c.t = t := by rw [hEq]; rfl
  rw [hT]
  exact hEq

/- Every candidate can be cut out. -/
theorem materializeOne_isSome
    {table : List StateRow}
    {L : ℕ+}
    {K : ℕ}
    {c : Candidate}
    (hMem : c ∈ enumerateCandidates table L K)
    (episodeLookup : EpisodeLookup) :
    (materializeOne table L K episodeLookup c).isSome := by
  rcases mem_enumerateCandidates.mp hMem with
    ⟨t, row, _, _, hRow, hEq⟩
  have hT : c.t = t := by rw [hEq]; rfl
  simp [materializeOne, hT, hRow]

end Data

end Nidra
