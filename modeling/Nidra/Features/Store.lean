import Nidra.Features.State
import Nidra.Lib.Latest
import Nidra.Lib.PyUuid

/-
  This file defines the table of observed vectors as the
  features worker writes it and as the explanation reads it:
  the first row of a window stays, and a context is the last
  windows of a host up to a time.

  Key definitions include:
    * `VectorRow`, `tenantUuid`
    * `saveIn`, `saved`
    * `loadContext`

  Main declarations:
    * `saved_cases`, `DistinctRows.saved`
    * `saved_map`
    * `loadContext_eq_ending`
-/

namespace Nidra

namespace Features

variable {𝕜 : Type}

------------------------------------------------------------
-- Rows
------------------------------------------------------------

/- One observed window of one host of one tenant. -/
structure VectorRow (𝕜 : Type) where
  tenantId : Uuid
  hostId : String
  windowTs : ℤ
  features : FeatureVector 𝕜

/- Why a vector cannot be stored. -/
inductive StoreError where
  | nonUuidTenant (tenantId : String)
deriving DecidableEq

/- The columns that are unique together. -/
def VectorRow.key (row : VectorRow 𝕜) : Uuid × String × ℤ :=
  (row.tenantId, row.hostId, row.windowTs)

def tenantUuid (tenantId : String) : Except StoreError Uuid :=
  match Uuid.ofText tenantId with
  | none => .error (.nonUuidTenant tenantId)
  | some tenant => .ok tenant

/- The row that a vector is written as. -/
def VectorRow.ofVector
    (tenant : Uuid)
    (vector : StateVector 𝕜) : VectorRow 𝕜 :=
  { tenantId := tenant
    hostId := vector.hostId
    windowTs := vector.windowTs
    features := vector.features }

/- The vector that a row is read as. -/
def VectorRow.vector (row : VectorRow 𝕜) : StateVector 𝕜 :=
  { tenantId := row.tenantId.str
    hostId := row.hostId
    windowTs := row.windowTs
    features := row.features }

/-
  Insert a vector, unless its window has a row; the answer
  says whether the row is new.
-/
def saveIn
    (rows : List (VectorRow 𝕜))
    (vector : StateVector 𝕜) :
    Except StoreError (List (VectorRow 𝕜) × Bool) :=
  match tenantUuid vector.tenantId with
  | .error error => .error error
  | .ok tenant =>
      let row := VectorRow.ofVector tenant vector
      if rows.any (fun old => old.key = row.key) then
        .ok (rows, false)
      else .ok (rows ++ [row], true)

/-
  Up to so many observed vectors that end at a time, oldest
  first.
-/
def loadContext
    (rows : List (VectorRow 𝕜))
    (tenantId : Uuid)
    (hostId : String)
    (untilTs : ℚ)
    (limit : ℕ) : List (StateVector 𝕜) :=
  let observed :=
    rows.filter (fun row =>
      row.tenantId = tenantId ∧ row.hostId = hostId ∧
        (row.windowTs : ℚ) ≤ untilTs)
  (latest VectorRow.windowTs limit observed).map
    VectorRow.vector

------------------------------------------------------------
-- Saving
------------------------------------------------------------

/- What is in the table after an attempt to save a vector. -/
def saved
    (rows : List (VectorRow 𝕜))
    (vector : StateVector 𝕜) : List (VectorRow 𝕜) :=
  match saveIn rows vector with
  | .error _ => rows
  | .ok (after, _) => after

/- Each window has one row. -/
def DistinctRows (rows : List (VectorRow 𝕜)) : Prop :=
  (rows.map VectorRow.key).Nodup

section Saving

/- With a tenant that is a UUID, the first row stays. -/
theorem saved_of_tenant
    {rows : List (VectorRow 𝕜)}
    {vector : StateVector 𝕜}
    {tenant : Uuid}
    (hTenant : tenantUuid vector.tenantId = .ok tenant) :
    saved rows vector =
      if rows.any (fun old =>
        old.key = (VectorRow.ofVector tenant vector).key)
      then rows
      else rows ++ [VectorRow.ofVector tenant vector] := by
  unfold saved saveIn
  rw [hTenant]
  dsimp only
  split_ifs <;> rfl

/- A vector adds no row, or one of a new window. -/
theorem saved_cases
    (rows : List (VectorRow 𝕜))
    (vector : StateVector 𝕜) :
    saved rows vector = rows ∨
      ∃ tenant,
        saved rows vector =
            rows ++ [VectorRow.ofVector tenant vector] ∧
          ∀ old ∈ rows,
            old.key ≠
              (VectorRow.ofVector tenant vector).key := by
  cases hTenant : tenantUuid vector.tenantId with
  | error error =>
      left
      unfold saved saveIn
      rw [hTenant]
  | ok tenant =>
      rw [saved_of_tenant hTenant]
      split_ifs with hOld
      · exact Or.inl rfl
      · refine Or.inr ⟨tenant, rfl, ?_⟩
        intro old hMem hKey
        apply hOld
        rw [List.any_eq_true]
        exact ⟨old, hMem, decide_eq_true hKey⟩

/- No row is taken out. -/
theorem mem_saved
    {rows : List (VectorRow 𝕜)}
    {vector : StateVector 𝕜}
    {row : VectorRow 𝕜}
    (hRow : row ∈ rows) :
    row ∈ saved rows vector := by
  rcases saved_cases rows vector with
    hSame | ⟨tenant, hMore, _⟩
  · rw [hSame]
    exact hRow
  · rw [hMore]
    exact List.mem_append_left _ hRow

theorem DistinctRows.saved
    {rows : List (VectorRow 𝕜)}
    (hDistinct : DistinctRows rows)
    (vector : StateVector 𝕜) :
    DistinctRows (saved rows vector) := by
  rcases saved_cases rows vector with
    hSame | ⟨tenant, hMore, hNew⟩
  · rw [hSame]
    exact hDistinct
  · rw [hMore]
    unfold DistinctRows
    rw [List.map_append, List.map_singleton,
      ← List.concat_eq_append, List.nodup_concat]
    refine ⟨?_, hDistinct⟩
    intro hMem
    rcases List.mem_map.mp hMem with ⟨old, hOld, hKey⟩
    exact hNew old hOld hKey

/- The row of a vector whose tenant is written as a UUID. -/
def VectorRow.ofWritten (vector : StateVector 𝕜) : VectorRow 𝕜 :=
  VectorRow.ofVector
    ((Uuid.ofText vector.tenantId).getD 0) vector

/- A tenant as our own tokens write it. -/
def WrittenTenant (vector : StateVector 𝕜) : Prop :=
  ∃ tenant : Uuid, vector.tenantId = tenant.str

theorem WrittenTenant.tenantUuid_eq
    {vector : StateVector 𝕜}
    (hWritten : WrittenTenant vector) :
    tenantUuid vector.tenantId =
        .ok ((Uuid.ofText vector.tenantId).getD 0) ∧
      ((Uuid.ofText vector.tenantId).getD 0).str =
        vector.tenantId := by
  rcases hWritten with ⟨tenant, hTenant⟩
  unfold tenantUuid
  rw [hTenant, Uuid.ofText_str]
  exact ⟨rfl, rfl⟩

/- Written tenants are told apart as their UUIDs are. -/
theorem key_ofWritten_eq_iff
    {first second : StateVector 𝕜}
    (hFirst : WrittenTenant first)
    (hSecond : WrittenTenant second) :
    (VectorRow.ofWritten first).key =
        (VectorRow.ofWritten second).key ↔
      first.tenantId = second.tenantId ∧
        first.hostId = second.hostId ∧
        first.windowTs = second.windowTs := by
  unfold VectorRow.key VectorRow.ofWritten VectorRow.ofVector
  simp only [Prod.mk.injEq]
  refine and_congr_left' ?_
  constructor
  · intro hSame
    rw [← hFirst.tenantUuid_eq.2, hSame,
      hSecond.tenantUuid_eq.2]
  · intro hSame
    rw [hSame]

/-
  On vectors with written tenants, the table has the rows of
  the vectors that the features worker keeps.
-/
theorem saved_map
    {vectors : List (StateVector 𝕜)}
    {vector : StateVector 𝕜}
    (hVectors : ∀ old ∈ vectors, WrittenTenant old)
    (hVector : WrittenTenant vector) :
    saved (vectors.map VectorRow.ofWritten) vector =
      (saveRow vectors vector).map VectorRow.ofWritten := by
  have hAny :
      (vectors.map VectorRow.ofWritten).any
          (fun old =>
            old.key = (VectorRow.ofWritten vector).key) =
        vectors.any (fun row =>
          row.tenantId = vector.tenantId ∧
            row.hostId = vector.hostId ∧
            row.windowTs = vector.windowTs) := by
    rw [List.any_map, Bool.eq_iff_iff]
    simp only [List.any_eq_true, Function.comp_apply,
      decide_eq_true_eq]
    apply exists_congr
    intro old
    exact and_congr_right (fun hOld =>
      key_ofWritten_eq_iff (hVectors old hOld) hVector)
  rw [saved_of_tenant hVector.tenantUuid_eq.1]
  unfold saveRow
  rw [← hAny]
  unfold VectorRow.ofWritten
  split_ifs
  · rfl
  · rw [List.map_append, List.map_singleton]

end Saving

------------------------------------------------------------
-- Loading
------------------------------------------------------------

theorem vector_ofVector
    {tenant : Uuid}
    {vector : StateVector 𝕜}
    (hTenant : vector.tenantId = tenant.str) :
    (VectorRow.ofVector tenant vector).vector = vector := by
  unfold VectorRow.ofVector VectorRow.vector
  rw [← hTenant]

/-
  Where the rows of a host up to a time are those of some
  vectors in order of time, the context is their ending.
-/
theorem loadContext_eq_ending
    {rows : List (VectorRow 𝕜)}
    (hDistinct : DistinctRows rows)
    {tenant : Uuid}
    {hostId : String}
    {untilTs : ℚ}
    {vectors : List (StateVector 𝕜)}
    (hRising :
      vectors.Pairwise (fun a b => a.windowTs < b.windowTs))
    (hTenant : ∀ v ∈ vectors, v.tenantId = tenant.str)
    (hRows :
      ∀ row,
        (row ∈ rows ∧ row.tenantId = tenant ∧
            row.hostId = hostId ∧
              (row.windowTs : ℚ) ≤ untilTs) ↔
          ∃ v ∈ vectors, row = VectorRow.ofVector tenant v)
    (limit : ℕ) :
    loadContext rows tenant hostId untilTs limit =
      List.ending limit vectors := by
  have hSorted :
      (vectors.map (VectorRow.ofVector tenant)).Pairwise
        (fun a b => a.windowTs < b.windowTs) :=
    List.pairwise_map.mpr hRising
  have hPerm :
      (rows.filter (fun row =>
        row.tenantId = tenant ∧ row.hostId = hostId ∧
          (row.windowTs : ℚ) ≤ untilTs)).Perm
        (vectors.map (VectorRow.ofVector tenant)) := by
    refine (List.perm_ext_iff_of_nodup ?_ ?_).mpr ?_
    · exact (List.Nodup.of_map _ hDistinct).filter _
    · exact hSorted.imp (fun hLt hEq => by
        rw [hEq] at hLt
        exact lt_irrefl _ hLt)
    · intro row
      rw [List.mem_filter, decide_eq_true_iff, hRows,
        List.mem_map]
      exact exists_congr (fun v =>
        and_congr_right (fun _ => eq_comm))
  unfold loadContext
  dsimp only
  rw [latest_eq_ending hPerm hSorted, List.map_ending,
    List.map_map]
  congr 1
  conv_rhs => rw [← List.map_id vectors]
  apply List.map_congr_left
  intro v hV
  exact vector_ofVector (hTenant v hV)

end Features

end Nidra
