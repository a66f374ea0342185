import Nidra.Lib.Groups
import Nidra.Schema

/-
  This file defines the labelled state table: one row for
  each host and window, and its order by host and time.

  Key definitions include:
    * `StateRow`, `StateRow.isAttack`
    * `sortRows`
    * `WindowAligned`
    * `slotsBetween`
-/

namespace Nidra

namespace Data

------------------------------------------------------------
-- Rows
------------------------------------------------------------

/-
  One row of a labelled state table, with the state columns
  as numbers of some kind. The group is the capture that the
  row came from, when the table has that column.
-/
structure StateRow
    (ι : Type := Feature)
    (𝕜 : Type := ℚ) where
  hostId : String
  windowTs : ℤ
  features : ι → 𝕜
  stageLabel : Stage
  riskLabel : ℕ
  splitGroup : Option String

namespace StateRow

def isAttack (row : StateRow) : Bool :=
  row.stageLabel ≠ .benign

section Order

variable {ι 𝕜 : Type}

/- Rows are ordered by host, then by time. -/
def key (row : StateRow ι 𝕜) : String ×ₗ ℤ :=
  toLex (row.hostId, row.windowTs)

theorem key_le_iff
    (a b : StateRow ι 𝕜) :
    a.key ≤ b.key ↔
      a.hostId < b.hostId ∨
        a.hostId = b.hostId ∧ a.windowTs ≤ b.windowTs :=
  Prod.Lex.toLex_le_toLex

theorem key_lt_iff
    (a b : StateRow ι 𝕜) :
    a.key < b.key ↔
      a.hostId < b.hostId ∨
        a.hostId = b.hostId ∧ a.windowTs < b.windowTs :=
  Prod.Lex.toLex_lt_toLex

end Order

end StateRow

def sortRows
    {ι 𝕜 : Type}
    (table : List (StateRow ι 𝕜)) : List (StateRow ι 𝕜) :=
  sortByKey StateRow.key table

@[simp] theorem mem_sortRows
    {ι 𝕜 : Type}
    {table : List (StateRow ι 𝕜)}
    {row : StateRow ι 𝕜} :
    row ∈ sortRows table ↔ row ∈ table :=
  mem_sortByKey

/- A row without activity. -/
def silentRow
    (hostId : String)
    (windowTs : ℤ)
    (stageLabel : Stage) : StateRow :=
  { hostId := hostId
    windowTs := windowTs
    features := fun _ => 0
    stageLabel := stageLabel
    riskLabel := 0
    splitGroup := none }

/- No host has two rows for one window. -/
def DistinctWindows (table : List StateRow) : Prop :=
  (table.map StateRow.key).Nodup

instance DistinctWindows.decidable
    (table : List StateRow) :
    Decidable (DistinctWindows table) :=
  inferInstanceAs (Decidable (List.Nodup _))

/- Every timestamp is the beginning of a window. -/
def WindowAligned
    (windowSeconds : ℤ)
    (table : List StateRow) : Prop :=
  ∀ row ∈ table, windowSeconds ∣ row.windowTs

instance WindowAligned.decidable
    (windowSeconds : ℤ)
    (table : List StateRow) :
    Decidable (WindowAligned windowSeconds table) :=
  inferInstanceAs (Decidable (∀ row ∈ table, _))

------------------------------------------------------------
-- Window Slots
------------------------------------------------------------

/-
  The number of window slots strictly between two window
  timestamps, -1 between a window and itself.
-/
def slotsBetween
    (windowSeconds : ℤ)
    (t u : ℤ) : ℤ :=
  |u - t| / windowSeconds - 1

theorem slotsBetween_comm
    (windowSeconds t u : ℤ) :
    slotsBetween windowSeconds t u =
      slotsBetween windowSeconds u t := by
  unfold slotsBetween
  rw [abs_sub_comm]

/- Between later ends there are more slots. -/
theorem slotsBetween_mono
    {windowSeconds : ℤ}
    (hWindow : 0 < windowSeconds)
    {t t' u u' : ℤ}
    (hStart : t' ≤ t)
    (hOrder : t ≤ u)
    (hFinish : u ≤ u') :
    slotsBetween windowSeconds t u ≤
      slotsBetween windowSeconds t' u' := by
  unfold slotsBetween
  rw [abs_of_nonneg (by omega), abs_of_nonneg (by omega)]
  have hDiv :=
    Int.ediv_le_ediv hWindow (show u - t ≤ u' - t' by omega)
  omega

end Data

end Nidra
