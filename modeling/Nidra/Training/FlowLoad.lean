import Nidra.Ingest.Parsers
import Nidra.Training.Aggregate

/-
  This file defines how training loads a chunk of a published
  flow table: columns are renamed by their exact names, a row
  without a number that it needs is dropped, and flags that
  were not measured are zero.

  Key definitions include:
    * `renameMap`, `requiredNumeric`
    * `loadedColumns`, `loadRow`

  Main declarations:
    * `loadedColumns_eq`
-/

namespace Nidra

namespace Training

open Ingest

------------------------------------------------------------
-- Columns
------------------------------------------------------------

/- The published names of the columns of numbers. -/
def renameMap : List (String × FlowColumn) :=
  [("Flow Duration", .flowDuration),
    ("Total Fwd Packets", .totalFwdPackets),
    ("Total Backward Packets", .totalBwdPackets),
    ("Total Length of Fwd Packets", .totalLenFwd),
    ("Total Length of Bwd Packets", .totalLenBwd),
    ("Flow IAT Mean", .flowIatMean),
    ("Flow IAT Max", .flowIatMax),
    ("SYN Flag Count", .flagCount .syn),
    ("ACK Flag Count", .flagCount .ack),
    ("RST Flag Count", .flagCount .rst),
    ("FIN Flag Count", .flagCount .fin),
    ("PSH Flag Count", .flagCount .psh),
    ("URG Flag Count", .flagCount .urg)]

/- A row without a number in one of these is dropped. -/
def requiredNumeric : List FlowColumn :=
  [.flowDuration, .totalFwdPackets, .totalBwdPackets,
    .totalLenFwd, .totalLenBwd]

variable {ι : Type}

/- The columns of a table that are renamed to one. -/
def renamed
    (frame : Frame ι)
    (column : FlowColumn) : List String :=
  frame.columns.filter (fun name =>
    renameMap.lookup (PyText.strip name) = some column)

------------------------------------------------------------
-- Rows
------------------------------------------------------------

/-
  A number, unless it is none. No aggregate is taken of an
  infinite number here.
-/
def finiteValue : PyFloat → Option ℚ
  | .finite value => some value
  | .inf _ => none
  | .nan => none

section Load

variable (pd : Pandas)
variable (frame : Frame ι)

/- The number in a column, if the table has the column. -/
def cellNumber
    (row : Row ι)
    (column : FlowColumn) : Option PyFloat :=
  (renamed frame column).head?.map
    (fun name => pd.toNumeric (row.cell name))

/- Whether a required number of a row cannot be read. -/
def badNumeric (row : Row ι) : Bool :=
  requiredNumeric.any (fun column =>
    decide (cellNumber pd frame row column = some .nan))

/- The numbers of a row; a flag without a number is zero. -/
def loadedColumns
    (row : Row ι) : FlowColumn → Option ℚ
  | .flagCount flag =>
      some
        (((cellNumber pd frame row
          (.flagCount flag)).bind finiteValue).getD 0)
  | column =>
      (cellNumber pd frame row column).bind finiteValue

def loadRow
    (row : Row ι) : Option (FlowColumn → Option ℚ) :=
  if badNumeric pd frame row then none
  else some (loadedColumns pd frame row)

variable {pd : Pandas}
variable {frame : Frame ι}

/- A row whose columns are there and are numbers is loaded. -/
theorem loadedColumns_eq
    {row : Row ι}
    {column : FlowColumn}
    {value : ℚ}
    (hCell :
      cellNumber pd frame row column =
        some (.finite value)) :
    loadedColumns pd frame row column = some value := by
  cases column <;> simp [loadedColumns, hCell, finiteValue]

end Load

end Training

end Nidra
