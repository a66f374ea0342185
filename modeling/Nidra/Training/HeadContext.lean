import Nidra.Data.Table
import Nidra.Lib.Slices
import Nidra.Model.WorldModel

/-
  This file defines the context that a history-aware head is
  trained on, built for a whole table in chunks, and proves
  that every row of it is what the world model computes for
  the served history of that row.

  Key definitions include:
    * `hostSpans`, `hostWindows`
    * `HeadContext`, `buildHeadContext`
    * `leftPadded`, `servedWindow`

  Main declarations:
    * `host_of_span`, `window_of_span`
    * `buildHeadContext_served`
-/

namespace Nidra

namespace Training

open Data Model

set_option linter.unusedSectionVars false

section Definitions

variable {ι κ M 𝕜 : Type}
variable [Field 𝕜] [LinearOrder 𝕜]

------------------------------------------------------------
-- The hosts of a table
------------------------------------------------------------

/- Where a host begins in a column of hosts. -/
def boundaries (codes : List String) : List ℕ :=
  (List.range codes.length).filter
    (fun i => i = 0 ∨ codes[i]? ≠ codes[i - 1]?)

/- Where every host begins, and where it ends. -/
def hostSpans (codes : List String) : List (ℕ × ℕ) :=
  (boundaries codes ++ [codes.length]).consecutive

/- The part of a list from a place up to another. -/
def part
    {α : Type}
    (l : List α)
    (lo hi : ℕ) : List α :=
  (l.drop lo).take (hi - lo)

------------------------------------------------------------
-- The windows of a host
------------------------------------------------------------

/- The trailing windows of a host, padded on the left. -/
def hostWindows
    (scaled : List (Vec ι 𝕜))
    (L : ℕ)
    (zeroState : Vec ι 𝕜) : List (List (Vec ι 𝕜)) :=
  let padded := List.replicate (L - 1) zeroState ++ scaled
  (List.range scaled.length).map
    (fun k => (padded.drop k).take L)

/- The state before the last one of each window. -/
def prevOne
    (L : ℕ)
    (zeroState : Vec ι 𝕜)
    (windows : List (List (Vec ι 𝕜))) : List (Vec ι 𝕜) :=
  if 2 ≤ L then
    windows.map (fun w => w.dropLast.getLast?.getD 0)
  else List.replicate windows.length zeroState

/- And the one before that. -/
def prevTwo
    (L : ℕ)
    (zeroState : Vec ι 𝕜)
    (windows : List (List (Vec ι 𝕜))) : List (Vec ι 𝕜) :=
  if 3 ≤ L then
    windows.map (fun w => w.dropLast.dropLast.getLast?.getD 0)
  else List.replicate windows.length zeroState

------------------------------------------------------------
-- The arrays
------------------------------------------------------------

variable (model : WorldModel ι κ M 𝕜)

/- The outputs of the encoder over a window. -/
def outputs (w : List (Vec ι 𝕜)) : List (Vec κ 𝕜) :=
  (model.encoder.gru w model.encoder.blank).1

/- The output after a window. -/
def hiddenOf (w : List (Vec ι 𝕜)) : Vec κ 𝕜 :=
  (outputs model w).getLastD 0

/- The log-variance that was predicted for its last state. -/
def logvarOf
    (L : ℕ)
    (w : List (Vec ι 𝕜))
    (prev1 prev2 : Vec ι 𝕜) : Vec ι 𝕜 :=
  let hPrev :=
    if 2 ≤ L then (outputs model w).dropLast.getLast?.getD 0
    else 0
  model.maskLogvar
    (model.transition.forward hPrev prev1 prev2).2

/- The context of every row, in the order of the table. -/
structure HeadContext (ι κ 𝕜 : Type) where
  hidden : List (Vec κ 𝕜)
  delta : List (Vec ι 𝕜)
  logvar : List (Vec ι 𝕜)
  hostId : List String
  windowTs : List ℤ

/- The assignments to `delta`: one for each host. -/
def deltaWrites
    (scaledAll : List (Vec ι 𝕜))
    (L : ℕ)
    (zeroState : Vec ι 𝕜)
    (spans : List (ℕ × ℕ)) : List (ℕ × List (Vec ι 𝕜)) :=
  spans.map (fun span =>
    let scaled := part scaledAll span.1 span.2
    let windows := hostWindows scaled L zeroState
    (span.1,
      List.zipWith (· - ·) scaled (prevOne L zeroState windows)))

/- Those to `hidden`: one for each chunk of a host. -/
def hiddenWrites
    (scaledAll : List (Vec ι 𝕜))
    (L chunkRows : ℕ)
    (zeroState : Vec ι 𝕜)
    (spans : List (ℕ × ℕ)) : List (ℕ × List (Vec κ 𝕜)) :=
  spans.flatMap (fun span =>
    let scaled := part scaledAll span.1 span.2
    let windows := hostWindows scaled L zeroState
    (chunkStarts scaled.length chunkRows).map (fun c0 =>
      let c1 := min (c0 + chunkRows) scaled.length
      (span.1 + c0,
        (part windows c0 c1).map (hiddenOf model))))

/- And those to `logvar`. -/
def logvarWrites
    (scaledAll : List (Vec ι 𝕜))
    (L chunkRows : ℕ)
    (zeroState : Vec ι 𝕜)
    (spans : List (ℕ × ℕ)) : List (ℕ × List (Vec ι 𝕜)) :=
  spans.flatMap (fun span =>
    let scaled := part scaledAll span.1 span.2
    let windows := hostWindows scaled L zeroState
    let prev1 := prevOne L zeroState windows
    let prev2 := prevTwo L zeroState windows
    (chunkStarts scaled.length chunkRows).map (fun c0 =>
      let c1 := min (c0 + chunkRows) scaled.length
      (span.1 + c0,
        List.zipWith
          (fun w prev => logvarOf model L w prev.1 prev.2)
          (part windows c0 c1)
          ((part prev1 c0 c1).zip (part prev2 c0 c1)))))

/- An array of zeros after some assignments. -/
def filled
    {α : Type}
    [Zero α]
    (n : ℕ)
    (writes : List (ℕ × List α)) : List α :=
  writes.foldl (fun l w => l.writeAt w.1 w.2)
    (List.replicate n 0)

/- The context of every row of a table. -/
def buildHeadContext
    (table : List (StateRow ι 𝕜))
    (scaler : Vec ι 𝕜 → Vec ι 𝕜)
    (L chunkRows : ℕ) : HeadContext ι κ 𝕜 :=
  let df := sortRows table
  let scaledAll := df.map (fun row => scaler row.features)
  let zeroState := scaler 0
  let codes := df.map StateRow.hostId
  let spans := hostSpans codes
  { hidden :=
      filled df.length
        (hiddenWrites model scaledAll L chunkRows zeroState
          spans)
    delta :=
      filled df.length (deltaWrites scaledAll L zeroState spans)
    logvar :=
      filled df.length
        (logvarWrites model scaledAll L chunkRows zeroState
          spans)
    hostId := codes
    windowTs := df.map StateRow.windowTs }

------------------------------------------------------------
-- What is served
------------------------------------------------------------

/- The last `m` states, with silent ones before too few. -/
def leftPadded
    (m : ℕ)
    (zeroState : Vec ι 𝕜)
    (states : List (Vec ι 𝕜)) : List (Vec ι 𝕜) :=
  List.replicate (m - states.length) zeroState ++
    states.drop (states.length - m)

/-
  The history that is served at a row: the last `L` scaled
  states of its host, up to it.
-/
def servedWindow
    (scaler : Vec ι 𝕜 → Vec ι 𝕜)
    (L : ℕ)
    (earlier : List (StateRow ι 𝕜))
    (row : StateRow ι 𝕜) : Window ι 𝕜 :=
  { earlier :=
      leftPadded (L - 1) (scaler 0)
        ((earlier.filter (fun r => r.hostId = row.hostId)).map
          (fun r => scaler r.features))
    current := scaler row.features }

/- A row of the context is the context of what is served. -/
structure IsServed
    (context : HeadContext ι κ 𝕜)
    (i : ℕ)
    (row : StateRow ι 𝕜)
    (x : Window ι 𝕜) : Prop where
  hostId : context.hostId[i]? = some row.hostId
  windowTs : context.windowTs[i]? = some row.windowTs
  hidden :
    context.hidden[i]? = some (model.observedContext x).hidden
  delta :
    context.delta[i]? = some (model.observedContext x).delta
  logvar :
    context.logvar[i]? = some (model.observedContext x).logvar

------------------------------------------------------------
-- Spans
------------------------------------------------------------

theorem mem_boundaries
    {codes : List String}
    {i : ℕ} :
    i ∈ boundaries codes ↔
      i < codes.length ∧
        (i = 0 ∨ codes[i]? ≠ codes[i - 1]?) := by
  simp [boundaries]

theorem sorted_bounds (codes : List String) :
    (boundaries codes ++ [codes.length]).Pairwise (· < ·) := by
  rw [List.pairwise_append]
  refine
    ⟨List.pairwise_lt_range.filter _,
      List.pairwise_singleton _ _, ?_⟩
  intro i hI n hN
  rw [List.mem_singleton.mp hN]
  exact (mem_boundaries.mp hI).1

/- Where a span starts, and what is in it. -/
theorem span_spec
    {codes : List String}
    {lo hi : ℕ}
    (hSpan : (lo, hi) ∈ hostSpans codes) :
    lo < hi ∧ hi ≤ codes.length ∧ lo ∈ boundaries codes ∧
      ∀ i, lo < i → i < hi → codes[i]? = codes[i - 1]? := by
  rcases List.not_between_consecutive (sorted_bounds codes) hSpan
    with ⟨hLo, hHi, hLt, hBetween⟩
  have hLe : hi ≤ codes.length := by
    rcases List.mem_append.mp hHi with hIn | hEnd
    · exact (mem_boundaries.mp hIn).1.le
    · exact (List.mem_singleton.mp hEnd).le
  have hStart : lo ∈ boundaries codes := by
    rcases List.mem_append.mp hLo with hIn | hEnd
    · exact hIn
    · rw [List.mem_singleton] at hEnd
      omega
  refine ⟨hLt, hLe, hStart, ?_⟩
  intro i hAfter hBefore
  by_contra hNe
  have hMem : i ∈ boundaries codes :=
    mem_boundaries.mpr ⟨by omega, Or.inr hNe⟩
  rcases hBetween i (List.mem_append_left _ hMem) with
    hLow | hHigh
  · omega
  · omega

/- Every row of a table is in a span. -/
theorem exists_span
    {codes : List String}
    {i : ℕ}
    (hLt : i < codes.length) :
    ∃ lo hi, (lo, hi) ∈ hostSpans codes ∧ lo ≤ i ∧ i < hi := by
  have hZero : 0 ∈ boundaries codes :=
    mem_boundaries.mpr ⟨by omega, Or.inl rfl⟩
  have hSorted := sorted_bounds codes
  unfold hostSpans
  cases hBounds : boundaries codes ++ [codes.length] with
  | nil => simp at hBounds
  | cons first rest =>
      rw [hBounds] at hSorted
      have hMem : 0 ∈ first :: rest := by
        rw [← hBounds]
        exact List.mem_append_left _ hZero
      have hFirst : first = 0 := by
        rcases List.mem_cons.mp hMem with hHead | hTail
        · exact hHead.symm
        · have hLess := (List.pairwise_cons.mp hSorted).1 0 hTail
          omega
      have hLast : ∃ b ∈ first :: rest, i < b := by
        refine ⟨codes.length, ?_, hLt⟩
        rw [← hBounds]
        exact List.mem_append_right _ (List.mem_singleton_self _)
      rcases List.exists_consecutive (by omega) hLast with
        ⟨span, hSpan, hIn⟩
      exact ⟨span.1, span.2, hSpan, hIn⟩

section Host

variable {codes : List String}
variable {lo hi : ℕ}

/- All rows of a span are of its host, -/
theorem host_of_span
    (hSpan : (lo, hi) ∈ hostSpans codes)
    {i : ℕ}
    (hLo : lo ≤ i)
    (hHi : i < hi) :
    codes[i]? = codes[lo]? := by
  rcases span_spec hSpan with ⟨_, _, _, hSame⟩
  induction i, hLo using Nat.le_induction with
  | base => rfl
  | succ i hLe ih =>
      rw [hSame (i + 1) (by omega) hHi, Nat.add_sub_cancel]
      exact ih (by omega)

/- and, in a sorted table, none before is. -/
theorem host_before_span
    (hSorted : codes.Pairwise (· ≤ ·))
    (hSpan : (lo, hi) ∈ hostSpans codes)
    {i : ℕ}
    (hBefore : i < lo) :
    codes[i]? ≠ codes[lo]? := by
  rcases span_spec hSpan with ⟨hLt, hLe, hStart, _⟩
  rcases (mem_boundaries.mp hStart).2 with hZero | hNew
  · omega
  · have hLoLt : lo < codes.length := by omega
    have hPrev : lo - 1 < codes.length := by omega
    have hILt : i < codes.length := by omega
    rw [List.getElem?_eq_getElem hLoLt,
      List.getElem?_eq_getElem hPrev] at hNew
    rw [List.getElem?_eq_getElem hLoLt,
      List.getElem?_eq_getElem hILt]
    have hOrder := List.pairwise_iff_getElem.mp hSorted
    intro hSame
    rw [Option.some.injEq] at hSame
    have hLeLo : codes[lo - 1] ≤ codes[lo] :=
      hOrder (lo - 1) lo hPrev hLoLt (by omega)
    have hLePrev : codes[i] ≤ codes[lo - 1] := by
      rcases Nat.lt_or_ge i (lo - 1) with hFar | hNear
      · exact hOrder i (lo - 1) hILt hPrev hFar
      · have hIs : i = lo - 1 := by omega
        subst hIs
        exact le_rfl
    apply hNew
    rw [hSame] at hLePrev
    exact congrArg some (le_antisymm hLePrev hLeLo)

end Host

------------------------------------------------------------
-- Parts and windows
------------------------------------------------------------

theorem getElem?_part
    {α : Type}
    {l : List α}
    {lo hi k : ℕ}
    (hLt : k < hi - lo) :
    (part l lo hi)[k]? = l[lo + k]? := by
  unfold part
  rw [List.getElem?_take_of_lt hLt, List.getElem?_drop]

theorem length_part
    {α : Type}
    {l : List α}
    {lo hi : ℕ}
    (hHi : hi ≤ l.length) :
    (part l lo hi).length = hi - lo := by
  unfold part
  rw [List.length_take, List.length_drop]
  omega

@[simp] theorem length_hostWindows
    (scaled : List (Vec ι 𝕜))
    (L : ℕ)
    (zeroState : Vec ι 𝕜) :
    (hostWindows scaled L zeroState).length =
      scaled.length := by
  simp [hostWindows]

/- A trailing window is what came before, padded, and a row. -/
theorem getElem?_hostWindows
    {scaled : List (Vec ι 𝕜)}
    {m : ℕ}
    (zeroState : Vec ι 𝕜)
    {k : ℕ}
    {current : Vec ι 𝕜}
    (hAt : scaled[k]? = some current) :
    (hostWindows scaled (m + 1) zeroState)[k]? =
      some (leftPadded m zeroState (scaled.take k) ++ [current])
    := by
  rcases List.getElem?_eq_some_iff.mp hAt with ⟨hLt, hValue⟩
  have hTaken : (scaled.take k).length = k := by
    rw [List.length_take]
    omega
  have hSplit :
      scaled = scaled.take k ++ current :: scaled.drop (k + 1) := by
    conv_lhs => rw [← List.take_append_drop k scaled]
    rw [List.drop_eq_getElem_cons hLt, hValue]
  have hDrop :
      (List.replicate m zeroState ++ scaled).drop k =
        leftPadded m zeroState (scaled.take k) ++
          current :: scaled.drop (k + 1) := by
    conv_lhs => rw [hSplit]
    rw [← List.append_assoc,
      List.drop_append_of_le_length
        (by rw [List.length_append, hTaken]; omega),
      List.drop_append, List.drop_replicate,
      List.length_replicate]
    unfold leftPadded
    rw [hTaken]
  have hLength :
      (leftPadded m zeroState (scaled.take k)).length = m := by
    unfold leftPadded
    rw [List.length_append, List.length_replicate,
      List.length_drop, hTaken]
    omega
  unfold hostWindows
  dsimp only
  rw [List.getElem?_map, List.getElem?_range hLt,
    Option.map_some, Nat.add_sub_cancel, hDrop,
    List.take_append, hLength,
    List.take_of_length_le (by omega)]
  simp

------------------------------------------------------------
-- The window of a row
------------------------------------------------------------

section Rows

variable {df : List (StateRow ι 𝕜)}
variable {lo hi i : ℕ}
variable {row : StateRow ι 𝕜}

/- The hosts of a sorted table are sorted. -/
theorem sorted_codes (table : List (StateRow ι 𝕜)) :
    ((sortRows table).map StateRow.hostId).Pairwise (· ≤ ·)
    := by
  rw [List.pairwise_map]
  apply (sortByKey_pairwise StateRow.key table).imp
  intro a b hKey
  rcases (StateRow.key_le_iff a b).mp hKey with hLt | hSame
  · exact hLt.le
  · exact hSame.1.le

/- The earlier rows of a host are those of its span. -/
theorem filter_take
    (hSorted : (df.map StateRow.hostId).Pairwise (· ≤ ·))
    (hSpan : (lo, hi) ∈ hostSpans (df.map StateRow.hostId))
    (hLo : lo ≤ i)
    (hHi : i < hi)
    (hRow : df[i]? = some row) :
    (df.take i).filter (fun r => r.hostId = row.hostId) =
      part df lo i := by
  have hLe := (span_spec hSpan).2.1
  rw [List.length_map] at hLe
  have hCode :
      (df.map StateRow.hostId)[lo]? = some row.hostId := by
    rw [← host_of_span hSpan hLo hHi, List.getElem?_map, hRow]
    rfl
  have hSplit : df.take i = df.take lo ++ part df lo i := by
    have hAdd : i = lo + (i - lo) := by omega
    conv_lhs => rw [hAdd, List.take_add]
    rfl
  have hBefore :
      (df.take lo).filter (fun r => r.hostId = row.hostId) =
        [] := by
    rw [List.filter_eq_nil_iff]
    intro r hMem
    rcases List.getElem?_of_mem hMem with ⟨j, hAt⟩
    have hJ : j < lo := by
      rcases List.getElem?_eq_some_iff.mp hAt with ⟨hJ, _⟩
      rw [List.length_take] at hJ
      omega
    rw [List.getElem?_take_of_lt hJ] at hAt
    rw [decide_eq_true_eq]
    intro hSame
    apply host_before_span hSorted hSpan hJ
    rw [hCode, List.getElem?_map, hAt, ← hSame]
    rfl
  have hWithin :
      (part df lo i).filter (fun r => r.hostId = row.hostId) =
        part df lo i := by
    rw [List.filter_eq_self]
    intro r hMem
    rcases List.getElem?_of_mem hMem with ⟨j, hAt⟩
    have hJ : j < i - lo := by
      rcases List.getElem?_eq_some_iff.mp hAt with ⟨hJ, _⟩
      rw [length_part (by omega)] at hJ
      exact hJ
    rw [getElem?_part hJ] at hAt
    have hHost :=
      host_of_span hSpan (by omega : lo ≤ lo + j) (by omega)
    rw [hCode, List.getElem?_map, hAt, Option.map_some,
      Option.some.injEq] at hHost
    exact decide_eq_true hHost
  rw [hSplit, List.filter_append, hBefore, hWithin,
    List.nil_append]

/- So its window is the history that is served. -/
theorem window_of_span
    (scaler : Vec ι 𝕜 → Vec ι 𝕜)
    {m : ℕ}
    (hSorted : (df.map StateRow.hostId).Pairwise (· ≤ ·))
    (hSpan : (lo, hi) ∈ hostSpans (df.map StateRow.hostId))
    (hLo : lo ≤ i)
    (hHi : i < hi)
    (hRow : df[i]? = some row) :
    let scaled :=
      part (df.map (fun row => scaler row.features)) lo hi
    let x := servedWindow scaler (m + 1) (df.take i) row
    (hostWindows scaled (m + 1) (scaler 0))[i - lo]? =
        some x.states ∧
      scaled[i - lo]? = some x.current := by
  intro scaled x
  have hCurrent : scaled[i - lo]? = some (scaler row.features) := by
    have hPlace : lo + (i - lo) = i := by omega
    rw [getElem?_part (by omega), List.getElem?_map, hPlace,
      hRow]
    rfl
  have hEarlier :
      scaled.take (i - lo) =
        (part df lo i).map (fun r => scaler r.features) := by
    have hMin : min (i - lo) (hi - lo) = i - lo := by omega
    unfold scaled part
    rw [List.take_take, hMin, ← List.map_drop, ← List.map_take]
  refine ⟨?_, hCurrent⟩
  rw [getElem?_hostWindows (scaler 0) hCurrent, hEarlier,
    ← filter_take hSorted hSpan hLo hHi hRow]
  rfl

end Rows

------------------------------------------------------------
-- The slices
------------------------------------------------------------

section Served

variable {model}
variable {x : Window ι 𝕜}

theorem prevOne_states (x : Window ι 𝕜) :
    x.states.dropLast.getLast?.getD 0 = x.previous.getD 0 := by
  unfold Window.states Window.previous
  rw [List.dropLast_concat]

theorem prevTwo_states (x : Window ι 𝕜) :
    x.states.dropLast.dropLast.getLast?.getD 0 =
      x.beforePrevious.getD 0 := by
  unfold Window.states Window.beforePrevious
  rw [List.dropLast_concat]

theorem logvarOf_states
    {L : ℕ}
    (hL : 3 ≤ L) :
    logvarOf model L x.states (x.previous.getD 0)
        (x.beforePrevious.getD 0) =
      (model.observedContext x).logvar := by
  unfold logvarOf
  rw [if_pos (by omega)]
  rfl

end Served

/- The history that is served at a place of a table. -/
def servedAt
    (scaler : Vec ι 𝕜 → Vec ι 𝕜)
    (L : ℕ)
    (df : List (StateRow ι 𝕜))
    (i : ℕ) : Window ι 𝕜 :=
  match df[i]? with
  | none =>
      { earlier := []
        current := 0 }
  | some row => servedWindow scaler L (df.take i) row

section Slices

variable {df : List (StateRow ι 𝕜)}
variable {lo hi : ℕ}
variable (scaler : Vec ι 𝕜 → Vec ι 𝕜)
variable {L : ℕ}

/- The scaled rows of a span, and their windows. -/
theorem span_rows
    (hL : 3 ≤ L)
    (hSorted : (df.map StateRow.hostId).Pairwise (· ≤ ·))
    (hSpan : (lo, hi) ∈ hostSpans (df.map StateRow.hostId))
    {k : ℕ}
    (hK : k < hi - lo) :
    let scaled :=
      part (df.map (fun row => scaler row.features)) lo hi
    let windows := hostWindows scaled L (scaler 0)
    let x := servedAt scaler L df (lo + k)
    scaled[k]? = some x.current ∧
      windows[k]? = some x.states ∧
      (prevOne L (scaler 0) windows)[k]? =
        some (x.previous.getD 0) ∧
      (prevTwo L (scaler 0) windows)[k]? =
        some (x.beforePrevious.getD 0) := by
  intro scaled windows x
  have hLe := (span_spec hSpan).2.1
  rw [List.length_map] at hLe
  have hI : lo + k < df.length := by omega
  have hRow := List.getElem?_eq_getElem hI
  have hX :
      x = servedWindow scaler L (df.take (lo + k)) df[lo + k] := by
    unfold x servedAt
    rw [hRow]
  rcases Nat.exists_eq_add_of_le' (by omega : 1 ≤ L) with
    ⟨m, rfl⟩
  have hWindow :=
    window_of_span scaler (m := m) hSorted hSpan (by omega)
      (by omega) hRow
  rw [Nat.add_sub_cancel_left, ← hX] at hWindow
  have hStates : windows[k]? = some x.states := hWindow.1
  refine ⟨hWindow.2, hStates, ?_, ?_⟩
  · unfold prevOne
    rw [if_pos (by omega), List.getElem?_map, hStates,
      Option.map_some, prevOne_states]
  · unfold prevTwo
    rw [if_pos hL, List.getElem?_map, hStates,
      Option.map_some, prevTwo_states]

/- A span has as many scaled rows as it has places. -/
theorem length_span
    (hSpan : (lo, hi) ∈ hostSpans (df.map StateRow.hostId)) :
    (part (df.map (fun row => scaler row.features)) lo
        hi).length =
      hi - lo := by
  have hLe := (span_spec hSpan).2.1
  rw [List.length_map] at hLe
  apply length_part
  rw [List.length_map]
  exact hLe

@[simp] theorem length_prevOne
    (L : ℕ)
    (zeroState : Vec ι 𝕜)
    (windows : List (List (Vec ι 𝕜))) :
    (prevOne L zeroState windows).length = windows.length := by
  unfold prevOne
  split_ifs <;> simp

@[simp] theorem length_prevTwo
    (L : ℕ)
    (zeroState : Vec ι 𝕜)
    (windows : List (List (Vec ι 𝕜))) :
    (prevTwo L zeroState windows).length = windows.length := by
  unfold prevTwo
  split_ifs <;> simp

/- Every slice of `delta` has what is served, -/
theorem fills_delta
    (hL : 3 ≤ L)
    (hSorted : (df.map StateRow.hostId).Pairwise (· ≤ ·)) :
    ∀ w ∈ deltaWrites
        (df.map (fun row => scaler row.features)) L (scaler 0)
        (hostSpans (df.map StateRow.hostId)),
      List.Fills
        (fun i =>
          (model.observedContext
            (servedAt scaler L df i)).delta)
        df.length w.1 w.2 := by
  intro w hMem
  rcases List.mem_map.mp hMem with ⟨⟨lo, hi⟩, hSpan, rfl⟩
  have hLe := (span_spec hSpan).2.1
  have hLt := (span_spec hSpan).1
  rw [List.length_map] at hLe
  have hLength := length_span scaler hSpan
  constructor
  · simp [hLength]
    omega
  · intro k hK
    rw [List.length_zipWith, length_prevOne,
      length_hostWindows, min_self, hLength] at hK
    rcases span_rows scaler hL hSorted hSpan hK with
      ⟨hCurrent, _, hPrev, _⟩
    dsimp only
    rw [List.getElem?_zipWith, hCurrent, hPrev]
    rfl

/- every one of `hidden`, -/
theorem fills_hidden
    (hL : 3 ≤ L)
    (hSorted : (df.map StateRow.hostId).Pairwise (· ≤ ·))
    (chunkRows : ℕ) :
    ∀ w ∈ hiddenWrites model
        (df.map (fun row => scaler row.features)) L chunkRows
        (scaler 0) (hostSpans (df.map StateRow.hostId)),
      List.Fills
        (fun i =>
          (model.observedContext
            (servedAt scaler L df i)).hidden)
        df.length w.1 w.2 := by
  intro w hMem
  rcases List.mem_flatMap.mp hMem with ⟨⟨lo, hi⟩, hSpan, hMem⟩
  rcases List.mem_map.mp hMem with ⟨c0, hC0, rfl⟩
  have hLe := (span_spec hSpan).2.1
  rw [List.length_map] at hLe
  have hLength := length_span scaler hSpan
  have hStart := (mem_chunkStarts.mp hC0).1
  dsimp only at hStart ⊢
  rw [hLength] at hStart ⊢
  have hPart :
      (part
          (hostWindows
            (part (df.map (fun row => scaler row.features)) lo hi)
            L (scaler 0))
          c0 (min (c0 + chunkRows) (hi - lo))).length =
        min (c0 + chunkRows) (hi - lo) - c0 := by
    apply length_part
    rw [length_hostWindows, hLength]
    exact min_le_right _ _
  constructor
  · rw [List.length_map, hPart]
    omega
  · intro k hK
    rw [List.length_map, hPart] at hK
    have hWithin : c0 + k < hi - lo := by omega
    have hWindow :=
      (span_rows scaler hL hSorted hSpan hWithin).2.1
    rw [List.getElem?_map, getElem?_part hK, hWindow,
      Nat.add_assoc]
    rfl

/- and every one of `logvar`. -/
theorem fills_logvar
    (hL : 3 ≤ L)
    (hSorted : (df.map StateRow.hostId).Pairwise (· ≤ ·))
    (chunkRows : ℕ) :
    ∀ w ∈ logvarWrites model
        (df.map (fun row => scaler row.features)) L chunkRows
        (scaler 0) (hostSpans (df.map StateRow.hostId)),
      List.Fills
        (fun i =>
          (model.observedContext
            (servedAt scaler L df i)).logvar)
        df.length w.1 w.2 := by
  intro w hMem
  rcases List.mem_flatMap.mp hMem with ⟨⟨lo, hi⟩, hSpan, hMem⟩
  rcases List.mem_map.mp hMem with ⟨c0, hC0, rfl⟩
  have hLe := (span_spec hSpan).2.1
  rw [List.length_map] at hLe
  have hLength := length_span scaler hSpan
  have hStart := (mem_chunkStarts.mp hC0).1
  dsimp only at hStart ⊢
  rw [hLength] at hStart ⊢
  have hParts :
      ∀ {α : Type} (l : List α), l.length = hi - lo →
        (part l c0 (min (c0 + chunkRows) (hi - lo))).length =
          min (c0 + chunkRows) (hi - lo) - c0 := by
    intro α l hL
    apply length_part
    rw [hL]
    exact min_le_right _ _
  have hAll :=
    hParts
      (hostWindows
        (part (df.map (fun row => scaler row.features)) lo hi) L
        (scaler 0))
      (by rw [length_hostWindows, hLength])
  have hOne :=
    hParts
      (prevOne L (scaler 0)
        (hostWindows
          (part (df.map (fun row => scaler row.features)) lo hi) L
          (scaler 0)))
      (by rw [length_prevOne, length_hostWindows, hLength])
  have hTwo :=
    hParts
      (prevTwo L (scaler 0)
        (hostWindows
          (part (df.map (fun row => scaler row.features)) lo hi) L
          (scaler 0)))
      (by rw [length_prevTwo, length_hostWindows, hLength])
  constructor
  · rw [List.length_zipWith, List.length_zip, hAll, hOne, hTwo]
    omega
  · intro k hK
    rw [List.length_zipWith, List.length_zip, hAll, hOne, hTwo,
      min_self, min_self] at hK
    have hWithin : c0 + k < hi - lo := by omega
    rcases span_rows scaler hL hSorted hSpan hWithin with
      ⟨_, hWindow, hPrev, hBefore⟩
    have hZip :
        (List.zip
            (part
              (prevOne L (scaler 0)
                (hostWindows
                  (part
                    (df.map (fun row => scaler row.features)) lo
                    hi)
                  L (scaler 0)))
              c0 (min (c0 + chunkRows) (hi - lo)))
            (part
              (prevTwo L (scaler 0)
                (hostWindows
                  (part
                    (df.map (fun row => scaler row.features)) lo
                    hi)
                  L (scaler 0)))
              c0 (min (c0 + chunkRows) (hi - lo))))[k]? =
          some
            ((servedAt scaler L df (lo + (c0 + k))).previous.getD
                0,
              (servedAt scaler L df
                (lo + (c0 + k))).beforePrevious.getD 0) := by
      rw [List.getElem?_zip_eq_some]
      rw [getElem?_part hK, getElem?_part hK]
      exact ⟨hPrev, hBefore⟩
    rw [List.getElem?_zipWith, getElem?_part hK, hWindow, hZip,
      Nat.add_assoc]
    exact congrArg some (logvarOf_states hL)

end Slices

------------------------------------------------------------
-- The whole table
------------------------------------------------------------

/- An array whose slices are right and cover a place. -/
theorem getElem?_filled
    {α : Type}
    [Zero α]
    {n : ℕ}
    {writes : List (ℕ × List α)}
    {f : ℕ → α}
    (hFills : ∀ w ∈ writes, List.Fills f n w.1 w.2)
    {i : ℕ}
    (hCovered : ∃ w ∈ writes, w.1 ≤ i ∧ i < w.1 + w.2.length) :
    (filled n writes)[i]? = some (f i) := by
  apply List.getElem?_foldl_writeAt
  · intro w hMem
    rw [List.length_replicate]
    exact hFills w hMem
  · exact Or.inr hCovered

/- Every place is in a chunk of a span. -/
theorem exists_chunk
    {df : List (StateRow ι 𝕜)}
    (scaler : Vec ι 𝕜 → Vec ι 𝕜)
    {chunkRows i : ℕ}
    (hChunk : 0 < chunkRows)
    (hLt : i < df.length) :
    ∃ lo hi c0,
      (lo, hi) ∈ hostSpans (df.map StateRow.hostId) ∧
        lo ≤ i ∧ i < hi ∧
        c0 ∈ chunkStarts
            (part (df.map (fun row => scaler row.features)) lo
              hi).length
            chunkRows ∧
          lo + c0 ≤ i ∧
            i < lo + min (c0 + chunkRows) (hi - lo) := by
  have hCodes : i < (df.map StateRow.hostId).length := by
    rw [List.length_map]
    exact hLt
  rcases exists_span hCodes with ⟨lo, hi, hSpan, hLo, hHi⟩
  have hWithin : i - lo < hi - lo := by omega
  rcases exists_chunkStart hChunk hWithin with
    ⟨c0, hC0, hFrom, hTo⟩
  rw [← length_span scaler hSpan] at hC0
  exact
    ⟨lo, hi, c0, hSpan, hLo, hHi, hC0, by omega, by omega⟩

/-
  Every row of the context of a table is what the world model
  computes for the history that is served at the row.
-/
theorem buildHeadContext_served
    (table : List (StateRow ι 𝕜))
    (scaler : Vec ι 𝕜 → Vec ι 𝕜)
    {L chunkRows : ℕ}
    (hL : 3 ≤ L)
    (hChunk : 1 ≤ chunkRows)
    {i : ℕ}
    {row : StateRow ι 𝕜}
    (hRow : (sortRows table)[i]? = some row) :
    IsServed model
      (buildHeadContext model table scaler L chunkRows) i row
      (servedWindow scaler L ((sortRows table).take i) row)
    := by
  have hLt : i < (sortRows table).length :=
    (List.getElem?_eq_some_iff.mp hRow).1
  have hSorted := sorted_codes table
  have hServed :
      servedAt scaler L (sortRows table) i =
        servedWindow scaler L ((sortRows table).take i)
          row := by
    unfold servedAt
    rw [hRow]
  rcases exists_chunk scaler hChunk hLt with
    ⟨lo, hi, c0, hSpan, hLo, hHi, hC0, hFrom, hTo⟩
  have hLength := length_span scaler hSpan
  rw [← hServed]
  refine
    { hostId := ?_
      windowTs := ?_
      hidden := ?_
      delta := ?_
      logvar := ?_ }
  · change ((sortRows table).map StateRow.hostId)[i]? = _
    rw [List.getElem?_map, hRow]
    rfl
  · change ((sortRows table).map StateRow.windowTs)[i]? = _
    rw [List.getElem?_map, hRow]
    rfl
  · apply
      getElem?_filled
        (fills_hidden model scaler hL hSorted chunkRows)
    refine
      ⟨_, List.mem_flatMap.mpr
        ⟨(lo, hi), hSpan, List.mem_map.mpr ⟨c0, hC0, rfl⟩⟩,
        hFrom, ?_⟩
    dsimp only
    rw [List.length_map, length_part, hLength]
    · omega
    · rw [length_hostWindows]
      exact min_le_right _ _
  · apply getElem?_filled (fills_delta model scaler hL hSorted)
    refine
      ⟨_, List.mem_map.mpr ⟨(lo, hi), hSpan, rfl⟩, hLo, ?_⟩
    simp [hLength]
    omega
  · apply
      getElem?_filled
        (fills_logvar model scaler hL hSorted chunkRows)
    refine
      ⟨_, List.mem_flatMap.mpr
        ⟨(lo, hi), hSpan, List.mem_map.mpr ⟨c0, hC0, rfl⟩⟩,
        hFrom, ?_⟩
    dsimp only
    rw [List.length_zipWith, List.length_zip, hLength,
      length_part, length_part, length_part]
    · omega
    · rw [length_prevTwo, length_hostWindows, hLength]
      exact min_le_right _ _
    · rw [length_prevOne, length_hostWindows, hLength]
      exact min_le_right _ _
    · rw [length_hostWindows, hLength]
      exact min_le_right _ _

end Definitions

------------------------------------------------------------
-- A table of two hosts
------------------------------------------------------------

/- A model whose memory is the sum of the states. -/
def summing : WorldModel Unit Unit ℚ ℚ :=
  { encoder :=
      { cell := fun x h => h + x ()
        output := fun h _ => h
        blank := 0 }
    transition :=
      { logvarMin := -6
        forward := fun h cur prev =>
          (fun _ => 0, fun _ => h () + cur () - prev ()) }
    riskHead := .perState (fun _ => 0)
    stageHead :=
      { stages := 6
        net := fun _ _ => 0 }
    stateClamp := 10
    featureMask := none }

/- A benign row with one state column. -/
def rowOf
    (hostId : String)
    (windowTs : ℤ)
    (state : ℚ) : StateRow Unit ℚ :=
  { hostId := hostId
    windowTs := windowTs
    features := fun _ => state
    stageLabel := .benign
    riskLabel := 0
    splitGroup := none }

def twoHosts : List (StateRow Unit ℚ) :=
  [rowOf "10.0.0.2" 0 5, rowOf "10.0.0.1" 60 2,
    rowOf "10.0.0.1" 0 1]

/- The second row of the first host, in chunks of one row. -/
theorem buildHeadContext_served_twoHosts :
    IsServed summing
      (buildHeadContext summing twoHosts (fun s => s + 1) 3 1)
      1
      (rowOf "10.0.0.1" 60 2)
      (servedWindow (fun s => s + 1) 3
        ((sortRows twoHosts).take 1)
        (rowOf "10.0.0.1" 60 2)) :=
  buildHeadContext_served summing twoHosts (fun s => s + 1)
    (by decide) (by decide) rfl

end Training

end Nidra
