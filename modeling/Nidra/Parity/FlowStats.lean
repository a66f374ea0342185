import Nidra.Features.Distributions
import Nidra.Training.StateTable

/-
  This file states what the flow features of one host and
  window are, as statistics of the numbers that its flows
  carry, and that both the features worker, from running
  sums, and training, from full columns, compute these.

  Key definitions include:
    * `FlowNumbers`
    * `flowStats`
    * `bucketed`

  Main declarations:
    * `flowFeatures_eq_flowStats`
    * `aggregateFlows_eq_flowStats`
-/

namespace Nidra

namespace Parity

open Features Training

set_option linter.unusedSectionVars false

variable {𝕜 : Type}

------------------------------------------------------------
-- The features of some numbers
------------------------------------------------------------

/- The numbers that a flow carries. -/
abbrev FlowNumbers (𝕜 : Type) :=
  FlowField → 𝕜

/- Packets of a flow, both ways. -/
def FlowNumbers.packets
    [Add 𝕜]
    (x : FlowNumbers 𝕜) : 𝕜 :=
  x .pktsFwd + x .pktsBwd

section Stats

variable [Field 𝕜] [LinearOrder 𝕜]

/- One number of every flow. -/
def numbersOf
    (field : FlowField)
    (flows : List (FlowNumbers 𝕜)) : List 𝕜 :=
  flows.map (fun x => x field)

@[simp] theorem length_numbersOf
    (field : FlowField)
    (flows : List (FlowNumbers 𝕜)) :
    (numbersOf field flows).length = flows.length :=
  List.length_map _

theorem map_sq_numbersOf
    (field : FlowField)
    (flows : List (FlowNumbers 𝕜)) :
    (numbersOf field flows).map (fun v => v ^ 2) =
      flows.map (fun x => x field ^ 2) :=
  List.map_map

/- Share of the packets that have a flag. -/
def flagShare
    (flows : List (FlowNumbers 𝕜))
    (flag : TcpFlag) : 𝕜 :=
  (numbersOf (.flagCount flag) flows).sum /
    (flows.map FlowNumbers.packets).sum

/- What the flow features are of some flows. -/
def flowStats
    (flows : List (FlowNumbers 𝕜)) : FlowFeature → 𝕜
  | .synRatio => flagShare flows .syn
  | .ackRatio => flagShare flows .ack
  | .rstRatio => flagShare flows .rst
  | .finRatio => flagShare flows .fin
  | .pshRatio => flagShare flows .psh
  | .urgRatio => flagShare flows .urg
  | .bytesTotal =>
      (numbersOf .bytesFwd flows).sum +
        (numbersOf .bytesBwd flows).sum
  | .bytesUpDownRatio =>
      (numbersOf .bytesFwd flows).sum /
        (numbersOf .bytesBwd flows).sum
  | .pktsPerFlowMean =>
      average (flows.map FlowNumbers.packets)
  | .flowDurationMean => average (numbersOf .duration flows)
  | .flowDurationVar =>
      Series.populationVariance (numbersOf .duration flows)
  | .iatMean => average (numbersOf .iatMean flows)
  | .iatVar =>
      Series.populationVariance (numbersOf .iatMean flows)
  | .iatMax => largest (numbersOf .iatMax flows)
  | .activeFlowCount => (flows.length : 𝕜)

end Stats

------------------------------------------------------------
-- What is served
------------------------------------------------------------

section Served

variable [Field 𝕜] [LinearOrder 𝕜] [FloorRing 𝕜]

/-
  The numbers as a window counts them: the largest time
  between packets is the bucket it falls into.
-/
def bucketed (x : FlowNumbers 𝕜) : FlowNumbers 𝕜
  | .iatMax => roundTo 6 (x .iatMax)
  | field => x field

/- The measurements of a flow that carries all numbers. -/
def FlowNumbers.measurements
    (x : FlowNumbers 𝕜) : Measurements 𝕜 :=
  .flow (fun field => some (x field))

/- The hash of a window after some events. -/
def windowHash
    (events : List (RawEvent 𝕜)) :
    Tally (WindowField 𝕜) 𝕜 :=
  (events.map eventIncrements).foldl Tally.merge .empty

/- What a flow adds to a running scalar. -/
def scalarAdds (x : FlowNumbers 𝕜) : Counter → 𝕜
  | .nFlows => 1
  | .pktCount => x.packets
  | .flowPkts => x.packets
  | .flag flag => x (.flagCount flag)
  | .bytesUp => x .bytesFwd
  | .bytesDown => x .bytesBwd
  | .durSum => x .duration
  | .durSq => x .duration ^ 2
  | .iatSum => x .iatMean
  | .iatSq => x .iatMean ^ 2
  | _ => 0

theorem flowAdds_scalar
    (x : FlowNumbers 𝕜)
    (name : Counter) :
    flowAdds x (.scalar name) = scalarAdds x name := by
  cases name with
  | flag flag =>
      cases flag <;>
        simp [flowAdds, only, TcpFlag.all, scalarAdds]
  | _ =>
      simp [flowAdds, only, TcpFlag.all, scalarAdds,
        FlowNumbers.packets, sq]

/- One bucket of a flow is counted once. -/
theorem flowAdds_flowIatMax
    (x : FlowNumbers 𝕜)
    (value : 𝕜) :
    flowAdds x (.flowIatMax value) =
      if value = bucketed x .iatMax then 1 else 0 := by
  by_cases hSame : value = roundTo 6 (x .iatMax)
  · simp [flowAdds, only, TcpFlag.all, bucketed, hSame]
  · simp [flowAdds, only, TcpFlag.all, bucketed, hSame]

variable {events : List (RawEvent 𝕜)}
variable {flows : List (FlowNumbers 𝕜)}
variable
  (hNumbers :
    List.Forall₂
      (fun event x =>
        event.measurements = FlowNumbers.measurements x)
      events flows)
include hNumbers

/- A field of the hash is what the flows add to it. -/
theorem count_windowHash
    {k : WindowField 𝕜}
    (hMeasured : Measured k) :
    (windowHash events).count k =
      (flows.map (fun x => flowAdds x k)).sum := by
  unfold windowHash
  rw [Tally.count_foldl_merge, Tally.count_empty, zero_add,
    List.map_map]
  congr 1
  induction hNumbers with
  | nil => rfl
  | cons hFlow _ ih =>
      rw [List.map_cons, List.map_cons, ih]
      exact congrArg (· :: _) (count_flowEvent hFlow hMeasured)

/- A scalar adds up what the flows add. -/
theorem get_windowHash
    (name : Counter)
    (amount : FlowNumbers 𝕜 → 𝕜)
    (hAdds :
      ∀ x : FlowNumbers 𝕜,
        scalarAdds x name = amount (bucketed x)) :
    (WindowAccumulator.fromHash (windowHash events)).get name =
      ((flows.map bucketed).map amount).sum := by
  rw [get_fromHash,
    count_windowHash hNumbers (k := .scalar name) trivial,
    List.map_map]
  simp only [flowAdds_scalar, hAdds]
  rfl

theorem get_nFlows :
    (WindowAccumulator.fromHash (windowHash events)).get
        .nFlows =
      ((flows.map bucketed).length : 𝕜) := by
  rw [get_windowHash hNumbers .nFlows (fun _ => 1)
    (fun _ => rfl)]
  simp [Function.comp_def]

theorem mean_windowHash
    {name : Counter}
    {field : FlowField}
    (hAdds :
      ∀ x : FlowNumbers 𝕜,
        scalarAdds x name = bucketed x field) :
    Features.safeDiv
        ((WindowAccumulator.fromHash
          (windowHash events)).get name)
        ((WindowAccumulator.fromHash
          (windowHash events)).get .nFlows) =
      average (numbersOf field (flows.map bucketed)) := by
  rw [get_windowHash hNumbers name (fun x => x field) hAdds,
    get_nFlows hNumbers, ← length_numbersOf field]
  exact safeDiv_eq_average _

variable [IsStrictOrderedRing 𝕜]

theorem variance_windowHash
    {name squares : Counter}
    {field : FlowField}
    (hAdds :
      ∀ x : FlowNumbers 𝕜,
        scalarAdds x name = bucketed x field)
    (hSquares :
      ∀ x : FlowNumbers 𝕜,
        scalarAdds x squares = bucketed x field ^ 2) :
    variance
        ((WindowAccumulator.fromHash
          (windowHash events)).get name)
        ((WindowAccumulator.fromHash
          (windowHash events)).get squares)
        ((WindowAccumulator.fromHash
          (windowHash events)).get .nFlows) =
      Series.populationVariance
        (numbersOf field (flows.map bucketed)) := by
  rw [get_windowHash hNumbers name (fun x => x field) hAdds,
    get_windowHash hNumbers squares (fun x => x field ^ 2)
      hSquares,
    get_nFlows hNumbers, ← length_numbersOf field,
    ← variance_eq_populationVariance, map_sq_numbersOf]
  rfl

theorem share_windowHash
    (flag : TcpFlag) :
    Features.safeDiv
        ((WindowAccumulator.fromHash
          (windowHash events)).get (.flag flag))
        ((WindowAccumulator.fromHash
          (windowHash events)).get .pktCount) =
      flagShare (flows.map bucketed) flag := by
  rw [get_windowHash hNumbers (.flag flag)
      (fun x => x (.flagCount flag)) (fun _ => rfl),
    get_windowHash hNumbers .pktCount FlowNumbers.packets
      (fun _ => rfl)]
  exact divOrZero_eq_div _ _

/- The last rank of the buckets is the largest number. -/
theorem percentile_windowHash :
    percentile
        (WindowAccumulator.fromHash
          (windowHash events)).flowIatMax.toList 1 =
      largest (numbersOf .iatMax (flows.map bucketed)) := by
  have hCount :
      ∀ value,
        (WindowAccumulator.fromHash
            (windowHash events)).flowIatMax.count value =
          ((numbersOf .iatMax (flows.map bucketed)).count
            value : 𝕜) := by
    intro value
    rw [count_flowIatMax_fromHash,
      count_windowHash hNumbers (k := .flowIatMax value)
        trivial]
    clear hNumbers
    induction flows with
    | nil => simp [numbersOf]
    | cons x flows ih =>
        unfold numbersOf at ih ⊢
        rw [List.map_cons, List.sum_cons, ih, List.map_cons,
          List.map_cons, List.count_cons,
          flowAdds_flowIatMax]
        by_cases hSame : value = bucketed x .iatMax
        · simp [hSame, add_comm]
        · simp [hSame, Ne.symm hSame]
  rw [percentile_of_counts (Tally.positive_perm hCount)
    one_pos le_rfl]
  rcases eq_or_ne (numbersOf .iatMax (flows.map bucketed)) []
    with hNone | hSome
  · rw [hNone]
    simp [ranked, largest]
  · rw [largest_eq_quantile hSome, quantile_one hSome, one_mul,
      Nat.ceil_natCast]

/- What is served are the statistics of the flows. -/
theorem flowFeatures_eq_flowStats :
    flowFeatures
        (WindowAccumulator.fromHash (windowHash events)) =
      flowStats (flows.map bucketed) := by
  have hUp :=
    get_windowHash hNumbers .bytesUp
      (fun x => x .bytesFwd) (fun _ => rfl)
  have hDown :=
    get_windowHash hNumbers .bytesDown
      (fun x => x .bytesBwd) (fun _ => rfl)
  have hPackets :=
    get_windowHash hNumbers .flowPkts FlowNumbers.packets
      (fun _ => rfl)
  have hCount := get_nFlows hNumbers
  funext name
  cases name with
  | synRatio => exact share_windowHash hNumbers .syn
  | ackRatio => exact share_windowHash hNumbers .ack
  | rstRatio => exact share_windowHash hNumbers .rst
  | finRatio => exact share_windowHash hNumbers .fin
  | pshRatio => exact share_windowHash hNumbers .psh
  | urgRatio => exact share_windowHash hNumbers .urg
  | bytesTotal => exact congrArg₂ (· + ·) hUp hDown
  | bytesUpDownRatio =>
      exact
        (congrArg₂ Features.safeDiv hUp hDown).trans
          (divOrZero_eq_div _ _)
  | pktsPerFlowMean =>
      refine
        (congrArg₂ Features.safeDiv hPackets hCount).trans ?_
      exact (divOrZero_eq_div _ _).trans (by
        simp [flowStats, average])
  | flowDurationMean =>
      exact mean_windowHash hNumbers (fun _ => rfl)
  | flowDurationVar =>
      exact
        variance_windowHash hNumbers (fun _ => rfl)
          (fun _ => rfl)
  | iatMean => exact mean_windowHash hNumbers (fun _ => rfl)
  | iatVar =>
      exact
        variance_windowHash hNumbers (fun _ => rfl)
          (fun _ => rfl)
  | iatMax => exact percentile_windowHash hNumbers
  | activeFlowCount => exact hCount

end Served

------------------------------------------------------------
-- What training computes
------------------------------------------------------------

/- The number of a flow that a column holds. -/
def columnField : FlowColumn → FlowField
  | .flowDuration => .duration
  | .totalFwdPackets => .pktsFwd
  | .totalBwdPackets => .pktsBwd
  | .totalLenFwd => .bytesFwd
  | .totalLenBwd => .bytesBwd
  | .flagCount flag => .flagCount flag
  | .flowIatMean => .iatMean
  | .flowIatMax => .iatMax

/- A row has all of its numbers, and they are the flow's. -/
def Carries
    (row : FlowRow 𝕜)
    (x : FlowNumbers 𝕜) : Prop :=
  ∀ column, row.columns column = some (x (columnField column))

section Trained

variable [Field 𝕜] [LinearOrder 𝕜]
variable {flows : List (FlowNumbers 𝕜)}

section Some

variable (hSome : flows ≠ [])
include hSome

/- One row has no variance, in both ways to say it. -/
theorem varOf_map_some
    (field : FlowField) :
    varOf ((numbersOf field flows).map some) =
      some
        (Series.populationVariance (numbersOf field flows)) := by
  unfold varOf Series.var
  rw [Series.present_map_some, List.length_map]
  split
  · rw [if_neg]
    simpa [numbersOf] using hSome
  · next hFew =>
      rw [Series.populationVariance_of_length_le_one
        (by omega)]

theorem max?_numbersOf
    (field : FlowField) :
    (numbersOf field flows).max? =
      some (largest (numbersOf field flows)) := by
  unfold largest
  cases hMax : (numbersOf field flows).max? with
  | none =>
      rw [List.max?_eq_none_iff] at hMax
      have hNone : flows = [] := by
        simpa [numbersOf] using hMax
      exact absurd hNone hSome
  | some last => rfl

end Some

variable {group : List (FlowRow 𝕜)}
variable (hCarries : List.Forall₂ Carries group flows)
include hCarries

theorem column_eq
    (name : FlowColumn) :
    column group name =
      (numbersOf (columnField name) flows).map some := by
  unfold column numbersOf
  induction hCarries with
  | nil => rfl
  | cons hRow _ ih =>
      rw [List.map_cons, List.map_cons, List.map_cons,
        hRow name, ih]

/- What a row adds up of two columns, without gaps. -/
theorem map_getD_add
    (first second : FlowColumn) :
    group.map
        (fun row =>
          (row.columns first).getD 0 +
            (row.columns second).getD 0) =
      flows.map
        (fun x =>
          x (columnField first) + x (columnField second)) := by
  induction hCarries with
  | nil => rfl
  | cons hRow _ ih =>
      rw [List.map_cons, List.map_cons, hRow first,
        hRow second, ih]
      rfl

theorem sum_column
    (name : FlowColumn) :
    (column group name).sum =
      (numbersOf (columnField name) flows).sum := by
  rw [column_eq hCarries, Series.sum, Series.present_map_some]

theorem flagRatio_eq
    (flag : TcpFlag) :
    flagRatio group flag = flagShare flows flag := by
  have hFlags := sum_column hCarries (.flagCount flag)
  have hPackets :=
    map_getD_add hCarries .totalFwdPackets .totalBwdPackets
  unfold flagRatio Training.safeDiv flagShare
  rw [divOrZero_eq_div, hFlags]
  exact congrArg (fun l => _ / List.sum l) hPackets

variable (hSome : flows ≠ [])
include hSome

theorem mean_column
    (name : FlowColumn) :
    (column group name).mean =
      some
        (average (numbersOf (columnField name) flows)) := by
  rw [column_eq hCarries, Series.mean,
    Series.present_map_some, if_neg]
  simpa [numbersOf] using hSome

/- The aggregates of a group are the statistics. -/
theorem flowAggregate_eq_flowStats
    (name : FlowFeature) :
    flowAggregate group name = some (flowStats flows name) := by
  have hPackets :=
    map_getD_add hCarries .totalFwdPackets .totalBwdPackets
  have hBytes :=
    map_getD_add hCarries .totalLenFwd .totalLenBwd
  have hFlag := flagRatio_eq hCarries
  cases name with
  | synRatio => exact congrArg some (hFlag .syn)
  | ackRatio => exact congrArg some (hFlag .ack)
  | rstRatio => exact congrArg some (hFlag .rst)
  | finRatio => exact congrArg some (hFlag .fin)
  | pshRatio => exact congrArg some (hFlag .psh)
  | urgRatio => exact congrArg some (hFlag .urg)
  | bytesTotal =>
      refine
        congrArg some
          ((congrArg List.sum hBytes).trans ?_)
      exact List.sum_map_add
  | bytesUpDownRatio =>
      refine congrArg some ?_
      rw [sum_column hCarries .totalLenFwd,
        sum_column hCarries .totalLenBwd]
      exact divOrZero_eq_div _ _
  | pktsPerFlowMean =>
      exact congrArg (fun l => some (average l)) hPackets
  | flowDurationMean =>
      exact mean_column hCarries hSome .flowDuration
  | flowDurationVar =>
      rw [flowAggregate, column_eq hCarries]
      exact varOf_map_some hSome .duration
  | iatMean =>
      rw [flowAggregate, column_eq hCarries,
        Series.filled_map_some]
      rfl
  | iatVar =>
      rw [flowAggregate, column_eq hCarries,
        Series.filled_map_some]
      exact varOf_map_some hSome .iatMean
  | iatMax =>
      rw [flowAggregate, column_eq hCarries,
        Series.filled_map_some]
      exact max?_numbersOf hSome .iatMax
  | activeFlowCount =>
      exact
        congrArg (fun (n : ℕ) => some (n : 𝕜))
          hCarries.length_eq

omit hCarries in
/- What training computes are the statistics of the flows. -/
theorem aggregateFlows_eq_flowStats
    {table : List (FlowRow 𝕜)}
    {key : HostWindow}
    (hGroup :
      List.Forall₂ Carries
        (table.filter (fun row => row.key = key)) flows) :
    lookupKey (aggregateFlows table) key =
      some (fun name => some (flowStats flows name)) := by
  have hRows :
      table.filter (fun row => row.key = key) ≠ [] := by
    intro hNone
    rw [hNone] at hGroup
    exact hSome (List.forall₂_nil_left_iff.mp hGroup)
  unfold aggregateFlows
  rw [lookupKey_groups FlowRow.key flowAggregate, if_neg hRows]
  congr 1
  funext name
  exact flowAggregate_eq_flowStats hGroup hSome name

end Trained

end Parity

end Nidra
