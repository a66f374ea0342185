import Nidra.Features.Distributions
import Nidra.Training.StateTable

/-
  This file states the packet features of one host and window
  from the numbers that its packets carry, on both sides: by
  the features worker, from running sums and value counts,
  and by the aggregates of training, from full columns.

  Key definitions include:
    * `Packet`, `Packet.event`, `Packet.row`
    * `servedStats`, `trainedStats`
    * `tcpLens`, `frameLens`, `payloadLens`

  Main declarations:
    * `hashOf_packetHash`
    * `trainedFrom_trainedStats`
-/

namespace Nidra

namespace Parity

open Features Training

set_option linter.unusedSectionVars false

variable {𝕜 : Type}
variable [Field 𝕜] [LinearOrder 𝕜] [FloorRing 𝕜]

------------------------------------------------------------
-- Packets
------------------------------------------------------------

/-
  A packet as it is read from a capture. What belongs to a
  layer that the packet lacks is missing.
-/
structure Packet where
  time : ℚ
  dstIp : String
  srcPort : Option ℤ
  dstPort : Option ℤ
  protocol : Option ℤ
  ttl : Option ℕ
  tcpWindow : Option ℕ
  frameLen : ℕ
  tcpLen : Option ℕ
  tcpFlags : Option ℕ
  frag : Bool
  retransmission : Bool

/- A number that may be missing. -/
def number (value : Option ℕ) : Option 𝕜 :=
  value.map (fun (x : ℕ) => (x : 𝕜))

namespace Packet

/- The measurements of the packet's event. -/
def fields (p : Packet) : PacketField → Option 𝕜
  | .ttl => number p.ttl
  | .tcpWindow => number p.tcpWindow
  | .frag => some (indicator p.frag)
  | .frameLen => some (p.frameLen : 𝕜)
  | .tcpLen => number p.tcpLen
  | .tcpFlags => number p.tcpFlags
  | .retransmission => some (indicator p.retransmission)

/- The event that is served for the packet. -/
def event
    (tenantId jobId host : String)
    (p : Packet) : RawEvent 𝕜 :=
  { tenantId := tenantId
    jobId := jobId
    ts := p.time
    srcIp := host
    dstIp := p.dstIp
    srcPort := p.srcPort
    dstPort := p.dstPort
    protocol := p.protocol
    measurements := .packet p.fields
    nonempty := ⟨.frameLen, nofun⟩ }

/-
  The row that training extracts for the packet. A packet
  without a TCP length counts with its whole frame.
-/
def row
    (host : String)
    (windowTs : ℤ)
    (p : Packet) : PacketRow 𝕜 :=
  { ipSrc := host
    windowTs := windowTs
    ipTtl := number p.ttl
    tcpWindowSizeValue := number p.tcpWindow
    payloadLen := number (some (p.tcpLen.getD p.frameLen))
    isFragment := p.frag
    isRetransmission := p.retransmission }

end Packet

/- The hash that is served for some packets of a window. -/
def packetHash
    (tenantId jobId host : String)
    (packets : List Packet) : Tally (WindowField 𝕜) 𝕜 :=
  (packets.map
    (fun p => eventIncrements (p.event tenantId jobId host))
      ).foldl Tally.merge .empty

/- The features that are served for them. -/
def servedStats
    [ExpLog 𝕜]
    (tenantId jobId host : String)
    (packets : List Packet) : PacketFeature → 𝕜 :=
  packetFeatures
    (WindowAccumulator.fromHash
      (packetHash tenantId jobId host packets))

/- The features that training computes for them. -/
def trainedStats
    [ExpLog 𝕜]
    (host : String)
    (windowTs : ℤ)
    (packets : List Packet) : PacketFeature → 𝕜 :=
  (lookupKey
      (aggregatePackets
        (packets.map (Packet.row host windowTs)))
      (host, windowTs)).getD (fun _ => 0)

------------------------------------------------------------
-- The numbers that packets carry
------------------------------------------------------------

def ttls (packets : List Packet) : List ℕ :=
  packets.filterMap Packet.ttl

def windowSizes (packets : List Packet) : List ℕ :=
  packets.filterMap Packet.tcpWindow

def tcpLens (packets : List Packet) : List ℕ :=
  packets.filterMap Packet.tcpLen

/- The frames of the packets without a TCP length. -/
def frameLens (packets : List Packet) : List ℕ :=
  packets.filterMap
    (fun p =>
      if p.tcpLen = none then some p.frameLen else none)

/- The lengths that training counts as payload. -/
def payloadLens (packets : List Packet) : List ℕ :=
  packets.map (fun p => p.tcpLen.getD p.frameLen)

def numbers (l : List ℕ) : List 𝕜 :=
  l.map (fun (x : ℕ) => (x : 𝕜))

@[simp] theorem length_numbers (l : List ℕ) :
    (numbers l : List 𝕜).length = l.length := by
  simp [numbers]

theorem sum_numbers (l : List ℕ) :
    (numbers l : List 𝕜).sum = (l.sum : ℕ) := by
  simp [numbers, Nat.cast_list_sum]

theorem sum_sq_numbers (l : List ℕ) :
    ((numbers l).map (fun (x : 𝕜) => x ^ 2)).sum =
      (((l.map (fun x => x ^ 2)).sum : ℕ) : 𝕜) := by
  rw [Nat.cast_list_sum, numbers, List.map_map, List.map_map]
  congr 1
  apply List.map_congr_left
  intro x _
  simp

/- The numbers that are present in some rows. -/
theorem filterMap_number
    {α : Type}
    (f : α → Option ℕ)
    (rows : List α) :
    (rows.filterMap (fun row => number (f row)) : List 𝕜) =
      numbers (rows.filterMap f) := by
  unfold numbers
  rw [List.map_filterMap]
  rfl

/- A sum over what is present. -/
theorem sum_ifPresent
    {α : Type}
    (f : α → Option ℕ)
    (g : 𝕜 → 𝕜)
    (rows : List α) :
    (rows.map (fun row => ifPresent (number (f row)) g)).sum =
      ((numbers (rows.filterMap f)).map g).sum := by
  induction rows with
  | nil => rfl
  | cons row rows ih =>
      rw [List.map_cons, List.sum_cons, ih]
      cases hRow : f row with
      | none =>
          rw [List.filterMap_cons_none hRow]
          simp [ifPresent, number]
      | some x =>
          rw [List.filterMap_cons_some hRow]
          simp [ifPresent, number, numbers]

------------------------------------------------------------
-- What is served
------------------------------------------------------------

section Served

variable (tenantId jobId host : String)
variable (packets : List Packet)

/- A field of the hash is what the packets add to it. -/
theorem count_packetHash
    (k : WindowField 𝕜)
    (hPlain : Plain k) :
    (packetHash tenantId jobId host packets).count k =
      (packets.map (fun p => packetAdds p.fields k)).sum := by
  unfold packetHash
  rw [Tally.count_foldl_merge, Tally.count_empty, zero_add,
    List.map_map]
  congr 1
  apply List.map_congr_left
  intro p _
  exact count_eventIncrements rfl hPlain

/- A field that a measurement adds to, if it is present. -/
theorem count_packetHash_of_present
    (k : WindowField 𝕜)
    (hPlain : Plain k)
    (f : Packet → Option ℕ)
    (g : 𝕜 → 𝕜)
    (hAdds :
      ∀ p : Packet,
        packetAdds p.fields k = ifPresent (number (f p)) g) :
    (packetHash tenantId jobId host packets).count k =
      ((numbers (packets.filterMap f)).map g).sum := by
  rw [count_packetHash _ _ _ _ k hPlain]
  simp only [hAdds]
  exact sum_ifPresent f g packets

/- A field that counts the packets with a property. -/
theorem count_packetHash_of_flag
    (k : WindowField 𝕜)
    (hPlain : Plain k)
    (f : Packet → Bool)
    (hAdds :
      ∀ p : Packet,
        packetAdds p.fields k = indicator (f p)) :
    (packetHash tenantId jobId host packets).count k =
      (packets.map (fun p => indicator (f p))).sum := by
  rw [count_packetHash _ _ _ _ k hPlain]
  simp only [hAdds]

theorem unless_indicator
    [NeZero (1 : 𝕜)]
    (b : Bool) :
    (if (indicator b : 𝕜) = 0 then (0 : 𝕜) else 1) =
      indicator b := by
  cases b <;> simp [indicator]

/- What the packets add, field by field. -/
structure HashOf
    (hash : Tally (WindowField 𝕜) 𝕜)
    (packets : List Packet) : Prop where
  nPackets :
    hash.count (.scalar .nPackets) = (packets.length : 𝕜)
  nTtl :
    hash.count (.scalar .nTtl) =
      ((ttls packets).length : 𝕜)
  ttlSum :
    hash.count (.scalar .ttlSum) =
      (numbers (ttls packets) : List 𝕜).sum
  ttlSq :
    hash.count (.scalar .ttlSq) =
      ((numbers (ttls packets)).map
        (fun (x : 𝕜) => x ^ 2)).sum
  nTcpWindow :
    hash.count (.scalar .nTcpWindow) =
      ((windowSizes packets).length : 𝕜)
  tcpWindowSum :
    hash.count (.scalar .tcpWindowSum) =
      (numbers (windowSizes packets) : List 𝕜).sum
  tcpWindow :
    ∀ size,
      hash.count (.tcpWindow size) =
        (((windowSizes packets).map
          (fun (x : ℕ) => (x : ℤ))).count size : 𝕜)
  fragCount :
    hash.count (.scalar .fragCount) =
      (packets.map (fun p => (indicator p.frag : 𝕜))).sum
  nPayload :
    hash.count (.scalar .nPayload) =
      ((tcpLens packets).length : 𝕜)
  payloadSum :
    hash.count (.scalar .payloadSum) =
      (numbers (tcpLens packets) : List 𝕜).sum
  payloadSq :
    hash.count (.scalar .payloadSq) =
      ((numbers (tcpLens packets)).map
        (fun (x : 𝕜) => x ^ 2)).sum
  payload :
    ∀ size,
      hash.count (.payload size) =
        (((tcpLens packets).map
          (fun (x : ℕ) => (x : ℤ))).count size : 𝕜)
  retransCount :
    hash.count (.scalar .retransCount) =
      (packets.map
        (fun p => (indicator p.retransmission : 𝕜))).sum

theorem sum_map_one (l : List 𝕜) :
    (l.map (fun _ => (1 : 𝕜))).sum = (l.length : 𝕜) := by
  simp

theorem truncate_natCast
    [IsStrictOrderedRing 𝕜]
    (x : ℕ) :
    truncate (x : 𝕜) = (x : ℤ) := by
  unfold truncate
  rw [if_pos (Nat.cast_nonneg x), Int.floor_natCast]

/- How many numbers are truncated to a size. -/
theorem sum_truncate
    [IsStrictOrderedRing 𝕜]
    (l : List ℕ)
    (size : ℤ) :
    ((numbers l).map
        (fun (x : 𝕜) =>
          if size = truncate x then (1 : 𝕜) else 0)).sum =
      ((l.map (fun (x : ℕ) => (x : ℤ))).count size : 𝕜) := by
  induction l with
  | nil => simp [numbers]
  | cons x l ih =>
      unfold numbers at ih ⊢
      rw [List.map_cons, List.map_cons, List.sum_cons, ih,
        List.map_cons, List.count_cons, truncate_natCast]
      by_cases hSize : size = (x : ℤ)
      · simp [hSize, add_comm]
      · simp [hSize, Ne.symm hSize]

theorem hashOf_packetHash
    [IsStrictOrderedRing 𝕜] :
    HashOf
      (packetHash tenantId jobId host packets :
        Tally (WindowField 𝕜) 𝕜)
      packets := by
  refine
    { nPackets := ?_
      nTtl := ?_
      ttlSum := ?_
      ttlSq := ?_
      nTcpWindow := ?_
      tcpWindowSum := ?_
      tcpWindow := ?_
      fragCount := ?_
      nPayload := ?_
      payloadSum := ?_
      payloadSq := ?_
      payload := ?_
      retransCount := ?_ }
  · rw [count_packetHash _ _ _ _ (.scalar .nPackets) trivial]
    simp [packetAdds, only]
  · refine
      (count_packetHash_of_present _ _ _ _ (.scalar .nTtl) trivial
        Packet.ttl (fun _ => 1) ?_).trans ?_
    · intro p
      simp [packetAdds, only, Packet.fields]
    · rw [sum_map_one, length_numbers]
      rfl
  · refine
      (count_packetHash_of_present _ _ _ _ (.scalar .ttlSum) trivial
        Packet.ttl (fun x => x) ?_).trans ?_
    · intro p
      simp [packetAdds, only, Packet.fields]
    · rw [List.map_id']
      rfl
  · refine
      (count_packetHash_of_present _ _ _ _ (.scalar .ttlSq) trivial
        Packet.ttl (fun x => x * x) ?_).trans ?_
    · intro p
      simp [packetAdds, only, Packet.fields]
    · simp only [← sq]
      rfl
  · refine
      (count_packetHash_of_present _ _ _ _ (.scalar .nTcpWindow) trivial
        Packet.tcpWindow (fun _ => 1) ?_).trans ?_
    · intro p
      simp [packetAdds, only, Packet.fields]
    · rw [sum_map_one, length_numbers]
      rfl
  · refine
      (count_packetHash_of_present _ _ _ _ (.scalar .tcpWindowSum) trivial
        Packet.tcpWindow (fun x => x) ?_).trans ?_
    · intro p
      simp [packetAdds, only, Packet.fields]
    · rw [List.map_id']
      rfl
  · intro size
    refine
      (count_packetHash_of_present _ _ _ _ (.tcpWindow size)
        trivial Packet.tcpWindow
        (fun x => if size = truncate x then 1 else 0)
        ?_).trans (sum_truncate _ size)
    intro p
    simp [packetAdds, only, Packet.fields]
  · apply count_packetHash_of_flag _ _ _ _ (.scalar .fragCount) trivial
    intro p
    simp [packetAdds, only, Packet.fields, unless_indicator]
  · refine
      (count_packetHash_of_present _ _ _ _ (.scalar .nPayload) trivial
        Packet.tcpLen (fun _ => 1) ?_).trans ?_
    · intro p
      simp [packetAdds, only, Packet.fields]
    · rw [sum_map_one, length_numbers]
      rfl
  · refine
      (count_packetHash_of_present _ _ _ _ (.scalar .payloadSum) trivial
        Packet.tcpLen (fun x => x) ?_).trans ?_
    · intro p
      simp [packetAdds, only, Packet.fields]
    · rw [List.map_id']
      rfl
  · refine
      (count_packetHash_of_present _ _ _ _ (.scalar .payloadSq) trivial
        Packet.tcpLen (fun x => x * x) ?_).trans ?_
    · intro p
      simp [packetAdds, only, Packet.fields]
    · simp only [← sq]
      rfl
  · intro size
    refine
      (count_packetHash_of_present _ _ _ _ (.payload size)
        trivial Packet.tcpLen
        (fun x => if size = truncate x then 1 else 0)
        ?_).trans (sum_truncate _ size)
    intro p
    simp [packetAdds, only, Packet.fields]
  · apply count_packetHash_of_flag _ _ _ _ (.scalar .retransCount) trivial
    intro p
    simp [packetAdds, only, Packet.fields, unless_indicator]

end Served

------------------------------------------------------------
-- What training computes
------------------------------------------------------------

section Trained

variable [ExpLog 𝕜]
variable (host : String)
variable (windowTs : ℤ)
variable (packets : List Packet)

/- The aggregate of the packets, where none counts zero. -/
theorem trainedStats_eq
    (name : PacketFeature) :
    trainedStats host windowTs packets name =
      (packetAggregate
        (packets.map
          (Packet.row (𝕜 := 𝕜) host windowTs)) name).getD
            0 := by
  have hGroups :=
    lookupKey_groups PacketRow.key
      (fun group (name : PacketFeature) =>
        (packetAggregate (𝕜 := 𝕜) group name).getD 0)
  beta_reduce at hGroups
  have hAll :
      (packets.map (Packet.row (𝕜 := 𝕜) host windowTs)).filter
          (fun row => row.key = (host, windowTs)) =
        packets.map (Packet.row host windowTs) := by
    rw [List.filter_eq_self]
    intro row hRow
    rcases List.mem_map.mp hRow with ⟨p, _, rfl⟩
    simp [PacketRow.key, Packet.row]
  unfold trainedStats aggregatePackets
  rw [hGroups, hAll]
  split
  · next hNone =>
      rw [List.map_eq_nil_iff] at hNone
      subst hNone
      cases name <;>
        simp [packetAggregate, Series.mean, varOf,
          binEntropy, Series.quantileAt, Series.present,
          List.reduceOption, average, Training.safeDiv]
  · rfl

/- The columns of the rows have the packets' numbers. -/
theorem present_ipTtl :
    Series.present
        ((packets.map
          (Packet.row (𝕜 := 𝕜) host windowTs)).map
            PacketRow.ipTtl) =
      numbers (ttls packets) := by
  rw [List.map_map, Series.present_map]
  exact filterMap_number Packet.ttl packets

theorem present_tcpWindow :
    Series.present
        ((packets.map
          (Packet.row (𝕜 := 𝕜) host windowTs)).map
            PacketRow.tcpWindowSizeValue) =
      numbers (windowSizes packets) := by
  rw [List.map_map, Series.present_map]
  exact filterMap_number Packet.tcpWindow packets

theorem present_payload :
    Series.present
        ((packets.map
          (Packet.row (𝕜 := 𝕜) host windowTs)).map
            PacketRow.payloadLen) =
      numbers (payloadLens packets) := by
  rw [List.map_map, Series.present_map]
  have hNumbers :=
    filterMap_number (𝕜 := 𝕜)
      (fun p : Packet => some (p.tcpLen.getD p.frameLen))
      packets
  have hLens :
      packets.filterMap
          (fun p => some (p.tcpLen.getD p.frameLen)) =
        payloadLens packets := by
    rw [payloadLens, ← List.filterMap_eq_map]
    rfl
  rw [hLens] at hNumbers
  exact hNumbers

/- A variance, where that of one value or none is zero. -/
theorem varOf_getD
    (column : Series 𝕜) :
    (varOf column).getD 0 =
      Series.populationVariance column.present := by
  unfold varOf Series.var
  split
  · split
    · next hNone =>
        rw [hNone,
          Series.populationVariance_of_length_le_one (by simp)]
        rfl
    · rfl
  · next hFew =>
      have hLength : column.present.length ≤ 1 :=
        (List.reduceOption_length_le column).trans
          (by omega)
      rw [Series.populationVariance_of_length_le_one hLength]
      rfl

/- What training computes, from the numbers. -/
structure TrainedFrom
    (features : PacketFeature → 𝕜)
    (packets : List Packet) : Prop where
  ttlMean :
    features .ttlMean = average (numbers (ttls packets))
  ttlVar :
    features .ttlVar =
      Series.populationVariance (numbers (ttls packets))
  tcpWindowMean :
    features .tcpWindowMean =
      average (numbers (windowSizes packets))
  fragFlagRate :
    features .fragFlagRate =
      (packets.map (fun p => (indicator p.frag : 𝕜))).sum /
        packets.length
  payloadSizeMean :
    features .payloadSizeMean =
      average (numbers (payloadLens packets))
  payloadSizeVar :
    features .payloadSizeVar =
      Series.populationVariance
        (numbers (payloadLens packets))
  payloadSizeP95 :
    features .payloadSizeP95 =
      quantile (95 / 100) (numbers (payloadLens packets))
  retransCount :
    features .retransCount =
      (packets.map
        (fun p => (indicator p.retransmission : 𝕜))).sum
  retransRate :
    features .retransRate =
      (packets.map
          (fun p => (indicator p.retransmission : 𝕜))).sum /
        packets.length

theorem trainedFrom_trainedStats :
    TrainedFrom (𝕜 := 𝕜)
      (trainedStats host windowTs packets) packets := by
  have hMean :=
    Series.mean_getD (𝕜 := 𝕜)
  refine
    { ttlMean := ?_
      ttlVar := ?_
      tcpWindowMean := ?_
      fragFlagRate := ?_
      payloadSizeMean := ?_
      payloadSizeVar := ?_
      payloadSizeP95 := ?_
      retransCount := ?_
      retransRate := ?_ }
  · rw [trainedStats_eq]
    exact (hMean _).trans (by rw [present_ipTtl])
  · rw [trainedStats_eq]
    exact (varOf_getD _).trans (by rw [present_ipTtl])
  · rw [trainedStats_eq]
    exact (hMean _).trans (by rw [present_tcpWindow])
  · rw [trainedStats_eq]
    simp [packetAggregate, average, Packet.row,
      Function.comp_def]
  · rw [trainedStats_eq]
    exact (hMean _).trans (by rw [present_payload])
  · rw [trainedStats_eq]
    exact (varOf_getD _).trans (by rw [present_payload])
  · rw [trainedStats_eq]
    simp only [packetAggregate, Series.quantileAt,
      present_payload]
    split
    · next hNone =>
        rw [hNone]
        simp [quantile, interpolate, ranked]
    · rfl
  · rw [trainedStats_eq]
    simp [packetAggregate, Packet.row, Function.comp_def]
  · rw [trainedStats_eq]
    simp [packetAggregate, Packet.row, Function.comp_def,
      Training.safeDiv]

end Trained

------------------------------------------------------------
-- The six features that are the same
------------------------------------------------------------

section Same

variable [IsStrictOrderedRing 𝕜]

/- The ratio of a running sum is the mean. -/
theorem safeDiv_sum
    (l : List ℕ) :
    Features.safeDiv (numbers l : List 𝕜).sum (l.length : 𝕜) =
      average (numbers l) := by
  rw [← safeDiv_eq_average, length_numbers]

/- The variance of running sums is that of the values. -/
theorem variance_sums
    (l : List ℕ) :
    variance (numbers l : List 𝕜).sum
        ((numbers l).map (fun (x : 𝕜) => x ^ 2)).sum
        (l.length : 𝕜) =
      Series.populationVariance (numbers l) := by
  rw [← variance_eq_populationVariance, length_numbers]

end Same

end Parity

end Nidra
