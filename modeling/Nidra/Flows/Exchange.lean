import Nidra.Flows.Conservation

/-
  This file proves that the flows of a packet table do not
  depend on the direction of its packets: exchanging source
  and destination of every packet exchanges them in every
  flow, and changes nothing else.

  Key definitions include:
    * `Packet.exchange`, `Flow.exchange`

  Main declarations:
    * `flowKey_ends`
    * `assembleRows_exchange`
    * `assembleFlows_conserves`
-/

namespace Nidra

namespace Flows

------------------------------------------------------------
-- Exchanging source and destination
------------------------------------------------------------

def Packet.exchange (p : Packet) : Packet :=
  { p with
    ipSrc := p.ipDst
    ipDst := p.ipSrc
    srcPort := p.dstPort
    dstPort := p.srcPort }

def Row.exchange (row : Row) : Row :=
  { row with
    src := row.dst
    dst := row.src }

def SegRow.exchange (r : SegRow) : SegRow :=
  { r with row := r.row.exchange }

def DirectedRow.exchange (r : DirectedRow) : DirectedRow :=
  { row := r.row.exchange
    flow := r.flow
    fSrc := r.fDst
    fDst := r.fSrc }

def Flow.exchange (f : Flow) : Flow :=
  { f with
    srcIp := f.dstIp
    dstIp := f.srcIp
    srcPort := f.dstPort
    dstPort := f.srcPort }

def Assembled.exchange (f : Assembled) : Assembled :=
  { f with flow := f.flow.exchange }

------------------------------------------------------------
-- Keys
------------------------------------------------------------

/- The key does not depend on the direction. -/
@[simp] theorem flowKey_exchange (row : Row) :
    flowKey row.exchange = flowKey row := by
  unfold flowKey Row.exchange
  dsimp only
  rcases lt_trichotomy row.src.text row.dst.text with
    hLt | hEq | hLt
  · rw [if_neg hLt.not_ge, if_pos hLt.le, if_neg hLt.not_ge,
      if_pos hLt.le]
  · rw [hEq]
  · rw [if_pos hLt.le, if_neg hLt.not_ge, if_pos hLt.le,
      if_neg hLt.not_ge]

theorem Endpoint.text_inj
    {e e' : Endpoint}
    (hText : e.text = e'.text) :
    e = e' := by
  have hCut :=
    String.split_at_last
      (not_mem_toString_int (c := ':') (by decide)
        (by decide) e.port)
      (not_mem_toString_int (by decide) (by decide) e'.port)
      hText
  rcases e with ⟨⟨ip, hIp⟩, port⟩
  rcases e' with ⟨⟨ip', hIp'⟩, port'⟩
  rcases hCut with ⟨hIps, hPorts⟩
  cases hIps
  cases Int.repr_injective hPorts
  rfl

theorem Endpoint.noBar (e : Endpoint) :
    '|' ∉ e.text.toList := by
  unfold Endpoint.text
  rw [String.toList_append, String.toList_append,
    List.mem_append, List.mem_append, not_or, not_or]
  refine ⟨⟨e.ip.noBar, by decide⟩, ?_⟩
  exact not_mem_toString_int (by decide) (by decide) e.port

/- The two ends of a row, in the order of their texts. -/
def ends (row : Row) : Endpoint × Endpoint :=
  if row.src.text ≤ row.dst.text then (row.src, row.dst)
  else (row.dst, row.src)

theorem flowKey_eq (row : Row) :
    flowKey row =
      (ends row).1.text ++ "|" ++ (ends row).2.text ++ "|" ++
        toString row.proto := by
  unfold flowKey ends
  dsimp only
  split_ifs <;> rfl

/-
  Rows of one key have the same two ends, in one of the two
  directions.
-/
theorem flowKey_ends
    {row row' : Row}
    (hKey : flowKey row = flowKey row') :
    (row.src = row'.src ∧ row.dst = row'.dst) ∨
      (row.src = row'.dst ∧ row.dst = row'.src) := by
  have hEnds : ends row = ends row' := by
    rw [flowKey_eq, flowKey_eq] at hKey
    have hProto :=
      String.split_at_last
        (not_mem_toString_int (c := '|') (by decide)
          (by decide) row.proto)
        (not_mem_toString_int (by decide) (by decide)
          row'.proto)
        hKey
    have hCut :=
      String.split_at_last (Endpoint.noBar _)
        (Endpoint.noBar _) hProto.1
    exact
      Prod.ext (Endpoint.text_inj hCut.1)
        (Endpoint.text_inj hCut.2)
  unfold ends at hEnds
  split_ifs at hEnds <;> rw [Prod.mk.injEq] at hEnds
  · exact .inl hEnds
  · exact .inr hEnds
  · exact .inr ⟨hEnds.2, hEnds.1⟩
  · exact .inl ⟨hEnds.2, hEnds.1⟩

------------------------------------------------------------
-- Each stage
------------------------------------------------------------

theorem rows_exchange
    (reader : NumericReader)
    (packets : List Packet) :
    rows reader (packets.map Packet.exchange) =
      (rows reader packets).map
        (List.map Row.exchange) := by
  have hFlags :
      (packets.map Packet.exchange).map Packet.tcpFlags =
        packets.map Packet.tcpFlags := by
    rw [List.map_map]
    rfl
  unfold rows
  rw [hFlags]
  cases decodeFlagBits reader
    (packets.map Packet.tcpFlags) with
  | none => rfl
  | some bits =>
      change some _ = some _
      rw [List.zipWith_map_left, List.map_zipWith]
      rfl

theorem sorted_exchange (rows : List Row) :
    sorted (rows.map Row.exchange) =
      (sorted rows).map Row.exchange := by
  unfold sorted
  rw [sortByKey_map]
  simp only [flowKey_exchange]
  rfl

/- The names that rows get do not depend on the direction. -/
theorem map_zip_exchange
    (p : List Row)
    (ids : List (ℕ × ℕ)) :
    ((p.map Row.exchange).zip ids).map nameRow =
      ((p.zip ids).map nameRow).map SegRow.exchange := by
  rw [List.zip_map_left, List.map_map, List.map_map]
  apply List.map_congr_left
  intro entry _
  simp [SegRow.exchange, nameRow]

theorem segmented_exchange
    (flowTimeoutS : ℚ)
    (p : List Row) :
    segmented flowTimeoutS (p.map Row.exchange) =
      (segmented flowTimeoutS p).map SegRow.exchange := by
  have hParts :
      (groupsBy flowKey (p.map Row.exchange)).map (fun group =>
          segmentIds (group.2.map Row.tick) flowTimeoutS) =
        (groupsBy flowKey p).map (fun group =>
          segmentIds (group.2.map Row.tick) flowTimeoutS) := by
    rw [groupsBy_map flowKey_exchange, List.map_map]
    apply List.map_congr_left
    intro group _
    simp only [Function.comp_apply, List.map_map]
    rfl
  unfold segmented
  rw [hParts]
  exact map_zip_exchange p _

theorem direct_exchange (p : List SegRow) :
    direct (p.map SegRow.exchange) =
      (direct p).map DirectedRow.exchange := by
  unfold direct
  rw [List.map_map, List.map_map]
  apply List.map_congr_left
  intro r _
  have hFirst :
      ((p.map SegRow.exchange).find? (fun q =>
          q.dirEpoch = r.exchange.dirEpoch)).getD r.exchange =
        ((p.find? (fun q => q.dirEpoch = r.dirEpoch)).getD
          r).exchange := by
    rw [List.find?_map]
    change
      ((p.find? (fun q => q.dirEpoch = r.dirEpoch)).map
        SegRow.exchange).getD r.exchange = _
    cases p.find? (fun q => q.dirEpoch = r.dirEpoch) <;> rfl
  simp only [Function.comp_apply, hFirst]
  rfl

/- A row has the ends of the first row of its epoch. -/
theorem isFwd_exchange
    {flowTimeoutS : ℚ}
    {p : List Row}
    {r : DirectedRow}
    (hMem : r ∈ direct (segmented flowTimeoutS p)) :
    r.exchange.isFwd = r.isFwd := by
  rcases List.mem_map.mp hMem with ⟨s, hS, rfl⟩
  have hKeys :
      ∀ q ∈ segmented flowTimeoutS p,
        q.dirEpoch = s.dirEpoch →
          flowKey q.row = flowKey s.row := by
    intro q hQ hEpoch
    rcases List.mem_map.mp hQ with ⟨entry, _, rfl⟩
    rcases List.mem_map.mp hS with ⟨entry', _, rfl⟩
    exact (partName_inj hEpoch).1
  have hFirst :
      flowKey
          (((segmented flowTimeoutS p).find? (fun q =>
            q.dirEpoch = s.dirEpoch)).getD s).row =
        flowKey s.row := by
    cases hFind :
        (segmented flowTimeoutS p).find? (fun q =>
          q.dirEpoch = s.dirEpoch) with
    | none => rfl
    | some q =>
        apply hKeys q (List.mem_of_find?_eq_some hFind)
        simpa using List.find?_some hFind
  dsimp only
  generalize
    ((segmented flowTimeoutS p).find? (fun q =>
      q.dirEpoch = s.dirEpoch)).getD s = first at hFirst ⊢
  have hSame :
      ∀ e e' : Endpoint,
        (e.ip = e'.ip ∧ e.port = e'.port) ↔ e = e' := by
    intro e e'
    rcases e with ⟨ip, port⟩
    rcases e' with ⟨ip', port'⟩
    rw [Endpoint.mk.injEq]
  unfold DirectedRow.isFwd DirectedRow.exchange Row.exchange
  simp only [hSame]
  rcases flowKey_ends hFirst with ⟨hSrc, hDst⟩ | ⟨hSrc, hDst⟩
  · rw [hSrc, hDst]
    simp
  · rw [hSrc, hDst]
    exact decide_eq_decide.mpr eq_comm

theorem flowOf_exchange
    {group : List DirectedRow}
    (hFwd : ∀ r ∈ group, r.exchange.isFwd = r.isFwd)
    (first : DirectedRow) :
    flowOf first.exchange (group.map DirectedRow.exchange) =
      (flowOf first group).exchange := by
  have hTimes :
      (group.map DirectedRow.exchange).map
          (fun r => r.row.time) =
        group.map (fun r => r.row.time) := by
    rw [List.map_map]
    rfl
  have hCount :
      (group.map DirectedRow.exchange).countP
          DirectedRow.isFwd =
        group.countP DirectedRow.isFwd := by
    rw [List.countP_map]
    apply List.countP_congr
    intro r hR
    rw [Function.comp_apply, hFwd r hR]
  have hFwdLen :
      (group.map DirectedRow.exchange).map
          DirectedRow.fwdLen =
        group.map DirectedRow.fwdLen := by
    rw [List.map_map]
    apply List.map_congr_left
    intro r hR
    rw [Function.comp_apply, DirectedRow.fwdLen, hFwd r hR]
    rfl
  have hBwdLen :
      (group.map DirectedRow.exchange).map
          DirectedRow.bwdLen =
        group.map DirectedRow.bwdLen := by
    rw [List.map_map]
    apply List.map_congr_left
    intro r hR
    rw [Function.comp_apply, DirectedRow.bwdLen, hFwd r hR]
    rfl
  have hAny :
      ∀ flag,
        (group.map DirectedRow.exchange).any
            (fun r => r.row.bits flag) =
          group.any (fun r => r.row.bits flag) := by
    intro flag
    rw [List.any_map]
    rfl
  unfold flowOf
  simp only [hTimes, hCount, hFwdLen, hBwdLen, hAny,
    List.length_map]
  rfl

theorem flowsOf_exchange
    {p : List DirectedRow}
    (hFwd : ∀ r ∈ p, r.exchange.isFwd = r.isFwd) :
    flowsOf (p.map DirectedRow.exchange) =
      (flowsOf p).map Assembled.exchange := by
  have hGroups :
      groupsBy DirectedRow.flow (p.map DirectedRow.exchange) =
        (groupsBy DirectedRow.flow p).map (fun group =>
          (group.1, group.2.map DirectedRow.exchange)) :=
    groupsBy_map (fun _ => rfl) p
  unfold flowsOf
  rw [hGroups, List.filterMap_map, List.map_filterMap]
  apply List.filterMap_congr
  intro group hGroup
  rcases mem_groupsBy.mp hGroup with ⟨_, hRows⟩
  have hGroupFwd :
      ∀ r ∈ group.2, r.exchange.isFwd = r.isFwd := by
    intro r hR
    rw [hRows] at hR
    exact hFwd r (List.mem_of_mem_filter hR)
  rw [Function.comp_apply]
  dsimp only
  rw [List.head?_map]
  cases group.2.head? with
  | none => rfl
  | some first =>
      exact congrArg some (flowOf_exchange hGroupFwd first)

/- The flows of exchanged rows are the exchanged flows. -/
theorem assembleRows_exchange
    (flowTimeoutS : ℚ)
    (rows : List Row) :
    assembleRows flowTimeoutS (rows.map Row.exchange) =
      (assembleRows flowTimeoutS rows).map
        Assembled.exchange := by
  unfold assembleRows
  rw [sorted_exchange, segmented_exchange, direct_exchange]
  exact flowsOf_exchange (fun _ hMem => isFwd_exchange hMem)

------------------------------------------------------------
-- A packet table
------------------------------------------------------------

/- Every packet has its flags. -/
theorem length_decodeFlagBits
    {reader : NumericReader}
    {flags : List (Option String)}
    {bits : List (Flag → Bool)}
    (hBits : decodeFlagBits reader flags = some bits) :
    bits.length = flags.length := by
  rw [decodeFlagBits, Option.map_eq_some_iff] at hBits
  rcases hBits with ⟨values, hValues, rfl⟩
  rw [List.length_map]
  unfold flagValues at hValues
  rw [Option.bind_eq_bind, Option.bind_eq_some_iff] at hValues
  rcases hValues with ⟨asInt, hAsInt, hRead⟩
  split at hRead
  · rw [Option.bind_eq_bind, Option.bind_eq_some_iff] at hRead
    rcases hRead with ⟨hexes, hHexes, hColumn⟩
    unfold int64Column at hColumn
    split at hColumn
    · cases hColumn
      rw [List.length_map]
      exact List.length_of_mapM_some hHexes
    · cases hColumn
  · cases hRead
    exact List.length_of_mapM_some hAsInt

/- A packet table has a row for every packet. -/
theorem rows_of_packets
    {reader : NumericReader}
    {packets : List Packet}
    {table : List Row}
    (hRows : rows reader packets = some table) :
    table.length = packets.length ∧
      table.map Row.payload =
        packets.map (fun p => p.payloadLen.getD 0) := by
  unfold rows at hRows
  rw [Option.bind_eq_bind, Option.bind_eq_some_iff] at hRows
  rcases hRows with ⟨bits, hBits, hTable⟩
  cases hTable
  have hLength := length_decodeFlagBits hBits
  rw [List.length_map] at hLength
  constructor
  · rw [List.length_zipWith, hLength, min_self]
  · rw [List.map_zipWith]
    change
      List.zipWith (fun p _ => p.payloadLen.getD 0)
        packets bits = _
    have hFirst : (packets.zip bits).map Prod.fst = packets :=
      List.map_fst_zip hLength.ge
    conv_rhs => rw [← hFirst, List.map_map]
    rw [← List.map_uncurry_zip_eq_zipWith]
    rfl

/- The empty table is no special case. -/
theorem assembleFlows_eq
    (reader : NumericReader)
    (packets : List Packet)
    (flowTimeoutS : ℚ) :
    assembleFlows reader packets flowTimeoutS =
      (rows reader packets).map (fun table =>
        ((assembleRows flowTimeoutS table).filter
          Assembled.published).map Assembled.flow) := by
  cases packets with
  | nil => rfl
  | cons p rest =>
      unfold assembleFlows assembleAll
      cases rows reader (p :: rest) <;> rfl

/-
  What the flows of a packet table account for: its packets
  and its payload, with the flows of one packet that are
  dropped, and the times of every flow that is returned.
-/
structure Accounts
    (packets : List Packet)
    (flowTimeoutS : ℚ)
    (all : List Assembled)
    (flows : List Flow) : Prop where
  returned :
    flows =
      (all.filter Assembled.published).map Assembled.flow
  conserved :
    Conserved packets.length
      (packets.map (fun p => p.payloadLen.getD 0)).sum all
  timely : ∀ f ∈ flows, Timely flowTimeoutS f

theorem published_exchange (all : List Assembled) :
    ((all.map Assembled.exchange).filter
        Assembled.published).map Assembled.flow =
      ((all.filter Assembled.published).map
        Assembled.flow).map Flow.exchange := by
  rw [List.filter_map, List.map_map, List.map_map]
  rfl

/-
  The flows that are returned account for the table, and
  exchanging source and destination of every packet exchanges
  them in every flow.
-/
theorem assembleFlows_conserves
    (reader : NumericReader)
    (packets : List Packet)
    (flowTimeoutS : ℚ) :
    (∀ flows ∈ assembleFlows reader packets flowTimeoutS,
      ∃ all ∈ assembleAll reader packets flowTimeoutS,
        Accounts packets flowTimeoutS all flows) ∧
      assembleFlows reader (packets.map Packet.exchange)
          flowTimeoutS =
        (assembleFlows reader packets flowTimeoutS).map
          (List.map Flow.exchange) := by
  have hGeneral := assembleFlows_eq reader
  constructor
  · intro flows hFlows
    rw [Option.mem_def, hGeneral, Option.map_eq_some_iff]
      at hFlows
    rcases hFlows with ⟨table, hTable, rfl⟩
    rcases rows_of_packets hTable with ⟨hLength, hPayload⟩
    refine
      ⟨assembleRows flowTimeoutS table, ?_,
        { returned := rfl
          conserved := ?_
          timely := ?_ }⟩
    · rw [Option.mem_def, assembleAll, hTable]
      rfl
    · rw [← hLength, ← hPayload]
      exact conserved_assembleRows flowTimeoutS table
    · intro f hMem
      rcases List.mem_map.mp hMem with ⟨a, hA, rfl⟩
      exact timely_assembleRows flowTimeoutS table a hA
  · rw [hGeneral, hGeneral, rows_exchange, Option.map_map,
      Option.map_map]
    apply congrArg (Option.map · (rows reader packets))
    funext table
    simp only [Function.comp_apply, assembleRows_exchange]
    exact published_exchange _

end Flows

end Nidra
