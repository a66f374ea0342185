import Nidra.Lib.History

/-
  This file defines how the packets of one connection are
  split into flows, and proves where the splits are: after
  a teardown, and wherever the timeout has passed since the
  first packet of the flow.

  Key definitions include:
    * `Tick`
    * `Segmenter`, `Segmenter.step`
    * `segmentIds`
    * `Mark`, `marks`
    * `Closes`, `Fits`

  Main declarations:
    * `Placed.flag`, `Tracks.turn`
    * `segmentIds_spans`
    * `segmentIds_segmented`
-/

namespace Nidra

namespace Flows

------------------------------------------------------------
-- The loop
------------------------------------------------------------

def defaultFlowTimeoutS : ℚ := 120

/- FIN packets that close a flow: one per direction. -/
def finClosesFlowAt : ℕ := 2

/- What the segmentation reads of a packet. -/
structure Tick where
  time : ℚ
  fin : Bool
  rst : Bool
deriving DecidableEq

/- The variables of the loop, and what it has put out. -/
structure Segmenter where
  seg : ℕ
  directionEpoch : ℕ
  start : ℚ
  finSeen : ℕ
  closed : Bool
  segOut : List ℕ
  dirOut : List ℕ

namespace Segmenter

def begin (start : ℚ) : Segmenter :=
  { seg := 0
    directionEpoch := 0
    start := start
    finSeen := 0
    closed := false
    segOut := []
    dirOut := [] }

/-
  A packet opens a flow after one that closed the connection,
  or once the flow would outlast the timeout. Only a teardown
  has the direction read again.
-/
def turn
    (flowTimeoutS : ℚ)
    (s : Segmenter)
    (tick : Tick) : Segmenter :=
  if s.closed ∨ flowTimeoutS < tick.time - s.start then
    { s with
      seg := s.seg + 1
      directionEpoch :=
        if s.closed then s.directionEpoch + 1
        else s.directionEpoch
      start := tick.time
      finSeen := 0
      closed := false }
  else s

/- Put out where a packet belongs. -/
def emit (s : Segmenter) : Segmenter :=
  { s with
    segOut := s.segOut ++ [s.seg]
    dirOut := s.dirOut ++ [s.directionEpoch] }

/- What the flags of a packet do to the flow. -/
def flag
    (s : Segmenter)
    (tick : Tick) : Segmenter :=
  if tick.rst then { s with closed := true }
  else if tick.fin then
    { s with
      finSeen := s.finSeen + 1
      closed := decide (finClosesFlowAt ≤ s.finSeen + 1) }
  else s

def step
    (flowTimeoutS : ℚ)
    (s : Segmenter)
    (tick : Tick) : Segmenter :=
  ((s.turn flowTimeoutS tick).emit).flag tick

end Segmenter

/- Split the packets of one connection into flows. -/
def segmentIds
    (ticks : List Tick)
    (flowTimeoutS : ℚ) : List ℕ × List ℕ :=
  match ticks with
  | [] => ([], [])
  | first :: _ =>
      let s :=
        ticks.foldl (Segmenter.step flowTimeoutS)
          (Segmenter.begin first.time)
      (s.segOut, s.dirOut)

------------------------------------------------------------
-- What the ids say
------------------------------------------------------------

/- A packet with its segment and its direction epoch. -/
structure Mark where
  tick : Tick
  seg : ℕ
  epoch : ℕ
deriving DecidableEq

/- The packets with what the loop put out for them. -/
def marks
    (ticks : List Tick)
    (ids : List ℕ × List ℕ) : List Mark :=
  (ticks.zip (ids.1.zip ids.2)).map (fun entry =>
    { tick := entry.1
      seg := entry.2.1
      epoch := entry.2.2 })

/- A FIN packet without RST. -/
def Tick.finOnly (tick : Tick) : Bool :=
  tick.fin && !tick.rst

/- The FIN packets without RST of a segment. -/
def fins
    (seg : ℕ)
    (history : List Mark) : ℕ :=
  (history.filter (fun m =>
    decide (m.seg = seg) && m.tick.finOnly)).length

/- The first packet of a segment. -/
def firstOf
    (seg : ℕ)
    (history : List Mark) : Option Mark :=
  history.find? (fun m => decide (m.seg = seg))

/-
  A packet closes its segment: by an RST, or as the second
  FIN packet without RST.
-/
def Closes
    (before : List Mark)
    (m : Mark) : Prop :=
  m.tick.rst = true ∨
    (m.tick.finOnly = true ∧ fins m.seg before = 1)

/-
  How a packet stands to those before it. The ids start at
  zero and rise by at most one; segments span at most the
  timeout; no packet is in a segment after one that closes
  it; a packet that opens a segment follows one that closed
  its own, or comes later than the timeout after the first of
  it; and the epoch advances at the splits after a closing
  packet, and nowhere else.
-/
structure Fits
    (flowTimeoutS : ℚ)
    (before : List Mark)
    (q : Mark) : Prop where
  starts : before = [] → q.seg = 0 ∧ q.epoch = 0
  rises :
    ∀ earlier p, before = earlier ++ [p] →
      q.seg = p.seg ∨ q.seg = p.seg + 1
  spans :
    ∀ p ∈ before ++ [q], p.seg = q.seg →
      q.tick.time - p.tick.time ≤ flowTimeoutS
  closers :
    ∀ earlier p later, before = earlier ++ p :: later →
      Closes earlier p → q.seg ≠ p.seg
  opens :
    ∀ earlier p, before = earlier ++ [p] →
      q.seg = p.seg + 1 →
        Closes earlier p ∨
          ∃ first, firstOf p.seg before = some first ∧
            flowTimeoutS < q.tick.time - first.tick.time
  epochs :
    ∀ earlier p, before = earlier ++ [p] →
      (Closes earlier p ∧ q.seg = p.seg + 1 ∧
          q.epoch = p.epoch + 1) ∨
        (¬ Closes earlier p ∧ q.epoch = p.epoch)

/- Every packet has its ids, and fits those before it. -/
structure Segmented
    (flowTimeoutS : ℚ)
    (ticks : List Tick)
    (ids : List ℕ × List ℕ) : Prop where
  segs : ids.1.length = ticks.length
  epochs : ids.2.length = ticks.length
  fits : (marks ticks ids).EachAfter (Fits flowTimeoutS)

/- The packets of a connection in the order of time. -/
def InTime (ticks : List Tick) : Prop :=
  ticks.Pairwise (fun a b => a.time ≤ b.time)

------------------------------------------------------------
-- Counting and finding in a longer history
------------------------------------------------------------

theorem fins_concat
    (seg : ℕ)
    (history : List Mark)
    (m : Mark) :
    fins seg (history ++ [m]) =
      fins seg history +
        if m.seg = seg ∧ m.tick.finOnly = true then 1
        else 0 := by
  unfold fins
  rw [List.filter_append, List.length_append]
  by_cases hSeg : m.seg = seg <;>
    by_cases hFin : m.tick.finOnly = true <;>
      simp [hSeg, hFin]

/- A segment that no packet is in yet has no FIN packet. -/
theorem fins_eq_zero
    {seg : ℕ}
    {history : List Mark}
    (hNew : ∀ m ∈ history, m.seg ≠ seg) :
    fins seg history = 0 := by
  unfold fins
  rw [List.length_eq_zero_iff, List.filter_eq_nil_iff]
  intro m hMem
  simp [hNew m hMem]

theorem firstOf_concat
    {seg : ℕ}
    {history : List Mark}
    {first : Mark}
    (hFirst : firstOf seg history = some first)
    (m : Mark) :
    firstOf seg (history ++ [m]) = some first := by
  unfold firstOf at hFirst ⊢
  rw [List.find?_append, hFirst]
  rfl

theorem firstOf_new
    {history : List Mark}
    {m : Mark}
    (hNew : ∀ p ∈ history, p.seg ≠ m.seg) :
    firstOf m.seg (history ++ [m]) = some m := by
  unfold firstOf
  have hNone :
      history.find? (fun p => decide (p.seg = m.seg)) =
        none := by
    rw [List.find?_eq_none]
    intro p hMem
    simp [hNew p hMem]
  rw [List.find?_append, hNone]
  simp

------------------------------------------------------------
-- The invariant of the loop
------------------------------------------------------------

/-
  What the variables of the loop are when a packet has its
  ids and its flags are not read yet, in terms of the packet
  and of those before it.
-/
structure Placed
    (before : List Mark)
    (m : Mark)
    (s : Segmenter) : Prop where
  seg : s.seg = m.seg
  epoch : s.directionEpoch = m.epoch
  finSeen : s.finSeen = fins m.seg before
  less : s.finSeen < finClosesFlowAt
  isOpen : s.closed = false
  start :
    ∃ first,
      firstOf m.seg (before ++ [m]) = some first ∧
        first.tick.time = s.start
  least :
    ∀ p ∈ before ++ [m], p.seg = m.seg →
      s.start ≤ p.tick.time
  bound : ∀ p ∈ before, p.seg ≤ m.seg
  shut :
    ∀ earlier p later, before = earlier ++ p :: later →
      Closes earlier p → p.seg < m.seg

/- And what they are after its flags were read. -/
structure Tracks
    (before : List Mark)
    (last : Mark)
    (s : Segmenter) : Prop where
  seg : s.seg = last.seg
  epoch : s.directionEpoch = last.epoch
  finSeen : s.finSeen = fins last.seg (before ++ [last])
  less : s.closed = false → s.finSeen < finClosesFlowAt
  closed : s.closed = true ↔ Closes before last
  start :
    ∃ first,
      firstOf last.seg (before ++ [last]) = some first ∧
        first.tick.time = s.start
  least :
    ∀ p ∈ before ++ [last], p.seg = last.seg →
      s.start ≤ p.tick.time
  bound : ∀ p ∈ before, p.seg ≤ last.seg
  shut :
    ∀ earlier p later, before = earlier ++ p :: later →
      Closes earlier p → p.seg < last.seg

/- What the flags of a packet say, once it is counted. -/
theorem closes_iff
    (before : List Mark)
    (m : Mark)
    {s : Segmenter}
    (hSeen : s.finSeen = fins m.seg before)
    (hLess : s.finSeen < finClosesFlowAt)
    (hOpen : s.closed = false) :
    (s.flag m.tick).closed = true ↔ Closes before m := by
  unfold Closes Segmenter.flag finClosesFlowAt at *
  rw [← hSeen]
  cases hRst : m.tick.rst with
  | true => simp
  | false =>
      cases hFin : m.tick.fin with
      | true =>
          simp [Tick.finOnly, hRst, hFin]
          omega
      | false => simp [Tick.finOnly, hRst, hFin, hOpen]

theorem finSeen_flag
    (s : Segmenter)
    (tick : Tick) :
    (s.flag tick).finSeen =
      s.finSeen + if tick.finOnly = true then 1 else 0 := by
  unfold Segmenter.flag Tick.finOnly
  cases tick.rst <;> cases tick.fin <;> simp

/- A flow that is not closed has seen less than it takes. -/
theorem less_flag
    {s : Segmenter}
    (hLess : s.finSeen < finClosesFlowAt)
    {tick : Tick}
    (hOpen : (s.flag tick).closed = false) :
    (s.flag tick).finSeen < finClosesFlowAt := by
  unfold Segmenter.flag at hOpen ⊢
  cases hRst : tick.rst with
  | true => simp [hRst] at hOpen
  | false =>
      cases hFin : tick.fin with
      | true => simpa [hRst, hFin] using hOpen
      | false => simpa [hRst, hFin] using hLess

@[simp] theorem Segmenter.seg_flag
    (s : Segmenter)
    (tick : Tick) :
    (s.flag tick).seg = s.seg := by
  unfold Segmenter.flag
  split_ifs <;> rfl

@[simp] theorem Segmenter.directionEpoch_flag
    (s : Segmenter)
    (tick : Tick) :
    (s.flag tick).directionEpoch = s.directionEpoch := by
  unfold Segmenter.flag
  split_ifs <;> rfl

@[simp] theorem Segmenter.start_flag
    (s : Segmenter)
    (tick : Tick) :
    (s.flag tick).start = s.start := by
  unfold Segmenter.flag
  split_ifs <;> rfl

/- Reading the flags of a packet that was placed. -/
theorem Placed.flag
    {before : List Mark}
    {m : Mark}
    {s : Segmenter}
    (hPlaced : Placed before m s) :
    Tracks before m (s.emit.flag m.tick) := by
  refine
    { seg := ?_
      epoch := ?_
      finSeen := ?_
      less := ?_
      closed := ?_
      start := ?_
      least := ?_
      bound := hPlaced.bound
      shut := hPlaced.shut }
  · rw [Segmenter.seg_flag]
    exact hPlaced.seg
  · rw [Segmenter.directionEpoch_flag]
    exact hPlaced.epoch
  · rw [finSeen_flag, fins_concat]
    simp only [true_and]
    exact congrArg (· + _) hPlaced.finSeen
  · exact less_flag (s := s.emit) hPlaced.less
  · exact
      closes_iff (s := s.emit) before m hPlaced.finSeen
        hPlaced.less hPlaced.isOpen
  · rw [Segmenter.start_flag]
    exact hPlaced.start
  · rw [Segmenter.start_flag]
    exact hPlaced.least

------------------------------------------------------------
-- One packet
------------------------------------------------------------

section Step

variable {flowTimeoutS : ℚ}

/- The mark that a packet gets. -/
def Segmenter.mark
    (s : Segmenter)
    (tick : Tick) : Mark :=
  { tick := tick
    seg := s.seg
    epoch := s.directionEpoch }

/- A packet that opens a segment is the first of it. -/
theorem Tracks.turn_of_opening
    {before : List Mark}
    {last : Mark}
    {s : Segmenter}
    (hTracks : Tracks before last s)
    {tick : Tick}
    (hOpens :
      s.closed ∨ flowTimeoutS < tick.time - s.start) :
    Placed (before ++ [last])
      ((s.turn flowTimeoutS tick).mark tick)
      (s.turn flowTimeoutS tick) := by
  have hSeg : (s.turn flowTimeoutS tick).seg = last.seg + 1 := by
    rw [Segmenter.turn, if_pos hOpens, ← hTracks.seg]
  have hStart : (s.turn flowTimeoutS tick).start = tick.time := by
    rw [Segmenter.turn, if_pos hOpens]
  have hSeen : (s.turn flowTimeoutS tick).finSeen = 0 := by
    rw [Segmenter.turn, if_pos hOpens]
  have hClosed :
      (s.turn flowTimeoutS tick).closed = false := by
    rw [Segmenter.turn, if_pos hOpens]
  have hBound : ∀ p ∈ before ++ [last], p.seg ≤ last.seg := by
    intro p hMem
    rcases List.mem_append.mp hMem with hOld | hLast
    · exact hTracks.bound p hOld
    · rw [List.mem_singleton.mp hLast]
  have hNew :
      ∀ p ∈ before ++ [last],
        p.seg ≠ ((s.turn flowTimeoutS tick).mark tick).seg := by
    intro p hMem
    change p.seg ≠ (s.turn flowTimeoutS tick).seg
    have hLe := hBound p hMem
    omega
  refine
    { seg := rfl
      epoch := rfl
      finSeen := ?_
      less := ?_
      isOpen := hClosed
      start := ⟨_, firstOf_new hNew, hStart.symm⟩
      least := ?_
      bound := ?_
      shut := ?_ }
  · rw [hSeen, fins_eq_zero hNew]
  · rw [hSeen]
    decide
  · intro p hMem hSame
    rcases List.mem_append.mp hMem with hOld | hLast
    · exact absurd hSame (hNew p hOld)
    · rw [List.mem_singleton.mp hLast, hStart]
      exact le_refl _
  · intro p hMem
    change p.seg ≤ (s.turn flowTimeoutS tick).seg
    have hLe := hBound p hMem
    omega
  · intro earlier p later hSplit _
    change p.seg < (s.turn flowTimeoutS tick).seg
    have hMem : p ∈ before ++ [last] := by
      rw [hSplit]
      exact List.mem_append_right _ List.mem_cons_self
    have hLe := hBound p hMem
    omega

/- A packet that opens none goes on with the segment. -/
theorem Tracks.turn_of_staying
    {before : List Mark}
    {last : Mark}
    {s : Segmenter}
    (hTracks : Tracks before last s)
    {tick : Tick}
    (hStays :
      ¬ (s.closed ∨ flowTimeoutS < tick.time - s.start))
    (hLater : ∀ p ∈ before ++ [last], p.tick.time ≤ tick.time) :
    Placed (before ++ [last])
      ((s.turn flowTimeoutS tick).mark tick)
      (s.turn flowTimeoutS tick) := by
  have hSame : s.turn flowTimeoutS tick = s := if_neg hStays
  have hOpen : s.closed = false := by
    rw [not_or] at hStays
    exact Bool.eq_false_iff.mpr hStays.1
  have hSeg : (s.mark tick).seg = last.seg := hTracks.seg
  rw [hSame]
  rcases hTracks.start with ⟨first, hFirst, hTime⟩
  have hLeast := hTracks.least
  refine
    { seg := rfl
      epoch := rfl
      finSeen := ?_
      less := hTracks.less hOpen
      isOpen := hOpen
      start := ⟨first, ?_, hTime⟩
      least := ?_
      bound := ?_
      shut := ?_ }
  · rw [hSeg]
    exact hTracks.finSeen
  · rw [hSeg]
    exact firstOf_concat hFirst _
  · intro p hMem hSegP
    rw [hSeg] at hSegP
    rcases List.mem_append.mp hMem with hOld | hLast
    · exact hLeast p hOld hSegP
    · rw [List.mem_singleton.mp hLast]
      have hIn : last ∈ before ++ [last] :=
        List.mem_append_right _ (List.mem_singleton.mpr rfl)
      exact (hLeast last hIn rfl).trans (hLater last hIn)
  · intro p hMem
    rw [hSeg]
    rcases List.mem_append.mp hMem with hOld | hLast
    · exact hTracks.bound p hOld
    · rw [List.mem_singleton.mp hLast]
  · intro earlier p later hSplit hCloses
    rw [hSeg]
    rcases List.split_of_concat hSplit with
      ⟨rfl, rfl, rfl⟩ | ⟨rest, hBefore, rfl⟩
    · -- The last packet has closed nothing.
      rw [← hTracks.closed, hOpen] at hCloses
      cases hCloses
    · exact hTracks.shut earlier p rest hBefore hCloses

/- A packet is placed wherever the loop puts it. -/
theorem Tracks.turn
    {before : List Mark}
    {last : Mark}
    {s : Segmenter}
    (hTracks : Tracks before last s)
    {tick : Tick}
    (hLater : ∀ p ∈ before ++ [last], p.tick.time ≤ tick.time) :
    Placed (before ++ [last])
      ((s.turn flowTimeoutS tick).mark tick)
      (s.turn flowTimeoutS tick) := by
  by_cases hOpens :
      s.closed ∨ flowTimeoutS < tick.time - s.start
  · exact hTracks.turn_of_opening hOpens
  · exact hTracks.turn_of_staying hOpens hLater

/- The ids of the next packet. -/
theorem Tracks.ids_turn
    {before : List Mark}
    {last : Mark}
    {s : Segmenter}
    (hTracks : Tracks before last s)
    (flowTimeoutS : ℚ)
    (tick : Tick) :
    (Closes before last ∧
        (s.turn flowTimeoutS tick).seg = last.seg + 1 ∧
        (s.turn flowTimeoutS tick).directionEpoch =
          last.epoch + 1) ∨
      (¬ Closes before last ∧
        (s.turn flowTimeoutS tick).directionEpoch =
          last.epoch ∧
        ((flowTimeoutS < tick.time - s.start ∧
            (s.turn flowTimeoutS tick).seg = last.seg + 1) ∨
          (tick.time - s.start ≤ flowTimeoutS ∧
            (s.turn flowTimeoutS tick).seg = last.seg))) := by
  have hSeg := hTracks.seg
  have hEpoch := hTracks.epoch
  rw [← hTracks.closed]
  unfold Segmenter.turn
  by_cases hClosed : s.closed = true
  · left
    simp [hClosed, hSeg, hEpoch]
  · right
    by_cases hLate : flowTimeoutS < tick.time - s.start
    · simp [hClosed, hLate, hSeg, hEpoch]
    · simp [hClosed, hLate, hSeg, hEpoch, not_lt.mp hLate]

/-
  Two packets of a segment are not further apart than the
  timeout, whatever its sign.
-/
theorem Tracks.spans
    {before : List Mark}
    {last : Mark}
    {s : Segmenter}
    (hTracks : Tracks before last s)
    {tick : Tick}
    {p : Mark}
    (hMem : p ∈ before ++ [last])
    (hSame :
      p.seg = ((s.turn flowTimeoutS tick).mark tick).seg) :
    tick.time - p.tick.time ≤ flowTimeoutS := by
  by_cases hOpens :
      s.closed ∨ flowTimeoutS < tick.time - s.start
  · have hSeg : (s.turn flowTimeoutS tick).seg = s.seg + 1 := by
      rw [Segmenter.turn, if_pos hOpens]
    have hLast : p.seg ≤ last.seg := by
      rcases List.mem_append.mp hMem with hOld | hLast
      · exact hTracks.bound p hOld
      · rw [List.mem_singleton.mp hLast]
    rw [← hTracks.seg] at hLast
    change p.seg = (s.turn flowTimeoutS tick).seg at hSame
    omega
  · have hTurn : s.turn flowTimeoutS tick = s := if_neg hOpens
    rw [hTurn] at hSame
    have hLeast :=
      hTracks.least p hMem (hSame.trans hTracks.seg)
    rw [not_or, not_lt] at hOpens
    linarith [hOpens.2]

/- A packet fits those before it. -/
theorem Tracks.fits
    {before : List Mark}
    {last : Mark}
    {s : Segmenter}
    (hTracks : Tracks before last s)
    (hTimeout : 0 ≤ flowTimeoutS)
    {tick : Tick}
    (hLater : ∀ p ∈ before ++ [last], p.tick.time ≤ tick.time) :
    Fits flowTimeoutS (before ++ [last])
      ((s.turn flowTimeoutS tick).mark tick) := by
  have hPlaced :
      Placed (before ++ [last])
        ((s.turn flowTimeoutS tick).mark tick)
        (s.turn flowTimeoutS tick) :=
    hTracks.turn hLater
  have hIds := hTracks.ids_turn flowTimeoutS tick
  refine
    { starts := ?_
      rises := ?_
      spans := ?_
      closers := ?_
      opens := ?_
      epochs := ?_ }
  · intro hNil
    simp at hNil
  · intro earlier p hSplit
    rcases List.append_inj' hSplit rfl with ⟨_, hLast⟩
    rw [List.cons.injEq] at hLast
    rw [← hLast.1]
    rcases hIds with
      ⟨_, hSeg, _⟩ | ⟨_, _, ⟨_, hSeg⟩ | ⟨_, hSeg⟩⟩
    · exact .inr hSeg
    · exact .inr hSeg
    · exact .inl hSeg
  · intro p hMem hSame
    rcases List.mem_append.mp hMem with hOld | hSelf
    · exact hTracks.spans hOld hSame
    · rw [List.mem_singleton.mp hSelf, sub_self]
      exact hTimeout
  · intro earlier p later hSplit hCloses
    exact (hPlaced.shut earlier p later hSplit hCloses).ne'
  · intro earlier p hSplit hRise
    rcases List.append_inj' hSplit rfl with ⟨hBefore, hLast⟩
    rw [List.cons.injEq] at hLast
    rw [← hBefore, ← hLast.1]
    rw [← hLast.1] at hRise
    rcases hIds with
      ⟨hCloses, _⟩ | ⟨_, _, ⟨hLate, _⟩ | ⟨_, hSeg⟩⟩
    · exact .inl hCloses
    · right
      rcases hTracks.start with ⟨first, hFirst, hTime⟩
      refine ⟨first, hFirst, ?_⟩
      rw [hTime]
      exact hLate
    · change (s.turn flowTimeoutS tick).seg = _ at hRise
      omega
  · intro earlier p hSplit
    rcases List.append_inj' hSplit rfl with ⟨hBefore, hLast⟩
    rw [List.cons.injEq] at hLast
    rw [← hBefore, ← hLast.1]
    rcases hIds with hClosing | ⟨hNot, hEpoch, _⟩
    · exact .inl hClosing
    · exact .inr ⟨hNot, hEpoch⟩

end Step

------------------------------------------------------------
-- A whole connection
------------------------------------------------------------

/- The loop has put out the marks of a history. -/
structure Segmenter.Emitted
    (s : Segmenter)
    (history : List Mark) : Prop where
  segOut : s.segOut = history.map Mark.seg
  dirOut : s.dirOut = history.map Mark.epoch

theorem Segmenter.Emitted.step
    {s : Segmenter}
    {history : List Mark}
    (hEmitted : s.Emitted history)
    (flowTimeoutS : ℚ)
    (tick : Tick) :
    (s.step flowTimeoutS tick).Emitted
      (history ++ [(s.turn flowTimeoutS tick).mark tick]) := by
  have hFlag :
      ∀ t : Segmenter,
        (t.flag tick).segOut = t.segOut ∧
          (t.flag tick).dirOut = t.dirOut := by
    intro t
    unfold Segmenter.flag
    split_ifs <;> exact ⟨rfl, rfl⟩
  have hTurn :
      (s.turn flowTimeoutS tick).segOut = s.segOut ∧
        (s.turn flowTimeoutS tick).dirOut = s.dirOut := by
    unfold Segmenter.turn
    split_ifs <;> exact ⟨rfl, rfl⟩
  constructor
  · rw [Segmenter.step, (hFlag _).1, List.map_append,
      ← hEmitted.segOut, ← hTurn.1]
    rfl
  · rw [Segmenter.step, (hFlag _).2, List.map_append,
      ← hEmitted.dirOut, ← hTurn.2]
    rfl

/- The marks of a history are the history. -/
theorem marks_of_history
    (history : List Mark) :
    marks (history.map Mark.tick)
        (history.map Mark.seg, history.map Mark.epoch) =
      history := by
  induction history with
  | nil => rfl
  | cons m history ih =>
      simp only [marks, List.map_cons, List.zip_cons_cons]
      exact congrArg (List.cons m) ih

/-
  After any number of packets the loop tracks the last one,
  and every packet so far fits those before it.
-/
theorem Tracks.foldl
    {flowTimeoutS : ℚ}
    {fits : List Mark → Mark → Prop}
    (hStep :
      ∀ before last s, Tracks before last s →
        ∀ tick,
          (∀ p ∈ before ++ [last],
            p.tick.time ≤ tick.time) →
            fits (before ++ [last])
              ((s.turn flowTimeoutS tick).mark tick))
    {before : List Mark}
    {last : Mark}
    {s : Segmenter}
    (hTracks : Tracks before last s)
    (hFits : (before ++ [last]).EachAfter fits)
    (hEmitted : s.Emitted (before ++ [last]))
    (ticks : List Tick)
    (hTimes :
      InTime ((before ++ [last]).map Mark.tick ++ ticks)) :
    ∃ history,
      history.map Mark.tick =
          (before ++ [last]).map Mark.tick ++ ticks ∧
        history.EachAfter fits ∧
          (ticks.foldl (Segmenter.step flowTimeoutS)
            s).Emitted history := by
  induction ticks generalizing before last s with
  | nil =>
      refine ⟨before ++ [last], ?_, hFits, hEmitted⟩
      rw [List.append_nil]
  | cons tick ticks ih =>
      have hLater :
          ∀ p ∈ before ++ [last], p.tick.time ≤ tick.time := by
        intro p hMem
        rw [InTime, List.pairwise_append] at hTimes
        exact
          hTimes.2.2 p.tick (List.mem_map_of_mem hMem) tick
            List.mem_cons_self
      have hNext :=
        ih (hTracks.turn hLater).flag
          (List.eachAfter_concat hFits
            (hStep before last s hTracks tick hLater))
          (hEmitted.step flowTimeoutS tick)
      have hAssoc :
          (before ++ [last] ++
              [(s.turn flowTimeoutS tick).mark tick]).map
                Mark.tick ++ ticks =
            (before ++ [last]).map Mark.tick ++
              tick :: ticks := by
        rw [List.map_append, List.append_assoc]
        rfl
      rw [hAssoc] at hNext
      exact hNext hTimes

/- The mark of the first packet. -/
def firstMark
    (flowTimeoutS : ℚ)
    (first : Tick) : Mark :=
  ((Segmenter.begin first.time).turn flowTimeoutS first).mark
    first

/- The first packet is the first of its segment. -/
theorem tracks_first
    (flowTimeoutS : ℚ)
    (first : Tick) :
    Tracks [] (firstMark flowTimeoutS first)
      ((Segmenter.begin first.time).step flowTimeoutS
        first) := by
  have hTurn :
      ((Segmenter.begin first.time).turn flowTimeoutS
            first).finSeen = 0 ∧
        ((Segmenter.begin first.time).turn flowTimeoutS
            first).closed = false ∧
          ((Segmenter.begin first.time).turn flowTimeoutS
            first).start = first.time := by
    unfold Segmenter.turn
    split_ifs <;> exact ⟨rfl, rfl, rfl⟩
  rcases hTurn with ⟨hSeen, hClosed, hStart⟩
  apply Placed.flag (m := firstMark flowTimeoutS first)
  refine
    { seg := rfl
      epoch := rfl
      finSeen := hSeen
      less := ?_
      isOpen := hClosed
      start :=
        ⟨firstMark flowTimeoutS first, ?_, hStart.symm⟩
      least := ?_
      bound := ?_
      shut := ?_ }
  · rw [hSeen]
    exact Nat.zero_lt_two
  · apply firstOf_new
    intro p hMem
    cases hMem
  · intro p hMem _
    rw [List.nil_append, List.mem_singleton] at hMem
    rw [hMem, hStart]
    exact le_refl _
  · intro p hMem
    cases hMem
  · intro earlier p later hSplit
    simp at hSplit

/-
  What the first packet has, and each other that follows one
  which the loop tracks, every packet of a connection has.
-/
theorem segmentIds_eachAfter
    (flowTimeoutS : ℚ)
    (fits : List Mark → Mark → Prop)
    (hFirst : ∀ first, fits [] (firstMark flowTimeoutS first))
    (hStep :
      ∀ before last s, Tracks before last s →
        ∀ tick,
          (∀ p ∈ before ++ [last],
            p.tick.time ≤ tick.time) →
            fits (before ++ [last])
              ((s.turn flowTimeoutS tick).mark tick))
    {ticks : List Tick}
    (hTimes : InTime ticks) :
    ∃ history : List Mark,
      history.map Mark.tick = ticks ∧
        segmentIds ticks flowTimeoutS =
          (history.map Mark.seg, history.map Mark.epoch) ∧
            history.EachAfter fits := by
  cases ticks with
  | nil => exact ⟨[], rfl, rfl, List.eachAfter_nil⟩
  | cons first rest =>
      have hEmpty : (Segmenter.begin first.time).Emitted [] :=
        ⟨rfl, rfl⟩
      rcases
        (tracks_first flowTimeoutS first).foldl hStep
          (List.eachAfter_concat List.eachAfter_nil
            (hFirst first))
          (hEmpty.step flowTimeoutS first) rest hTimes with
        ⟨history, hTicks, hFits, hOut⟩
      exact
        ⟨history, hTicks, Prod.ext hOut.segOut hOut.dirOut,
          hFits⟩

/-
  Two packets of a segment are not further apart than the
  timeout, in a whole connection.
-/
theorem segmentIds_spans
    (flowTimeoutS : ℚ)
    {ticks : List Tick}
    (hTimes : InTime ticks) :
    ∃ history : List Mark,
      history.map Mark.tick = ticks ∧
        segmentIds ticks flowTimeoutS =
          (history.map Mark.seg, history.map Mark.epoch) ∧
            history.Pairwise (fun p q =>
              p.seg = q.seg →
                q.tick.time - p.tick.time ≤ flowTimeoutS) := by
  rcases
    segmentIds_eachAfter flowTimeoutS
      (fun before q => ∀ p ∈ before, p.seg = q.seg →
        q.tick.time - p.tick.time ≤ flowTimeoutS)
      (by simp)
      (fun before last s hTracks tick _ p hMem hSame =>
        hTracks.spans hMem hSame)
      hTimes with
    ⟨history, hTicks, hIds, hEach⟩
  exact
    ⟨history, hTicks, hIds, List.pairwise_of_eachAfter hEach⟩

/- The first packet has nothing before it. -/
theorem fits_first
    {flowTimeoutS : ℚ}
    (hTimeout : 0 ≤ flowTimeoutS)
    (first : Tick) :
    Fits flowTimeoutS [] (firstMark flowTimeoutS first) := by
  have hStays :
      (Segmenter.begin first.time).turn flowTimeoutS first =
        Segmenter.begin first.time := by
    apply if_neg
    rw [not_or]
    constructor
    · exact Bool.false_ne_true
    · change ¬ flowTimeoutS < first.time - first.time
      rw [sub_self]
      exact not_lt.mpr hTimeout
  refine
    { starts := ?_
      rises := ?_
      spans := ?_
      closers := ?_
      opens := ?_
      epochs := ?_ }
  · intro _
    rw [firstMark, hStays]
    exact ⟨rfl, rfl⟩
  · intro earlier p hSplit
    simp at hSplit
  · intro p hMem _
    rw [List.nil_append, List.mem_singleton] at hMem
    rw [hMem, sub_self]
    exact hTimeout
  · intro earlier p later hSplit
    simp at hSplit
  · intro earlier p hSplit
    simp at hSplit
  · intro earlier p hSplit
    simp at hSplit

/-
  For packets in the order of time and a timeout that is not
  negative, the ids are those of a segmentation.
-/
theorem segmentIds_segmented
    (ticks : List Tick)
    (flowTimeoutS : ℚ)
    (hTimeout : 0 ≤ flowTimeoutS)
    (hTimes : InTime ticks) :
    Segmented flowTimeoutS ticks
      (segmentIds ticks flowTimeoutS) := by
  rcases
    segmentIds_eachAfter flowTimeoutS _
      (fits_first hTimeout)
      (fun before last s hTracks tick hLater =>
        hTracks.fits hTimeout hLater)
      hTimes with
    ⟨history, hTicks, hIds, hFits⟩
  refine
    { segs := ?_
      epochs := ?_
      fits := ?_ }
  · rw [hIds, ← hTicks, List.length_map, List.length_map]
  · rw [hIds, ← hTicks, List.length_map, List.length_map]
  · rw [hIds, ← hTicks, marks_of_history]
    exact hFits

/-
  Two packets of a handshake that ends, one after the flow
  was torn down, and one after the timeout by default.
-/
def tornDown : List Tick :=
  [{ time := 0, fin := true, rst := false },
    { time := 1, fin := true, rst := false },
    { time := 2, fin := false, rst := false },
    { time := 123, fin := false, rst := false }]

example :
    segmentIds tornDown defaultFlowTimeoutS =
      ([0, 0, 1, 2], [0, 0, 1, 1]) := by
  decide +kernel

theorem segmentIds_segmented_tornDown :
    Segmented defaultFlowTimeoutS tornDown
      (segmentIds tornDown defaultFlowTimeoutS) := by
  apply segmentIds_segmented
  · norm_num [defaultFlowTimeoutS]
  · norm_num [InTime, tornDown]

/- With a negative timeout the ids start at one. -/
theorem not_segmented_negative :
    ¬ Segmented (-1)
      [{ time := 0, fin := false, rst := false }]
      (segmentIds
        [{ time := 0, fin := false, rst := false }] (-1)) := by
  intro hSegmented
  have hFirst :=
    (hSegmented.fits []
      { tick := { time := 0, fin := false, rst := false }
        seg := 1
        epoch := 0 } [] (by decide +kernel)).starts rfl
  exact absurd hFirst.1 one_ne_zero

end Flows

end Nidra
