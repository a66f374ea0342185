import Nidra.Common.Dispatch
import Nidra.Features.CloseScript

/-
  This file defines how the events of one stream reach the
  features worker: a message is delivered until it is
  acknowledged, an attempt at it may fail between any two of
  its effects, and the watchdog sweeps its tenant meanwhile.

  Key definitions include:
    * `Intake`, `handleEvent`
    * `Delivery`, `Intake.step`, `Intake.runDeliveries`
    * `closeStart`

  Main declarations:
    * `attempt_handleEvent`
    * `trace_ingestEvent`, `trace_sweepTenant_over`
-/

namespace Nidra

namespace Features

set_option linter.unusedSectionVars false

variable {𝕜 : Type}

------------------------------------------------------------
-- Deliveries
------------------------------------------------------------

/- The world of the worker, and the acknowledged messages. -/
structure Intake (𝕜 : Type) where
  world : World 𝕜
  acked : Finset ℕ

def Intake.start
    (now : ℚ)
    (readings : List ℚ) : Intake 𝕜 :=
  { world := World.start now readings
    acked := ∅ }

def Intake.setWorld
    (s : Intake 𝕜)
    (world : World 𝕜) : Intake 𝕜 :=
  { s with world := world }

/- Acknowledge a message. -/
def ackEvent
    (id : ℕ) : Program (Intake 𝕜) Unit :=
  .write (fun s => { s with acked := insert id s.acked })

/-
  What can happen: time passes; a message is delivered, and
  its handler gets as far as `budget` of its effects before
  it fails, if it fails; or the watchdog comes to the tenant.
-/
inductive Delivery where
  | wait (time : ℚ)
  | deliver (id budget : ℕ)
  | sweep (budget : ℕ)

section Handler

variable [Field 𝕜] [LinearOrder 𝕜] [FloorRing 𝕜]
variable [ExpLog 𝕜]
variable (cfg : FeaturesConfig)
variable (tenantId : String)
variable (stream : List (RawEvent 𝕜))

/- The handler raises nothing of its own. -/
def ingestHandler
    (event : RawEvent 𝕜) :
    Program (World 𝕜) (Except Empty (List (StateVector 𝕜))) := do
  let vectors ← ingestEvent cfg event
  return .ok vectors

/- Handle one message and acknowledge it. -/
def handleEvent
    (id : ℕ)
    (event : RawEvent 𝕜) : Program (Intake 𝕜) Unit :=
  dispatch
    ((ingestHandler cfg event).zoom Intake.world
      Intake.setWorld)
    (ackEvent id)

/- A message is delivered only until it is acknowledged. -/
def Intake.deliver
    (s : Intake 𝕜)
    (id budget : ℕ) : Intake 𝕜 :=
  if id ∈ s.acked then s
  else
    match stream[id]? with
    | none => s
    | some event =>
        ((handleEvent cfg id event).attempt budget s).2

def Intake.step
    (s : Intake 𝕜) : Delivery → Intake 𝕜
  | .wait time => s.setWorld (s.world.wait time)
  | .deliver id budget => s.deliver cfg stream id budget
  | .sweep budget =>
      s.setWorld
        ((sweepTenant cfg tenantId).attempt budget s.world).2

def Intake.runDeliveries
    (s : Intake 𝕜)
    (deliveries : List Delivery) : Intake 𝕜 :=
  deliveries.foldl (Intake.step cfg tenantId stream) s

------------------------------------------------------------
-- Where a close starts
------------------------------------------------------------

/- The window that an event closes, if it closes one. -/
def closedBy
    (w : World 𝕜)
    (event : RawEvent 𝕜) : Option ℤ :=
  if event.srcIp = "" then none
  else
    match w.opened.get w.now event.tenantId with
    | none => none
    | some marker =>
        if marker.windowTs < align event.ts cfg.windowDelta
        then some marker.windowTs
        else none

/-
  The state in which a close starts, and its window: at once
  in the handler of a later event, and once the watchdog has
  read the clock and found that the grace is over.
-/
def closeStart
    (s : Intake 𝕜) : Delivery → Option (World 𝕜 × ℤ)
  | .wait _ => none
  | .deliver id budget =>
      if id ∈ s.acked ∨ budget < 1 then none
      else
        stream[id]?.bind (fun event =>
          (closedBy cfg s.world event).map (fun windowTs =>
            (s.world, windowTs)))
  | .sweep budget =>
      match s.world.opened.get s.world.now tenantId with
      | none => none
      | some marker =>
          let read := readClock.run s.world
          if budget < 3 ∨
              read.1 - marker.lastSeen < cfg.graceS
          then none
          else some (readClock.exec read.2, marker.windowTs)

------------------------------------------------------------
-- What a delivery does
------------------------------------------------------------

theorem trace_ingestHandler
    (event : RawEvent 𝕜)
    (w : World 𝕜) :
    (ingestHandler cfg event).trace w =
      (ingestEvent cfg event).trace w := by
  simp [ingestHandler]

/-
  A delivery does the first effects of the handler, and one
  that lasts for all of them and one more acknowledges.
-/
theorem attempt_handleEvent
    (id budget : ℕ)
    (event : RawEvent 𝕜)
    (s : Intake 𝕜) :
    ((handleEvent cfg id event).attempt budget s).2 =
      { world :=
          Program.applyAll s.world
            (((ingestEvent cfg event).trace s.world).take budget)
        acked :=
          if ((ingestEvent cfg event).trace s.world).length <
              budget
          then insert id s.acked
          else s.acked } := by
  have hZoom :
      ((ingestHandler cfg event).zoom Intake.world
          Intake.setWorld).attempt budget s =
        (((ingestHandler cfg event).attempt budget s.world).1,
          s.setWorld
            ((ingestHandler cfg event).attempt budget
              s.world).2) := by
    apply Program.attempt_zoom
    · intro t w
      rfl
    · intro t
      rfl
    · intro t w w'
      rfl
  have hState :=
    Program.attempt_eq_applyAll (ingestHandler cfg event) budget
      s.world
  rw [trace_ingestHandler] at hState
  simp only [handleEvent, dispatch, Program.attempt_bind, hZoom]
  by_cases hLong :
      ((ingestEvent cfg event).trace s.world).length ≤ budget
  · have hDone :=
      Program.attempt_of_trace_le (ingestHandler cfg event)
        (trace_ingestHandler cfg event s.world ▸ hLong)
    have hEval :
        (ingestHandler cfg event).eval s.world =
          .ok ((ingestEvent cfg event).eval s.world) := by
      simp [ingestHandler]
    rw [← hState]
    simp only [hDone, hEval, trace_ingestHandler, ackEvent]
    by_cases hAck :
        ((ingestEvent cfg event).trace s.world).length < budget
    · rcases Nat.exists_eq_add_of_lt hAck with ⟨rest, rfl⟩
      rw [if_pos hAck, Nat.add_assoc, Nat.add_sub_cancel_left]
      rfl
    · have hEq := Nat.le_antisymm (not_lt.mp hAck) hLong
      rw [if_neg hAck, ← hEq, Nat.sub_self]
      rfl
  · have hStopped :=
      Program.attempt_of_lt_trace (ingestHandler cfg event)
        (trace_ingestHandler cfg event s.world ▸
          not_le.mp hLong)
    have hNotAcked :
        ¬ ((ingestEvent cfg event).trace s.world).length <
          budget := by
      omega
    rw [if_neg hNotAcked, ← hState]
    simp only [hStopped]
    rfl

/- The marker that a handler finds. -/
def World.marker
    (w : World 𝕜)
    (event : RawEvent 𝕜) : Option OpenMarker :=
  w.opened.get w.now event.tenantId

/- An event without a source host has no effect. -/
theorem trace_ingestEvent_sourceless
    {event : RawEvent 𝕜}
    (hSource : event.srcIp = "")
    (w : World 𝕜) :
    (ingestEvent cfg event).trace w = [] := by
  unfold ingestEvent
  rw [if_pos hSource]
  rfl

/-
  An event that is not late closes the earlier window, if one
  is open, reads the clock and is folded in.
-/
theorem trace_ingestEvent
    {event : RawEvent 𝕜}
    {w : World 𝕜}
    (hSource : event.srcIp ≠ "")
    (hLate :
      isLate (w.marker event)
        (align event.ts cfg.windowDelta) = false) :
    ∃ now,
      (ingestEvent cfg event).trace w =
        id ::
          ((closeEarlier cfg event.tenantId (w.marker event)
            (align event.ts cfg.windowDelta)).trace w ++
          [readClock.exec,
            fun w' =>
              w'.accumulate event
                (align event.ts cfg.windowDelta) now]) := by
  unfold World.marker at hLate ⊢
  simp only [ingestEvent, if_neg hSource, readOpen,
    Program.trace_bind, Program.trace_read,
    Program.eval_read, Program.exec_read, ingestAt, hLate,
    Bool.false_eq_true, if_false, accumulate,
    Program.trace_write, Program.trace_pure, List.append_nil]
  exact ⟨_, rfl⟩

/- The earlier window is closed by its script. -/
theorem trace_closeEarlier
    {event : RawEvent 𝕜}
    {w : World 𝕜}
    (hSource : event.srcIp ≠ "") :
    (closeEarlier cfg event.tenantId (w.marker event)
        (align event.ts cfg.windowDelta)).trace w =
      match closedBy cfg w event with
      | none => []
      | some windowTs =>
          (closeScript cfg event.tenantId windowTs w).map
            (CloseAct.apply cfg event.tenantId windowTs) := by
  unfold closeEarlier closedBy World.marker
  rw [if_neg hSource]
  cases w.opened.get w.now event.tenantId with
  | none => rfl
  | some marker =>
      dsimp only
      split
      · exact trace_closeWindow cfg _ _ w
      · rfl

/- The watchdog leaves a tenant without an open window. -/
theorem trace_sweepTenant_unopened
    {w : World 𝕜}
    (hNone : w.opened.get w.now tenantId = none) :
    (sweepTenant cfg tenantId).trace w = [id] := by
  simp only [sweepTenant, readOpen, Program.trace_bind,
    Program.trace_read, Program.eval_read, hNone]
  rfl

/- It leaves an open window until its grace is over. -/
theorem trace_sweepTenant_early
    {w : World 𝕜}
    {marker : OpenMarker}
    (hOpen : w.opened.get w.now tenantId = some marker)
    (hEarly :
      readClock.eval w - marker.lastSeen < cfg.graceS) :
    (sweepTenant cfg tenantId).trace w =
      [id, readClock.exec] := by
  simp only [sweepTenant, readOpen, Program.trace_bind,
    Program.trace_read, Program.eval_read, Program.exec_read,
    hOpen, hEarly, if_true]
  rfl

/- And then it closes the window. -/
theorem trace_sweepTenant_over
    {w : World 𝕜}
    {marker : OpenMarker}
    (hOpen : w.opened.get w.now tenantId = some marker)
    (hOver :
      ¬ readClock.eval w - marker.lastSeen < cfg.graceS) :
    (sweepTenant cfg tenantId).trace w =
      [id, readClock.exec, readClock.exec] ++
        (closeScript cfg tenantId marker.windowTs
          (readClock.exec (readClock.exec w))).map
            (CloseAct.apply cfg tenantId marker.windowTs) := by
  simp only [sweepTenant, readOpen, Program.trace_bind,
    Program.trace_read, Program.eval_read, Program.exec_read,
    hOpen, hOver, if_false, trace_closeWindow]
  rfl

end Handler

end Features

end Nidra
