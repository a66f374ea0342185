import Nidra.Common.InHand
import Nidra.Inference.Replicas

/-
  This file states when the predictor is handed consecutive
  windows, and proves that it is in every run in which each
  vector is pushed right behind the window before its own.
  The duplicate test sees only the tail, so a redelivered
  vector that is the tail no more is pushed once again.

  Key definitions include:
    * `Consecutive`, `ContextIntact`
    * `follows`, `InSequence`

  Main declarations:
    * `Consecutive.pushed`
    * `intact_step`
    * `contextsIntact_of_inSequence`
-/

namespace Nidra

namespace Inference

open Bus

set_option linter.unusedSectionVars false

variable {𝕜 : Type}

------------------------------------------------------------
-- Contexts
------------------------------------------------------------

/- Each window comes one step of time after the one before. -/
def Consecutive
    (delta : ℤ)
    (rows : List (StateVector 𝕜)) : Prop :=
  rows.IsChain (fun earlier later =>
    later.windowTs = earlier.windowTs + delta)

/- What the predictor is to be handed. -/
structure ContextIntact
    (cfg : InferenceConfig)
    (delta : ℤ)
    (rows : List (StateVector 𝕜)) : Prop where
  full : rows.length = cfg.contextL
  rising : (rows.map StateVector.windowTs).Pairwise (· < ·)
  consecutive : Consecutive delta rows

/- Consecutive windows rise, without repetition. -/
theorem Consecutive.rising
    {delta : ℤ}
    (hDelta : 0 < delta)
    {rows : List (StateVector 𝕜)}
    (hConsecutive : Consecutive delta rows) :
    (rows.map StateVector.windowTs).Pairwise (· < ·) := by
  rw [← List.isChain_iff_pairwise, List.isChain_map]
  apply hConsecutive.imp
  intro earlier later hNext
  omega

/- Whether a buffer is empty or ends right before a vector. -/
def follows
    (delta : ℤ)
    (buffer : List (StateVector 𝕜))
    (vector : StateVector 𝕜) : Bool :=
  match buffer.getLast? with
  | none => true
  | some tail => decide (vector.windowTs = tail.windowTs + delta)

/- The rows that are left of a context are consecutive. -/
theorem Consecutive.drop
    {delta : ℤ}
    {rows : List (StateVector 𝕜)}
    (hConsecutive : Consecutive delta rows)
    (count : ℕ) :
    Consecutive delta (rows.drop count) :=
  List.IsChain.drop hConsecutive count

/- A vector that follows a buffer is its next window. -/
theorem Consecutive.concat
    {delta : ℤ}
    {buffer : List (StateVector 𝕜)}
    {vector : StateVector 𝕜}
    (hConsecutive : Consecutive delta buffer)
    (hFollows : follows delta buffer vector = true) :
    Consecutive delta (buffer ++ [vector]) := by
  unfold Consecutive
  rw [List.isChain_append]
  refine ⟨hConsecutive, List.isChain_singleton _, ?_⟩
  intro tail hTail first hFirst
  cases hFirst
  unfold follows at hFollows
  rw [hTail] at hFollows
  exact of_decide_eq_true hFollows

section Replicas

variable [Zero 𝕜] [One 𝕜] [LinearOrder 𝕜]
variable (cfg : InferenceConfig)
variable (predictor : Predictor 𝕜)

/- A context of one window has no neighbours to compare. -/
def FollowsIn
    (delta : ℤ)
    (w : World 𝕜)
    (vector : StateVector 𝕜) : Prop :=
  1 < cfg.contextL → follows delta (w.buffer vector) vector = true

/- A buffer is trimmed to the length of a context. -/
theorem length_pushed_le
    (w : World 𝕜)
    (vector : StateVector 𝕜) :
    (w.pushed cfg vector).length ≤ cfg.contextL := by
  simp only [World.pushed, appendTrimmed, List.length_drop]
  omega

/- Pushing a vector that follows keeps a context. -/
theorem Consecutive.pushed
    {delta : ℤ}
    {w : World 𝕜}
    {vector : StateVector 𝕜}
    (hConsecutive : Consecutive delta (w.buffer vector))
    (hFollows : FollowsIn cfg delta w vector) :
    Consecutive delta (w.pushed cfg vector) := by
  by_cases hLong : 1 < cfg.contextL
  · exact (hConsecutive.concat (hFollows hLong)).drop _
  · have hLength := length_pushed_le cfg w vector
    rcases hRows : w.pushed cfg vector with
      _ | ⟨first, _ | ⟨second, rest⟩⟩
    · exact List.isChain_nil
    · exact List.isChain_singleton _
    · rw [hRows] at hLength
      simp only [List.length_cons] at hLength
      omega

------------------------------------------------------------
-- Buffers
------------------------------------------------------------

/- Every buffer holds consecutive windows. -/
def BuffersIntact
    (delta : ℤ)
    (w : World 𝕜) : Prop :=
  ∀ vector, Consecutive delta (w.buffer vector)

/- Vectors of one host have one buffer. -/
theorem buffer_congr
    (w : World 𝕜)
    {vector other : StateVector 𝕜}
    (hKey : seqKey other = seqKey vector) :
    w.buffer other = w.buffer vector := by
  unfold World.buffer
  rw [hKey]

/- Time passes: a buffer stays, or is gone. -/
theorem BuffersIntact.wait
    {delta : ℤ}
    {w : World 𝕜}
    (hIntact : BuffersIntact delta w)
    (time : ℚ) :
    BuffersIntact delta (w.wait time) := by
  intro vector
  have hBefore := hIntact vector
  unfold World.buffer at hBefore ⊢
  cases hGet : (w.wait time).seq.get (w.wait time).now
      (seqKey vector) with
  | none => exact List.isChain_nil
  | some buffer =>
      have hLater : w.now ≤ (w.wait time).now :=
        le_max_left _ _
      have hGetBefore :
          w.seq.get w.now (seqKey vector) = some buffer :=
        TtlStore.get_of_get_later hLater hGet
      rw [hGetBefore] at hBefore
      exact hBefore

/- A push changes the buffer of its host only. -/
theorem BuffersIntact.afterPush
    {delta : ℤ}
    {w : World 𝕜}
    (hIntact : BuffersIntact delta w)
    {vector : StateVector 𝕜}
    (hFollows : FollowsIn cfg delta w vector) :
    BuffersIntact delta (w.afterPush cfg vector) := by
  intro other
  by_cases hKey : seqKey other = seqKey vector
  · rw [buffer_congr _ hKey, buffer_afterPush]
    exact (hIntact vector).pushed cfg hFollows
  · have hSame :
        (w.afterPush cfg vector).buffer other =
          w.buffer other := by
      unfold World.buffer World.afterPush
      rw [TtlStore.get_renew_ne _ _ _ _ _ hKey]
    rw [hSame]
    exact hIntact other

------------------------------------------------------------
-- Replicas
------------------------------------------------------------

/- A stage hands over what it should, if it does. -/
def Stage.Fits
    (delta : ℤ)
    (stage : Stage 𝕜) : Prop :=
  ∀ rows, stage.handed = some rows →
    ContextIntact cfg delta rows

/-
  Every vector that is pushed finds no buffer, or one whose
  tail is the window right before its own.
-/
def InSequence
    (delta : ℤ)
    (g : Replicas 𝕜) : Move (StateVector 𝕜) → Prop
  | .work name =>
      match (g.consumers name).task with
      | some (_, .running (.tested vector)) =>
          FollowsIn cfg delta g.shared vector
      | _ => True
  | _ => True

/- The buffers and what the replicas hand over are intact. -/
abbrev Intact
    (delta : ℤ)
    (g : Replicas 𝕜) : Prop :=
  Group.Sound (BuffersIntact delta) (Stage.Fits cfg delta) g

/- A full buffer that a handler has read back is a context. -/
theorem fits_afterPush
    {delta : ℤ}
    (hDelta : 0 < delta)
    {w : World 𝕜}
    (hIntact : BuffersIntact delta w)
    {vector : StateVector 𝕜}
    (hFollows : FollowsIn cfg delta w vector)
    {next : Stage 𝕜}
    (hGoing :
      Stage.afterPush cfg vector (w.pushed cfg vector) =
        .going next) :
    next.Fits cfg delta := by
  unfold Stage.afterPush at hGoing
  split at hGoing
  · cases hGoing
  · next hFull =>
      cases hGoing
      have hConsecutive :=
        (hIntact vector).pushed cfg hFollows
      intro rows hHanded
      cases hHanded
      exact
        { full :=
            le_antisymm (length_pushed_le cfg w vector)
              (not_lt.mp hFull)
          rising := hConsecutive.rising hDelta
          consecutive := hConsecutive }

/- One move keeps the buffers and the contexts intact. -/
theorem intact_step
    {delta : ℤ}
    (hDelta : 0 < delta)
    (bus : BusConfig)
    {g : Replicas 𝕜}
    (hIntact : Intact cfg delta g)
    {move : Move (StateVector 𝕜)}
    (hMove : InSequence cfg delta g move) :
    Intact cfg delta (g.step cfg predictor bus move) := by
  have hMoved :
      Intact cfg delta
        (Group.step bus (inferenceService cfg predictor) g
          move) := by
    apply hIntact.step bus (inferenceService cfg predictor)
    · intro vector rows hHanded
      cases hHanded
    · intro name id stage hWork hTask
      subst hWork
      simp only [InSequence, hTask] at hMove
      cases stage with
      | received vector =>
          refine ⟨hIntact.shared, ?_⟩
          intro next hGoing rows hHanded
          simp only [inferenceService, Stage.effect] at hGoing
          split at hGoing
          · cases hGoing
          · cases hGoing
            cases hHanded
      | tested vector =>
          exact
            ⟨hIntact.shared.afterPush cfg hMove,
              fun next hGoing =>
                fits_afterPush cfg hDelta hIntact.shared
                  hMove hGoing⟩
      | buffered vector rows =>
          refine ⟨hIntact.shared, ?_⟩
          intro next hGoing rows' hHanded
          simp only [inferenceService, Stage.effect] at hGoing
          cases hForecast :
              forecastOf cfg predictor vector rows with
          | error error =>
              rw [hForecast] at hGoing
              cases hGoing
          | ok forecast =>
              rw [hForecast] at hGoing
              cases hGoing
              cases hHanded
      | predicted vector forecast =>
          refine ⟨hIntact.shared, ?_⟩
          intro next hGoing
          cases hGoing
  exact
    { shared := hMoved.shared.wait _
      inHand := hMoved.inHand }

/- Every replica hands over contexts. -/
def ContextsIntact
    (delta : ℤ)
    (g : Replicas 𝕜) : Prop :=
  ∀ name rows, g.handed name = some rows →
    ContextIntact cfg delta rows

/-
  In every run whose pushes are in sequence, in every state
  that is reached, whatever a replica hands to the predictor
  next is a context of consecutive windows.
-/
theorem contextsIntact_of_inSequence
    (bus : BusConfig)
    {delta : ℤ}
    (hDelta : 0 < delta)
    (now : ℚ)
    (moves : List (Move (StateVector 𝕜)))
    (hAll :
      AllAlong (Replicas.step cfg predictor bus)
        (InSequence cfg delta) (Replicas.start now) moves) :
    ContextsIntact cfg delta
      ((Replicas.start now).runMoves cfg predictor bus
        moves) := by
  have hStart :
      Intact cfg delta (Replicas.start now : Replicas 𝕜) := by
    apply Group.Sound.start
    intro vector
    exact List.isChain_nil
  have hIntact :
      Intact cfg delta
        ((Replicas.start now).runMoves cfg predictor bus
          moves) := by
    apply AllAlong.invariant (Intact cfg delta) _ hStart hAll
    intro g move hIntact hMove
    exact intact_step cfg predictor hDelta bus hIntact hMove
  intro name rows hHanded
  unfold Replicas.handed at hHanded
  split at hHanded
  · next id stage hTask =>
      exact hIntact.inHand name id stage hTask rows hHanded
  · cases hHanded
  · cases hHanded

instance FollowsIn.decidable
    (delta : ℤ)
    (w : World 𝕜)
    (vector : StateVector 𝕜) :
    Decidable (FollowsIn cfg delta w vector) :=
  inferInstanceAs
    (Decidable
      (1 < cfg.contextL →
        follows delta (w.buffer vector) vector = true))

instance InSequence.decidable
    (delta : ℤ)
    (g : Replicas 𝕜)
    (move : Move (StateVector 𝕜)) :
    Decidable (InSequence cfg delta g move) := by
  unfold InSequence
  split
  · split <;> infer_instance
  · infer_instance

end Replicas

------------------------------------------------------------
-- Two runs
------------------------------------------------------------

/- A replica does so many effects. -/
def works
    (name : String)
    (count : ℕ) : List (Move (StateVector ℚ)) :=
  List.replicate count (.work name)

/- The first window is pushed, and its replica crashes. -/
def crashedAfterPush : List (Move (StateVector ℚ)) :=
  [.publish (silentVector 0), .read "a", .dispatch "a"] ++
    works "a" 2 ++ [.crash "a"]

/-
  The first window is taken over and dropped as a duplicate,
  and then the second one is handled.
-/
def immediateRepeat : List (Move (StateVector ℚ)) :=
  crashedAfterPush ++
    [.wait 60000, .reclaim "b" 0, .dispatch "b"] ++
    works "b" 2 ++
    [.publish (silentVector 60), .read "b", .dispatch "b"] ++
    works "b" 2

/- The predictor is handed both windows in their order. -/
theorem contextsIntact_immediateRepeat :
    (((Replicas.start 0).runMoves pairContext flatPredictor {}
        immediateRepeat).handed "b").map
          (List.map StateVector.windowTs) = some [0, 60] ∧
      ContextsIntact pairContext 60
        ((Replicas.start 0).runMoves pairContext flatPredictor
          {} immediateRepeat) := by
  constructor
  · decide +kernel
  · apply contextsIntact_of_inSequence
    · decide
    · decide +kernel

/-
  The second window is handled to its end before the first
  one is taken over, which is the tail no more.
-/
def lateRepeat : List (Move (StateVector ℚ)) :=
  crashedAfterPush ++
    [.publish (silentVector 60), .read "b", .dispatch "b"] ++
    works "b" 5 ++
    [.wait 60000, .reclaim "b" 0, .dispatch "b"] ++
    works "b" 2

/- The predictor is handed the second window, then the first. -/
theorem not_contextsIntact_lateRepeat :
    ¬ ContextsIntact pairContext 60
      ((Replicas.start 0).runMoves pairContext flatPredictor
        {} lateRepeat) := by
  have hTimes :
      (((Replicas.start 0).runMoves pairContext flatPredictor
        {} lateRepeat).handed "b").map
          (List.map StateVector.windowTs) = some [60, 0] := by
    decide +kernel
  rcases Option.map_eq_some_iff.mp hTimes with
    ⟨rows, hHanded, hRows⟩
  intro hIntact
  have hRising := (hIntact "b" rows hHanded).rising
  rw [hRows] at hRising
  simp at hRising

end Inference

end Nidra
