import Nidra.Features.Store
import Nidra.Inference.Redelivery

/-
  This file runs the inference worker next to the table of
  observed vectors, and proves when the context an explanation
  loads for the origin of a forecast is the one that the
  predictor was handed for it: the buffer is trimmed window
  by window, the table is queried later, and it also has the
  vectors that were stored and have not arrived.

  Key definitions include:
    * `Act`, `Stores.step`, `Stores.run`
    * `observedContext`
    * `arrivals`, `InOrder`
    * `NoneOvertaken`
    * `ContextsObserved`

  Main declarations:
    * `attempt_effect`
    * `buffered_of_inOrder`
    * `contextsObserved_of_noneOvertaken`
    * `not_contextsObserved_overtaken`
-/

namespace Nidra

namespace Inference

open Features (VectorRow saved loadContext DistinctRows)

set_option linter.unusedSectionVars false

variable {𝕜 : Type}

------------------------------------------------------------
-- The Explanation
------------------------------------------------------------

/- Why a context is refused. -/
inductive ContextError where
  | notObserved (hostId : String) (originTs : ℚ)
deriving DecidableEq

/-
  The observed windows that end at an origin. The last one has
  to be the origin itself.
-/
def observedContext
    (rows : List (VectorRow 𝕜))
    (tenantId : Uuid)
    (hostId : String)
    (originTs : ℚ)
    (contextL : ℕ) :
    Except ContextError (List (StateVector 𝕜)) :=
  let vectors :=
    loadContext rows tenantId hostId originTs contextL
  match vectors.getLast? with
  | none => .error (.notObserved hostId originTs)
  | some last =>
      if (last.windowTs : ℚ) ≠ originTs then
        .error (.notObserved hostId originTs)
      else .ok vectors

------------------------------------------------------------
-- What an Attempt Does
------------------------------------------------------------

section Attempts

variable [Zero 𝕜] [One 𝕜] [LinearOrder 𝕜]
variable (cfg : InferenceConfig)
variable (predictor : Predictor 𝕜)

/- An attempt gets to its push and is no duplicate. -/
def Reaches
    (w : World 𝕜)
    (vector : StateVector 𝕜)
    (budget : ℕ) : Prop :=
  pushEffects ≤ budget ∧
    isTail (w.buffer vector) vector = false

/-
  The buffers after an attempt and the forecast it publishes:
  without its push it leaves all buffers, and publishes
  nothing; with it, it publishes the forecast of the buffer
  that it has read back, if any.
-/
structure Attempted
    (w : World 𝕜)
    (vector : StateVector 𝕜)
    (budget : ℕ)
    (after : World 𝕜)
    (added : List (Entry 𝕜)) : Prop where
  log : after.log = w.log ++ added
  now : after.now = w.now
  left :
    ¬ Reaches w vector budget →
      after.seq = w.seq ∧
        ∀ v forecast, Entry.published v forecast ∉ added
  pushed :
    Reaches w vector budget →
      after.seq = (w.afterPush cfg vector).seq ∧
        ∀ v forecast, Entry.published v forecast ∈ added →
          v = vector ∧
            forecastOf cfg predictor vector
              (w.pushed cfg vector) = .ok forecast

/- Acknowledging leaves the buffers and publishes nothing. -/
theorem ack_attempt_effect
    (w : World 𝕜)
    (vector : StateVector 𝕜)
    (budget : ℕ) :
    ∃ acks : List (Entry 𝕜),
      ((ack vector).attempt budget w).2.log =
          w.log ++ acks ∧
        ((ack vector).attempt budget w).2.seq = w.seq ∧
        ((ack vector).attempt budget w).2.now = w.now ∧
        ∀ v forecast, Entry.published v forecast ∉ acks := by
  cases budget with
  | zero =>
      exact ⟨[], by simp [ack], by simp [ack], by simp [ack],
        by simp⟩
  | succ budget =>
      exact ⟨[.acked vector], by simp [ack], by simp [ack],
        by simp [ack], by simp⟩

/- After the push, an attempt may publish one forecast. -/
theorem forecast_attempt_effect
    (w : World 𝕜)
    (vector : StateVector 𝕜)
    (rows : List (StateVector 𝕜))
    (budget : ℕ) :
    ∃ added,
      ((dispatch
          (forecastAndPublish cfg predictor vector rows)
          (ack vector)).attempt budget w).2.log =
          w.log ++ added ∧
        ((dispatch
          (forecastAndPublish cfg predictor vector rows)
          (ack vector)).attempt budget w).2.seq = w.seq ∧
        ((dispatch
          (forecastAndPublish cfg predictor vector rows)
          (ack vector)).attempt budget w).2.now = w.now ∧
        ∀ v forecast, Entry.published v forecast ∈ added →
          v = vector ∧
            forecastOf cfg predictor vector rows =
              .ok forecast := by
  simp only [dispatch, forecastAndPublish,
    Program.attempt_bind]
  cases budget with
  | zero => exact ⟨[], by simp, by simp, by simp, by simp⟩
  | succ budget =>
      simp only [Program.attempt_read_succ]
      cases hForecast :
          forecastOf cfg predictor vector rows with
      | error error =>
          simp only [Program.attempt_pure]
          exact ⟨[], by simp, trivial, trivial, by simp⟩
      | ok forecast =>
          simp only [publish, Program.attempt_bind]
          cases budget with
          | zero =>
              exact ⟨[], by simp, by simp, by simp, by simp⟩
          | succ budget =>
              simp only [Program.attempt_write_succ,
                Program.attempt_pure]
              rcases
                  ack_attempt_effect
                    { w with
                      log :=
                        w.log ++ [.published vector forecast] }
                    vector budget with
                ⟨acks, hLog, hSeq, hNow, hNone⟩
              refine ⟨.published vector forecast :: acks,
                ?_, hSeq, hNow, ?_⟩
              · rw [hLog]
                simp
              · intro v f hMem
                rcases List.mem_cons.mp hMem with hFirst | hAck
                · cases hFirst
                  exact ⟨rfl, rfl⟩
                · exact absurd hAck (hNone v f)

/- Every attempt does what it can. -/
theorem attempt_effect
    (w : World 𝕜)
    (vector : StateVector 𝕜)
    (budget : ℕ) :
    ∃ added,
      Attempted cfg predictor w vector budget
        (w.step cfg predictor (.attempt vector budget))
        added := by
  simp only [World.step, handleMessage, dispatch, process,
    isDuplicate, Program.attempt_bind]
  cases budget with
  | zero =>
      exact ⟨[],
        { log := by simp
          now := by simp
          left := fun _ => ⟨rfl, by simp⟩
          pushed := by simp [Reaches, pushEffects] }⟩
  | succ budget =>
      simp only [Program.attempt_read_succ]
      cases hTail : isTail (w.buffer vector) vector with
      | true =>
          simp only [if_true, Program.attempt_pure]
          rcases ack_attempt_effect w vector budget with
            ⟨acks, hLog, hSeq, hNow, hNone⟩
          exact ⟨acks,
            { log := hLog
              now := hNow
              left := fun _ => ⟨hSeq, hNone⟩
              pushed := by simp [Reaches, hTail] }⟩
      | false =>
          simp only [Bool.false_eq_true, if_false, push,
            Program.attempt_bind]
          cases budget with
          | zero =>
              exact ⟨[],
                { log := by simp
                  now := by simp
                  left := fun _ => ⟨rfl, by simp⟩
                  pushed := by simp [Reaches, pushEffects] }⟩
          | succ budget =>
              have hReaches :
                  Reaches w vector (budget + 1 + 1) :=
                ⟨by simp [pushEffects], hTail⟩
              simp only [Program.attempt_step_succ]
              by_cases hShort :
                  (appendTrimmed cfg.contextL
                    (w.buffer vector) vector).length <
                      cfg.contextL
              · rw [if_pos hShort, Program.attempt_pure]
                rcases
                    ack_attempt_effect (w.afterPush cfg vector)
                      vector budget with
                  ⟨acks, hLog, hSeq, hNow, hNone⟩
                refine ⟨_,
                  { log := hLog.trans
                      (List.append_assoc _ _ _)
                    now := hNow
                    left := fun hNot =>
                      absurd hReaches hNot
                    pushed := fun _ => ⟨hSeq, ?_⟩ }⟩
                intro v forecast hMem
                rcases List.mem_append.mp hMem with
                  hPush | hAck
                · simp at hPush
                · exact absurd hAck (hNone v forecast)
              · rw [if_neg hShort]
                rcases
                    forecast_attempt_effect cfg predictor
                      (w.afterPush cfg vector) vector
                      (w.pushed cfg vector) budget with
                  ⟨added, hLog, hSeq, hNow, hPublished⟩
                rw [dispatch, Program.attempt_bind]
                  at hLog hSeq hNow
                refine ⟨_,
                  { log := hLog.trans
                      (List.append_assoc _ _ _)
                    now := hNow
                    left := fun hNot =>
                      absurd hReaches hNot
                    pushed := fun _ => ⟨hSeq, ?_⟩ }⟩
                intro v forecast hMem
                rcases List.mem_append.mp hMem with
                  hPush | hLater
                · simp at hPush
                · exact hPublished v forecast hLater

------------------------------------------------------------
-- Runs of Both Stores
------------------------------------------------------------

/- The worker with its buffers, and the table. -/
structure Stores (𝕜 : Type) where
  inference : World 𝕜
  rows : List (VectorRow 𝕜)

/-
  What can happen: the features worker saves a vector, or
  something happens to the inference worker.
-/
inductive Act (𝕜 : Type) where
  | save (vector : StateVector 𝕜)
  | infer (event : Event 𝕜)

def Stores.start (now : ℚ) : Stores 𝕜 :=
  { inference := World.start now
    rows := [] }

def Stores.step
    (s : Stores 𝕜) : Act 𝕜 → Stores 𝕜
  | .save vector =>
      { s with rows := saved s.rows vector }
  | .infer event =>
      { s with
        inference := s.inference.step cfg predictor event }

@[simp] theorem Stores.rows_step_save
    (s : Stores 𝕜)
    (vector : StateVector 𝕜) :
    (s.step cfg predictor (.save vector)).rows =
      saved s.rows vector := rfl

@[simp] theorem Stores.inference_step_save
    (s : Stores 𝕜)
    (vector : StateVector 𝕜) :
    (s.step cfg predictor (.save vector)).inference =
      s.inference := rfl

def Stores.run
    (now : ℚ)
    (acts : List (Act 𝕜)) : Stores 𝕜 :=
  acts.foldl (Stores.step cfg predictor) (Stores.start now)

/-
  The vector of a host that an act brings to inference. An
  attempt that fails before its push has brought nothing: the
  message is pending as it was.
-/
def Act.arrival
    (tenant : Uuid)
    (hostId : String) : Act 𝕜 → Option (StateVector 𝕜)
  | .infer (.attempt vector budget) =>
      if vector.tenantId = tenant.str ∧
          vector.hostId = hostId ∧ pushEffects ≤ budget
      then some vector
      else none
  | .infer (.wait _) => none
  | .save _ => none

def arrivals
    (tenant : Uuid)
    (hostId : String)
    (acts : List (Act 𝕜)) : List (StateVector 𝕜) :=
  acts.filterMap (Act.arrival tenant hostId)

/-
  A host's vectors arrive in the order of time, each after it
  was stored, and its buffer does not expire.
-/
structure InOrder
    (tenant : Uuid)
    (hostId : String)
    (now : ℚ)
    (acts : List (Act 𝕜)) : Prop where
  /- Only the latest vector may arrive again. -/
  rising :
    (arrivals tenant hostId acts).Pairwise
      (fun a b => a.windowTs < b.windowTs ∨ a = b)
  stored :
    AllAlong (Stores.step cfg predictor)
      (fun s act =>
        ∀ vector, act.arrival tenant hostId = some vector →
          VectorRow.ofVector tenant vector ∈ s.rows)
      (Stores.start now) acts
  unexpired :
    ∀ before after,
      acts = before ++ after →
        (Stores.run cfg predictor now
            before).inference.seq.Kept
          (Stores.run cfg predictor now before).inference.now
          (tenant.str, hostId)

/-
  No stored vector of a host is overtaken by a later one that
  arrives at inference when it itself has not.
-/
def NoneOvertaken
    (tenant : Uuid)
    (hostId : String)
    (now : ℚ)
    (acts : List (Act 𝕜)) : Prop :=
  ∀ row ∈ (Stores.run cfg predictor now acts).rows,
    row.tenantId = tenant → row.hostId = hostId →
      ∀ v ∈ arrivals tenant hostId acts,
        row.windowTs ≤ v.windowTs →
          ∃ u ∈ arrivals tenant hostId acts,
            u.windowTs = row.windowTs

/- An attempt publishes a forecast. -/
def Publishes
    (w : World 𝕜)
    (vector : StateVector 𝕜)
    (budget : ℕ)
    (forecast : Forecast 𝕜) : Prop :=
  ∃ added,
    (w.step cfg predictor (.attempt vector budget)).log =
        w.log ++ added ∧
      Entry.published vector forecast ∈ added

/-
  Whenever a forecast was published and however long ago, the
  context that is loaded for its origin is the buffer that its
  handler had read back and handed to the predictor.
-/
def ContextsObserved
    (tenant : Uuid)
    (hostId : String)
    (now : ℚ)
    (acts : List (Act 𝕜)) : Prop :=
  ∀ before vector budget after forecast,
    acts = before ++ .infer (.attempt vector budget) :: after →
    vector.tenantId = tenant.str → vector.hostId = hostId →
    Publishes cfg predictor
        (Stores.run cfg predictor now before).inference vector
        budget forecast →
      ∃ handed,
        handed =
            (push cfg.contextL vector).eval
              (Stores.run cfg predictor now
                before).inference ∧
          forecastOf cfg predictor vector handed =
            .ok forecast ∧
          loadContext (Stores.run cfg predictor now acts).rows
              tenant hostId forecast.originTs cfg.contextL =
            handed ∧
          observedContext
              (Stores.run cfg predictor now acts).rows
              tenant hostId forecast.originTs cfg.contextL =
            .ok handed

------------------------------------------------------------
-- The Table Along a Run
------------------------------------------------------------

section Table

variable {cfg predictor}
variable {now : ℚ}

@[simp] theorem run_append
    (before after : List (Act 𝕜)) :
    Stores.run cfg predictor now (before ++ after) =
      after.foldl (Stores.step cfg predictor)
        (Stores.run cfg predictor now before) :=
  List.foldl_append

/- The table only grows. -/
theorem mem_rows_foldl
    {s : Stores 𝕜}
    {row : VectorRow 𝕜}
    (hRow : row ∈ s.rows)
    (acts : List (Act 𝕜)) :
    row ∈ (acts.foldl (Stores.step cfg predictor) s).rows := by
  induction acts generalizing s with
  | nil => exact hRow
  | cons act rest ih =>
      apply ih
      cases act with
      | save vector =>
          rw [Stores.rows_step_save]
          exact Features.mem_saved hRow
      | infer event => exact hRow

theorem distinctRows_run
    (acts : List (Act 𝕜)) :
    DistinctRows (Stores.run cfg predictor now acts).rows := by
  induction acts using List.reverseRecOn with
  | nil => exact List.nodup_nil
  | append_singleton before act ih =>
      rw [run_append, List.foldl_cons, List.foldl_nil]
      cases act with
      | save vector =>
          rw [Stores.rows_step_save]
          exact ih.saved vector
      | infer event => exact ih

end Table

------------------------------------------------------------
-- Short Runs
------------------------------------------------------------

section Short

variable {cfg predictor}
variable {now last : ℚ}

/- The clock of a short run, and the buffers that outlast it. -/
structure Fresh
    (now last : ℚ)
    (w : World 𝕜) : Prop where
  started : now ≤ w.now
  early : w.now ≤ last
  lasts : w.seq.Lasts last

theorem Fresh.step
    {w : World 𝕜}
    (hFresh : Fresh now last w)
    (hLast : last < now + seqTtlS)
    {event : Event 𝕜}
    (hWait : ∀ time, event = .wait time → time ≤ last) :
    Fresh now last (w.step cfg predictor event) := by
  cases event with
  | wait time =>
      exact
        { started := hFresh.started.trans (le_max_left _ _)
          early := max_le hFresh.early (hWait time rfl)
          lasts := hFresh.lasts }
  | attempt vector budget =>
      rcases attempt_effect cfg predictor w vector budget with
        ⟨added, hDone⟩
      refine
        { started := by rw [hDone.now]; exact hFresh.started
          early := by rw [hDone.now]; exact hFresh.early
          lasts := ?_ }
      by_cases hReaches : Reaches w vector budget
      · rw [(hDone.pushed hReaches).1]
        apply hFresh.lasts.renew
        have hStarted := hFresh.started
        linarith
      · rw [(hDone.left hReaches).1]
        exact hFresh.lasts

/- No buffer expires in a run that is shorter than the TTL. -/
theorem kept_of_short
    (hStart : now ≤ last)
    (hLast : last < now + seqTtlS)
    {acts : List (Act 𝕜)}
    (hWaits :
      ∀ time, Act.infer (.wait time) ∈ acts → time ≤ last)
    (key : String × String) :
    (Stores.run cfg predictor now acts).inference.seq.Kept
      (Stores.run cfg predictor now acts).inference.now key := by
  have hFresh :
      Fresh now last
        (Stores.run cfg predictor now acts).inference := by
    induction acts using List.reverseRecOn with
    | nil =>
        exact
          { started := le_rfl
            early := hStart
            lasts := TtlStore.lasts_empty last }
    | append_singleton before act ih =>
        have hBefore := ih (fun time hIn =>
          hWaits time (List.mem_append_left _ hIn))
        rw [run_append, List.foldl_cons, List.foldl_nil]
        cases act with
        | save vector =>
            rw [Stores.inference_step_save]
            exact hBefore
        | infer event =>
            apply hBefore.step hLast
            rintro time rfl
            exact hWaits time (by simp)
  exact hFresh.lasts.kept hFresh.early key

end Short

------------------------------------------------------------
-- The Buffer Along a Run
------------------------------------------------------------

section Buffers

variable {cfg predictor}
variable {tenant : Uuid}
variable {hostId : String}
variable {now : ℚ}

/-
  The buffer of a host is the ending of the vectors that have
  arrived, in the order of time.
-/
structure Buffered
    (cfg : InferenceConfig)
    (predictor : Predictor 𝕜)
    (tenant : Uuid)
    (hostId : String)
    (now : ℚ)
    (acts : List (Act 𝕜))
    (seen : List (StateVector 𝕜)) : Prop where
  rising : seen.Pairwise (fun a b => a.windowTs < b.windowTs)
  arrived : ∀ u, u ∈ seen ↔ u ∈ arrivals tenant hostId acts
  buffer :
    ((Stores.run cfg predictor now
        acts).inference.seq.written
          (tenant.str, hostId)).getD [] =
      List.ending cfg.contextL seen

theorem arrivals_append
    (before after : List (Act 𝕜)) :
    arrivals tenant hostId (before ++ after) =
      arrivals tenant hostId before ++
        arrivals tenant hostId after :=
  List.filterMap_append

/- A run in order was in order before. -/
theorem InOrder.before
    {before after : List (Act 𝕜)}
    (hOrder :
      InOrder cfg predictor tenant hostId now
        (before ++ after)) :
    InOrder cfg predictor tenant hostId now before := by
  have hRising := hOrder.rising
  rw [arrivals_append, List.pairwise_append] at hRising
  refine
    { rising := hRising.1
      stored := (allAlong_append.mp hOrder.stored).1
      unexpired := ?_ }
  intro first rest hSplit
  apply hOrder.unexpired first (rest ++ after)
  rw [hSplit, List.append_assoc]

/- The buffer that is read is the one written last. -/
theorem InOrder.buffer_eq
    {acts : List (Act 𝕜)}
    {vector : StateVector 𝕜}
    (hOrder : InOrder cfg predictor tenant hostId now acts)
    (hTenant : vector.tenantId = tenant.str)
    (hHost : vector.hostId = hostId) :
    (Stores.run cfg predictor now acts).inference.buffer
        vector =
      ((Stores.run cfg predictor now
        acts).inference.seq.written
          (tenant.str, hostId)).getD [] := by
  have hKept := hOrder.unexpired acts [] (by simp)
  unfold World.buffer seqKey
  rw [hTenant, hHost, hKept]

/- Pushing on a buffer keeps it the ending of what arrived. -/
theorem Buffered.pushed_eq
    {acts : List (Act 𝕜)}
    {seen : List (StateVector 𝕜)}
    {vector : StateVector 𝕜}
    (hSeen :
      Buffered cfg predictor tenant hostId now acts seen)
    (hOrder : InOrder cfg predictor tenant hostId now acts)
    (hTenant : vector.tenantId = tenant.str)
    (hHost : vector.hostId = hostId) :
    (Stores.run cfg predictor now acts).inference.pushed cfg
        vector =
      List.ending cfg.contextL (seen ++ [vector]) := by
  unfold World.pushed
  rw [hOrder.buffer_eq hTenant hHost, hSeen.buffer]
  exact List.ending_concat_ending cfg.contextL_pos seen vector

/- A tail with the time of an arriving vector is the vector. -/
theorem Buffered.mem_of_isTail
    {acts : List (Act 𝕜)}
    {seen : List (StateVector 𝕜)}
    {vector : StateVector 𝕜}
    (hSeen :
      Buffered cfg predictor tenant hostId now acts seen)
    (hAfter :
      ∀ u ∈ arrivals tenant hostId acts,
        u.windowTs < vector.windowTs ∨ u = vector)
    (hTail :
      isTail (List.ending cfg.contextL seen) vector = true) :
    vector ∈ seen := by
  unfold isTail at hTail
  rw [List.getLast?_ending cfg.contextL_pos] at hTail
  cases hLast : seen.getLast? with
  | none =>
      rw [hLast] at hTail
      cases hTail
  | some tail =>
      rw [hLast] at hTail
      have hSame := of_decide_eq_true hTail
      have hMem := List.mem_of_getLast? hLast
      rcases hAfter tail ((hSeen.arrived tail).mp hMem) with
        hLt | rfl
      · omega
      · exact hMem

/- A vector that is no tail is later than all that arrived. -/
theorem Buffered.later_of_not_isTail
    {acts : List (Act 𝕜)}
    {seen : List (StateVector 𝕜)}
    {vector : StateVector 𝕜}
    (hSeen :
      Buffered cfg predictor tenant hostId now acts seen)
    (hAfter :
      ∀ u ∈ arrivals tenant hostId acts,
        u.windowTs < vector.windowTs ∨ u = vector)
    (hNew :
      isTail (List.ending cfg.contextL seen) vector = false) :
    ∀ u ∈ seen, u.windowTs < vector.windowTs := by
  intro u hU
  rcases hAfter u ((hSeen.arrived u).mp hU) with hLt | rfl
  · exact hLt
  · -- The vector is the last that arrived, so it is the tail.
    exfalso
    rcases List.eq_nil_or_concat seen with rfl | ⟨rest, last, rfl⟩
    · cases hU
    · rw [List.concat_eq_append] at *
      have hLast :
          last.windowTs < u.windowTs ∨ last = u :=
        hAfter last ((hSeen.arrived last).mp (by simp))
      have hBefore := (List.pairwise_append.mp hSeen.rising).2.2
      have hIs : last = u := by
        rcases List.mem_append.mp hU with hEarly | hEnd
        · have hLt := hBefore u hEarly last (by simp)
          rcases hLast with hGt | hSame
          · omega
          · exact hSame
        · exact (List.mem_singleton.mp hEnd).symm
      unfold isTail at hNew
      rw [List.getLast?_ending cfg.contextL_pos,
        List.getLast?_concat, hIs] at hNew
      simp at hNew

/- An act that changes no buffer brings nothing new. -/
theorem Buffered.unchanged
    {acts : List (Act 𝕜)}
    {act : Act 𝕜}
    {seen : List (StateVector 𝕜)}
    (hSeen :
      Buffered cfg predictor tenant hostId now acts seen)
    (hWritten :
      (Stores.run cfg predictor now
          (acts ++ [act])).inference.seq.written
            (tenant.str, hostId) =
        (Stores.run cfg predictor now
          acts).inference.seq.written (tenant.str, hostId))
    (hOld :
      ∀ u, act.arrival tenant hostId = some u → u ∈ seen) :
    Buffered cfg predictor tenant hostId now (acts ++ [act])
      seen := by
  refine
    { rising := hSeen.rising
      arrived := ?_
      buffer := ?_ }
  · intro u
    rw [arrivals_append, List.mem_append, ← hSeen.arrived u]
    constructor
    · exact Or.inl
    · rintro (hIn | hNew)
      · exact hIn
      · rcases List.mem_filterMap.mp hNew with
          ⟨other, hOther, hArrival⟩
        rw [List.mem_singleton.mp hOther] at hArrival
        exact hOld u hArrival
  · rw [hWritten]
    exact hSeen.buffer

/- An attempt brings the host's vector or nothing. -/
theorem arrival_attempt
    (tenant : Uuid)
    (hostId : String)
    (vector : StateVector 𝕜)
    (budget : ℕ) :
    Act.arrival tenant hostId
        (.infer (.attempt vector budget)) =
      if vector.tenantId = tenant.str ∧
          vector.hostId = hostId ∧ pushEffects ≤ budget
      then some vector
      else none := by
  rw [Act.arrival]

theorem run_attempt
    (acts : List (Act 𝕜))
    (event : Event 𝕜) :
    (Stores.run cfg predictor now
        (acts ++ [.infer event])).inference =
      (Stores.run cfg predictor now acts).inference.step cfg
        predictor event := by
  rw [run_append, List.foldl_cons, List.foldl_nil,
    Stores.step]

/- The vectors before an arriving one are not later. -/
theorem InOrder.before_arrival
    {acts : List (Act 𝕜)}
    {act : Act 𝕜}
    {vector : StateVector 𝕜}
    (hOrder :
      InOrder cfg predictor tenant hostId now (acts ++ [act]))
    (hArrival : act.arrival tenant hostId = some vector) :
    arrivals tenant hostId (acts ++ [act]) =
        arrivals tenant hostId acts ++ [vector] ∧
      ∀ u ∈ arrivals tenant hostId acts,
        u.windowTs < vector.windowTs ∨ u = vector := by
  have hArrivals :
      arrivals tenant hostId (acts ++ [act]) =
        arrivals tenant hostId acts ++ [vector] := by
    rw [arrivals_append]
    simp [arrivals, hArrival]
  refine ⟨hArrivals, ?_⟩
  have hRising := hOrder.rising
  rw [hArrivals, List.pairwise_append] at hRising
  intro u hU
  exact hRising.2.2 u hU vector (by simp)

/- A vector that is pushed ends what has arrived. -/
theorem Buffered.push
    {acts : List (Act 𝕜)}
    {act : Act 𝕜}
    {seen : List (StateVector 𝕜)}
    {vector : StateVector 𝕜}
    (hSeen :
      Buffered cfg predictor tenant hostId now acts seen)
    (hOrder :
      InOrder cfg predictor tenant hostId now (acts ++ [act]))
    (hArrival : act.arrival tenant hostId = some vector)
    (hNew :
      isTail (List.ending cfg.contextL seen) vector = false)
    (hWritten :
      ((Stores.run cfg predictor now
          (acts ++ [act])).inference.seq.written
            (tenant.str, hostId)).getD [] =
        List.ending cfg.contextL (seen ++ [vector])) :
    Buffered cfg predictor tenant hostId now (acts ++ [act])
      (seen ++ [vector]) := by
  rcases hOrder.before_arrival hArrival with
    ⟨hArrivals, hAfter⟩
  have hLater := hSeen.later_of_not_isTail hAfter hNew
  refine
    { rising := ?_
      arrived := ?_
      buffer := hWritten }
  · rw [List.pairwise_append]
    refine ⟨hSeen.rising, List.pairwise_singleton _ _, ?_⟩
    intro u hU v hV
    rw [List.mem_singleton.mp hV]
    exact hLater u hU
  · intro u
    rw [hArrivals, List.mem_append, List.mem_append,
      hSeen.arrived u]

/- An attempt on a vector of another host is not seen. -/
theorem written_attempt_other
    (acts : List (Act 𝕜))
    {vector : StateVector 𝕜}
    (budget : ℕ)
    (hOther : seqKey vector ≠ (tenant.str, hostId)) :
    (Stores.run cfg predictor now
        (acts ++
          [.infer
            (.attempt vector budget)])).inference.seq.written
              (tenant.str, hostId) =
      (Stores.run cfg predictor now
        acts).inference.seq.written (tenant.str, hostId) := by
  rcases attempt_effect cfg predictor
    (Stores.run cfg predictor now acts).inference vector
    budget with ⟨added, hDone⟩
  rw [run_attempt]
  by_cases hReaches :
      Reaches (Stores.run cfg predictor now acts).inference
        vector budget
  · rw [(hDone.pushed hReaches).1, World.afterPush,
      TtlStore.written_renew_ne _ _ _ _ hOther.symm]
  · rw [(hDone.left hReaches).1]

/- An attempt that pushes its vector puts it at the end. -/
theorem Buffered.attempt_reaches
    {acts : List (Act 𝕜)}
    {seen : List (StateVector 𝕜)}
    {vector : StateVector 𝕜}
    {budget : ℕ}
    (hSeen :
      Buffered cfg predictor tenant hostId now acts seen)
    (hOrder :
      InOrder cfg predictor tenant hostId now
        (acts ++ [.infer (.attempt vector budget)]))
    (hTenant : vector.tenantId = tenant.str)
    (hHost : vector.hostId = hostId)
    (hReaches :
      Reaches (Stores.run cfg predictor now acts).inference
        vector budget) :
    Buffered cfg predictor tenant hostId now
      (acts ++ [.infer (.attempt vector budget)])
      (seen ++ [vector]) := by
  have hBefore := hOrder.before
  have hBuffer :=
    (hBefore.buffer_eq hTenant hHost).trans hSeen.buffer
  have hArrival := arrival_attempt tenant hostId vector budget
  rw [if_pos ⟨hTenant, hHost, hReaches.1⟩] at hArrival
  have hKey : seqKey vector = (tenant.str, hostId) := by
    rw [seqKey, hTenant, hHost]
  apply hSeen.push hOrder hArrival
  · rw [← hBuffer]
    exact hReaches.2
  · rcases attempt_effect cfg predictor
      (Stores.run cfg predictor now acts).inference vector
      budget with ⟨added, hDone⟩
    rw [run_attempt, (hDone.pushed hReaches).1,
      World.afterPush, hKey, TtlStore.written_renew_self,
      Option.getD_some,
      hSeen.pushed_eq hBefore hTenant hHost]

/- An attempt keeps the buffer the ending of what arrived. -/
theorem Buffered.attempt
    {acts : List (Act 𝕜)}
    {seen : List (StateVector 𝕜)}
    (hSeen :
      Buffered cfg predictor tenant hostId now acts seen)
    (vector : StateVector 𝕜)
    (budget : ℕ)
    (hOrder :
      InOrder cfg predictor tenant hostId now
        (acts ++ [.infer (.attempt vector budget)])) :
    ∃ seen',
      Buffered cfg predictor tenant hostId now
        (acts ++ [.infer (.attempt vector budget)]) seen' := by
  have hBefore := hOrder.before
  rcases attempt_effect cfg predictor
    (Stores.run cfg predictor now acts).inference vector
    budget with ⟨added, hDone⟩
  by_cases hMine :
      vector.tenantId = tenant.str ∧ vector.hostId = hostId ∧
        pushEffects ≤ budget
  · have hArrival := arrival_attempt tenant hostId vector budget
    rw [if_pos hMine] at hArrival
    rcases hMine with ⟨hTenant, hHost, hBudget⟩
    have hBuffer :=
      (hBefore.buffer_eq hTenant hHost).trans hSeen.buffer
    cases hTail :
        isTail (List.ending cfg.contextL seen) vector with
    | true =>
        have hNot :
            ¬ Reaches
              (Stores.run cfg predictor now acts).inference
              vector budget := by
          intro hReaches
          rw [Reaches, hBuffer, hTail] at hReaches
          exact absurd hReaches.2 (by decide)
        refine ⟨seen, hSeen.unchanged ?_ ?_⟩
        · rw [run_attempt, (hDone.left hNot).1]
        · intro u hU
          rw [hArrival, Option.some.injEq] at hU
          rw [← hU]
          exact hSeen.mem_of_isTail
            (hOrder.before_arrival hArrival).2 hTail
    | false =>
        have hReaches :
            Reaches
              (Stores.run cfg predictor now acts).inference
              vector budget :=
          ⟨hBudget, by rw [hBuffer]; exact hTail⟩
        exact ⟨seen ++ [vector],
          hSeen.attempt_reaches hOrder hTenant hHost hReaches⟩
  · have hArrival := arrival_attempt tenant hostId vector budget
    rw [if_neg hMine] at hArrival
    refine ⟨seen, hSeen.unchanged ?_ ?_⟩
    · by_cases hKey : seqKey vector = (tenant.str, hostId)
      · rw [run_attempt, (hDone.left ?_).1]
        intro hReaches
        apply hMine
        exact ⟨congrArg Prod.fst hKey,
          congrArg Prod.snd hKey, hReaches.1⟩
      · exact written_attempt_other acts budget hKey
    · intro u hU
      rw [hArrival] at hU
      cases hU

/- In every run in order, a buffer ends what has arrived. -/
theorem buffered_of_inOrder
    {acts : List (Act 𝕜)}
    (hOrder : InOrder cfg predictor tenant hostId now acts) :
    ∃ seen,
      Buffered cfg predictor tenant hostId now acts seen := by
  induction acts using List.reverseRecOn with
  | nil =>
      exact ⟨[],
        { rising := List.Pairwise.nil
          arrived := fun u => Iff.rfl
          buffer := by
            simp [Stores.run, Stores.start, World.start,
              TtlStore.written, TtlStore.empty,
              List.ending] }⟩
  | append_singleton before act ih =>
      rcases ih hOrder.before with ⟨seen, hSeen⟩
      cases act with
      | save vector =>
          refine ⟨seen, hSeen.unchanged ?_ ?_⟩
          · rw [run_append]
            rfl
          · intro u hU
            cases hU
      | infer event =>
          cases event with
          | wait time =>
              refine ⟨seen, hSeen.unchanged ?_ ?_⟩
              · rw [run_append]
                rfl
              · intro u hU
                cases hU
          | attempt vector budget =>
              exact hSeen.attempt vector budget hOrder

------------------------------------------------------------
-- The Context of a Forecast
------------------------------------------------------------

/- A vector that has arrived is in the table. -/
theorem InOrder.mem_rows
    {acts : List (Act 𝕜)}
    {vector : StateVector 𝕜}
    (hOrder : InOrder cfg predictor tenant hostId now acts)
    (hMem : vector ∈ arrivals tenant hostId acts) :
    VectorRow.ofVector tenant vector ∈
      (Stores.run cfg predictor now acts).rows := by
  rcases List.mem_filterMap.mp hMem with ⟨act, hAct, hArrival⟩
  rcases List.append_of_mem hAct with ⟨before, after, rfl⟩
  have hStored := (allAlong_append.mp hOrder.stored).2.1
  rw [run_append]
  exact mem_rows_foldl (hStored vector hArrival) _

theorem mem_arrivals
    {acts : List (Act 𝕜)}
    {vector : StateVector 𝕜}
    (hMem : vector ∈ arrivals tenant hostId acts) :
    vector.tenantId = tenant.str ∧ vector.hostId = hostId := by
  rcases List.mem_filterMap.mp hMem with ⟨act, _, hArrival⟩
  cases act with
  | save other => cases hArrival
  | infer event =>
      cases event with
      | wait time => cases hArrival
      | attempt other budget =>
          rw [arrival_attempt] at hArrival
          split_ifs at hArrival with hMine
          cases hArrival
          exact ⟨hMine.1, hMine.2.1⟩

/-
  With none overtaken, the rows of a host up to a window that
  has arrived are those of the vectors that had arrived with
  it.
-/
theorem InOrder.rows_iff
    {before after : List (Act 𝕜)}
    {vector : StateVector 𝕜}
    (hOrder :
      InOrder cfg predictor tenant hostId now
        (before ++ after))
    (hNone :
      NoneOvertaken cfg predictor tenant hostId now
        (before ++ after))
    (hLast : vector ∈ arrivals tenant hostId before)
    (hLatest :
      ∀ u ∈ arrivals tenant hostId before,
        u.windowTs ≤ vector.windowTs)
    (row : VectorRow 𝕜) :
    (row ∈ (Stores.run cfg predictor now
          (before ++ after)).rows ∧
        row.tenantId = tenant ∧ row.hostId = hostId ∧
          row.windowTs ≤ vector.windowTs) ↔
      ∃ u ∈ arrivals tenant hostId before,
        row = VectorRow.ofVector tenant u := by
  have hRising := hOrder.rising
  rw [arrivals_append, List.pairwise_append] at hRising
  have hMem : ∀ u ∈ arrivals tenant hostId before,
      u ∈ arrivals tenant hostId (before ++ after) := by
    intro u hU
    rw [arrivals_append]
    exact List.mem_append_left _ hU
  constructor
  · rintro ⟨hRow, hTenant, hHost, hLe⟩
    rcases hNone row hRow hTenant hHost vector
      (hMem vector hLast) hLe with ⟨u, hU, hTs⟩
    have hIn : u ∈ arrivals tenant hostId before := by
      rw [arrivals_append, List.mem_append] at hU
      rcases hU with hIn | hLater
      · exact hIn
      · rcases hRising.2.2 vector hLast u hLater with
          hLt | rfl
        · omega
        · exact hLast
    refine ⟨u, hIn, ?_⟩
    have hKey : row.key = (VectorRow.ofVector tenant u).key := by
      unfold VectorRow.key VectorRow.ofVector
      rw [hTenant, hHost, hTs, (mem_arrivals hIn).2]
    exact List.inj_on_of_nodup_map (distinctRows_run _) hRow
      (hOrder.mem_rows (hMem u hIn)) hKey
  · rintro ⟨u, hU, rfl⟩
    exact ⟨hOrder.mem_rows (hMem u hU), rfl,
      (mem_arrivals hU).2, hLatest u hU⟩

end Buffers

/-
  The predictor anchors its forecast at the window that it is
  given.
-/
def Anchored (predictor : Predictor 𝕜) : Prop :=
  ∀ states hostId ts,
    (predictor states hostId ts).originTs = ts

theorem originTs_of_forecastOf
    (hAnchored : Anchored predictor)
    {vector : StateVector 𝕜}
    {rows : List (StateVector 𝕜)}
    {forecast : Forecast 𝕜}
    (hForecast :
      forecastOf cfg predictor vector rows = .ok forecast) :
    forecast.originTs = vector.windowTs := by
  unfold forecastOf Forecast.build at hForecast
  dsimp only at hForecast
  split at hForecast
  · cases hForecast
  · cases hForecast
    exact hAnchored _ _ _

/- An attempt that gets past its publish publishes. -/
theorem publishes_of_forecast
    {w : World 𝕜}
    {vector : StateVector 𝕜}
    {forecast : Forecast 𝕜}
    (rest : ℕ)
    (hNew : isTail (w.buffer vector) vector = false)
    (hFull : cfg.contextL ≤ (w.pushed cfg vector).length)
    (hForecast :
      forecastOf cfg predictor vector (w.pushed cfg vector) =
        .ok forecast) :
    Publishes cfg predictor w vector (rest + publishEffects)
      forecast := by
  rcases
      ack_attempt_effect
        { w.afterPush cfg vector with
          log :=
            (w.afterPush cfg vector).log ++
              [.published vector forecast] }
        vector rest with
    ⟨acks, hLog, _, _, _⟩
  refine ⟨.pushed vector (w.pushed cfg vector).length ::
    .published vector forecast :: acks, ?_, by simp⟩
  have hNotShort :
      ¬ (appendTrimmed cfg.contextL (w.buffer vector)
        vector).length < cfg.contextL :=
    not_lt.mpr hFull
  have hRun :
      w.step cfg predictor
          (.attempt vector (rest + publishEffects)) =
        ((ack vector).attempt rest
          { w.afterPush cfg vector with
            log :=
              (w.afterPush cfg vector).log ++
                [.published vector forecast] }).2 := by
    unfold World.pushed at hForecast
    simp [World.step, handleMessage, dispatch, process,
      isDuplicate, push, forecastAndPublish, publish,
      publishEffects, Program.attempt_bind, hNew, hNotShort,
      hForecast, World.afterPush, World.pushed]
  rw [hRun, hLog]
  simp [World.afterPush]

/- What is published was made of the buffer after the push. -/
theorem forecast_of_publishes
    {w : World 𝕜}
    {vector : StateVector 𝕜}
    {budget : ℕ}
    {forecast : Forecast 𝕜}
    (hPublishes :
      Publishes cfg predictor w vector budget forecast) :
    Reaches w vector budget ∧
      forecastOf cfg predictor vector (w.pushed cfg vector) =
        .ok forecast := by
  rcases attempt_effect cfg predictor w vector budget with
    ⟨added, hDone⟩
  rcases hPublishes with ⟨others, hLog, hMem⟩
  rw [List.append_cancel_left (hLog.symm.trans hDone.log)]
    at hMem
  by_cases hReaches : Reaches w vector budget
  · exact ⟨hReaches, ((hDone.pushed hReaches).2 _ _ hMem).2⟩
  · exact absurd hMem ((hDone.left hReaches).2 _ _)

/-
  In every run in order in which no stored vector is overtaken
  every forecast can be explained from the context that it was
  made from.
-/
theorem contextsObserved_of_noneOvertaken
    (hAnchored : Anchored predictor)
    {tenant : Uuid}
    {hostId : String}
    {now : ℚ}
    {acts : List (Act 𝕜)}
    (hOrder : InOrder cfg predictor tenant hostId now acts)
    (hNone :
      NoneOvertaken cfg predictor tenant hostId now acts) :
    ContextsObserved cfg predictor tenant hostId now acts := by
  rintro before vector budget after forecast rfl hTenant hHost
    hPublishes
  rw [List.append_cons] at hOrder hNone ⊢
  have hUpTo := hOrder.before
  rcases buffered_of_inOrder hUpTo.before with ⟨seen, hSeen⟩
  rcases forecast_of_publishes cfg predictor hPublishes with
    ⟨hReaches, hForecast⟩
  have hAfter :=
    hSeen.attempt_reaches hUpTo hTenant hHost hReaches
  have hPushed :=
    hSeen.pushed_eq hUpTo.before hTenant hHost
  have hTs := originTs_of_forecastOf cfg predictor hAnchored
    hForecast
  have hLatest : ∀ u ∈ seen ++ [vector],
      u.windowTs ≤ vector.windowTs := by
    intro u hU
    rcases List.mem_append.mp hU with hEarly | hLast
    · exact ((List.pairwise_append.mp hAfter.rising).2.2 u
        hEarly vector (by simp)).le
    · rw [List.mem_singleton.mp hLast]
  have hLoad :
      loadContext
          (Stores.run cfg predictor now
            (before ++ [.infer (.attempt vector budget)] ++
              after)).rows
          tenant hostId forecast.originTs cfg.contextL =
        List.ending cfg.contextL (seen ++ [vector]) := by
    apply Features.loadContext_eq_ending (distinctRows_run _)
      hAfter.rising
    · intro v hV
      exact (mem_arrivals ((hAfter.arrived v).mp hV)).1
    · intro row
      rw [hTs, Int.cast_le,
        hOrder.rows_iff hNone
          ((hAfter.arrived vector).mp (by simp))
          (fun u hU => hLatest u ((hAfter.arrived u).mpr hU))]
      simp only [hAfter.arrived]
  refine ⟨_, rfl, hForecast, ?_, ?_⟩
  · rw [hLoad, ← hPushed]
    rfl
  · unfold observedContext
    dsimp only
    rw [hLoad, List.getLast?_ending cfg.contextL_pos,
      List.getLast?_concat, ← hPushed]
    dsimp only
    rw [hTs, if_neg (by simp)]
    rfl

end Attempts

------------------------------------------------------------
-- A Forecast and Later Windows
------------------------------------------------------------

/- A silent window of a tenant that is written as a UUID. -/
def observedVector (windowTs : ℤ) : StateVector ℚ :=
  { silentVector windowTs with tenantId := (0 : Uuid).str }

/- The first window is handled, and the second one stored. -/
def twoStored : List (Act ℚ) :=
  [.save (observedVector 0),
    .infer (.attempt (observedVector 0) 5),
    .save (observedVector 60)]

/- The second window arrives again, and a third is stored. -/
def repeatedAndStored : List (Act ℚ) :=
  [.infer (.attempt (observedVector 60) 5),
    .save (observedVector 120)]

def handledSecond : Act ℚ :=
  .infer (.attempt (observedVector 60) 5)

/- A window that has no row yet gets one. -/
theorem saved_observedVector
    {rows : List (VectorRow ℚ)}
    {windowTs : ℤ}
    (hNew : ∀ old ∈ rows, old.windowTs ≠ windowTs) :
    saved rows (observedVector windowTs) =
      rows ++
        [VectorRow.ofVector 0 (observedVector windowTs)] := by
  have hTenant :
      Features.tenantUuid (observedVector windowTs).tenantId =
        .ok 0 := by
    unfold Features.tenantUuid observedVector
    rw [Uuid.ofText_str]
  rw [Features.saved_of_tenant hTenant, if_neg]
  intro hAny
  rcases List.any_eq_true.mp hAny with ⟨old, hOld, hKey⟩
  have hTs := congrArg (fun key => key.2.2)
    (of_decide_eq_true hKey)
  exact hNew old hOld hTs

theorem arrivals_twoStored :
    arrivals 0 "10.0.0.1"
        (twoStored ++ handledSecond :: repeatedAndStored) =
      [observedVector 0, observedVector 60,
        observedVector 60] := by
  simp [arrivals, twoStored, handledSecond, repeatedAndStored,
    List.filterMap_cons, Act.arrival, observedVector,
    silentVector, pushEffects]

theorem saved_first :
    saved [] (observedVector 0) =
      [VectorRow.ofVector 0 (observedVector 0)] :=
  saved_observedVector (by simp)

theorem saved_second :
    saved [VectorRow.ofVector 0 (observedVector 0)]
        (observedVector 60) =
      [VectorRow.ofVector 0 (observedVector 0),
        VectorRow.ofVector 0 (observedVector 60)] :=
  saved_observedVector (by
    simp [VectorRow.ofVector, observedVector, silentVector])

theorem rows_twoStored :
    (Stores.run pairContext flatPredictor 0
        (twoStored ++ handledSecond :: repeatedAndStored)).rows =
      [VectorRow.ofVector 0 (observedVector 0),
        VectorRow.ofVector 0 (observedVector 60),
        VectorRow.ofVector 0 (observedVector 120)] := by
  simp only [Stores.run, Stores.start, Stores.step, twoStored,
    handledSecond, repeatedAndStored, List.cons_append,
    List.nil_append, List.foldl_cons, List.foldl_nil,
    saved_first, saved_second]
  exact saved_observedVector (by
    simp [VectorRow.ofVector, observedVector, silentVector])

theorem inOrder_twoStored :
    InOrder pairContext flatPredictor 0 "10.0.0.1" 0
      (twoStored ++ handledSecond :: repeatedAndStored) := by
  refine
    { rising := ?_
      stored := ?_
      unexpired := ?_ }
  · rw [arrivals_twoStored]
    simp [observedVector, silentVector]
  · simp only [AllAlong, Stores.start, Stores.step, twoStored,
      handledSecond, repeatedAndStored, List.cons_append,
      List.nil_append, saved_first, saved_second]
    simp only [Act.arrival, reduceCtorEq, false_implies,
      implies_true, Option.ite_none_right_eq_some,
      true_and, and_true]
    constructor
    · rintro _ ⟨_, hSame⟩
      cases hSame
      exact List.mem_cons_self
    · constructor
      · rintro _ ⟨_, hSame⟩
        cases hSame
        exact List.mem_cons_of_mem _ List.mem_cons_self
      · rintro _ ⟨_, hSame⟩
        cases hSame
        exact List.mem_cons_of_mem _ List.mem_cons_self
  · intro before after hSplit
    apply kept_of_short le_rfl (by simp [seqTtlS])
    intro time hWait
    have hIn : Act.infer (.wait time) ∈
        twoStored ++ handledSecond :: repeatedAndStored := by
      rw [hSplit]
      exact List.mem_append_left _ hWait
    simp [twoStored, handledSecond, repeatedAndStored] at hIn

/- Only the third window, which comes last, has not arrived. -/
theorem noneOvertaken_twoStored :
    NoneOvertaken pairContext flatPredictor 0 "10.0.0.1" 0
      (twoStored ++ handledSecond :: repeatedAndStored) := by
  intro row hRow _ _ v hV hLe
  rw [rows_twoStored] at hRow
  rw [arrivals_twoStored] at hV ⊢
  have hEarly : v.windowTs ≤ 60 := by
    simp only [List.mem_cons, List.not_mem_nil, or_false]
      at hV
    rcases hV with rfl | rfl | rfl <;> decide
  simp only [List.mem_cons, List.not_mem_nil, or_false]
    at hRow
  rcases hRow with rfl | rfl | rfl
  · exact ⟨observedVector 0, by simp, rfl⟩
  · exact ⟨observedVector 60, by simp, rfl⟩
  · exact absurd (hLe.trans hEarly) (by decide)

/- The second window fills the buffer and is forecast from. -/
theorem publishes_twoStored :
    ∃ forecast,
      Publishes pairContext flatPredictor
        (Stores.run pairContext flatPredictor 0
          twoStored).inference
        (observedVector 60) 5 forecast := by
  have hAccepted :
      ∃ forecast,
        forecastOf pairContext flatPredictor
            (observedVector 60)
            ((Stores.run pairContext flatPredictor 0
              twoStored).inference.pushed pairContext
                (observedVector 60)) =
          .ok forecast := by
    apply Forecast.exists_build_ok
    rw [← Option.isNone_iff_eq_none]
    decide +kernel
  rcases hAccepted with ⟨forecast, hForecast⟩
  exact ⟨forecast,
    publishes_of_forecast pairContext flatPredictor 1
      (by decide +kernel) (by decide +kernel) hForecast⟩

/- The explanation loads both windows, and not the third. -/
theorem contextsObserved_of_noneOvertaken_twoStored :
    (∃ forecast,
      Publishes pairContext flatPredictor
        (Stores.run pairContext flatPredictor 0
          twoStored).inference
        (observedVector 60) 5 forecast) ∧
      ContextsObserved pairContext flatPredictor 0 "10.0.0.1" 0
        (twoStored ++ handledSecond :: repeatedAndStored) :=
  ⟨publishes_twoStored,
    contextsObserved_of_noneOvertaken pairContext flatPredictor
      (fun _ _ _ => rfl) inOrder_twoStored
      noneOvertaken_twoStored⟩

/-
  The second window is stored and does not arrive before the
  third does.
-/
def secondOvertaken : List (Act ℚ) :=
  [.save (observedVector 0),
    .infer (.attempt (observedVector 0) 5),
    .save (observedVector 60),
    .save (observedVector 120)]

def handledThird : Act ℚ :=
  .infer (.attempt (observedVector 120) 5)

theorem arrivals_secondOvertaken :
    arrivals 0 "10.0.0.1" (secondOvertaken ++ [handledThird]) =
      [observedVector 0, observedVector 120] := by
  simp [arrivals, secondOvertaken, handledThird,
    List.filterMap_cons, Act.arrival, observedVector,
    silentVector, pushEffects]

theorem saved_third :
    saved
        [VectorRow.ofVector 0 (observedVector 0),
          VectorRow.ofVector 0 (observedVector 60)]
        (observedVector 120) =
      [VectorRow.ofVector 0 (observedVector 0),
        VectorRow.ofVector 0 (observedVector 60),
        VectorRow.ofVector 0 (observedVector 120)] :=
  saved_observedVector (by
    simp [VectorRow.ofVector, observedVector, silentVector])

theorem rows_secondOvertaken :
    (Stores.run pairContext flatPredictor 0
        (secondOvertaken ++ [handledThird])).rows =
      [VectorRow.ofVector 0 (observedVector 0),
        VectorRow.ofVector 0 (observedVector 60),
        VectorRow.ofVector 0 (observedVector 120)] := by
  simp only [Stores.run, Stores.start, Stores.step,
    secondOvertaken, handledThird, List.cons_append,
    List.nil_append, List.foldl_cons, List.foldl_nil,
    saved_first, saved_second, saved_third]

theorem inOrder_secondOvertaken :
    InOrder pairContext flatPredictor 0 "10.0.0.1" 0
      (secondOvertaken ++ [handledThird]) := by
  refine
    { rising := ?_
      stored := ?_
      unexpired := ?_ }
  · rw [arrivals_secondOvertaken]
    simp [observedVector, silentVector]
  · simp only [AllAlong, Stores.start, Stores.step,
      secondOvertaken, handledThird, List.cons_append,
      List.nil_append, saved_first, saved_second, saved_third]
    simp only [Act.arrival, reduceCtorEq, false_implies,
      implies_true, Option.ite_none_right_eq_some,
      true_and, and_true]
    constructor
    · rintro _ ⟨_, hSame⟩
      cases hSame
      exact List.mem_cons_self
    · rintro _ ⟨_, hSame⟩
      cases hSame
      simp
  · intro before after hSplit
    apply kept_of_short le_rfl (by simp [seqTtlS])
    intro time hWait
    have hIn : Act.infer (.wait time) ∈
        secondOvertaken ++ [handledThird] := by
      rw [hSplit]
      exact List.mem_append_left _ hWait
    simp [secondOvertaken, handledThird] at hIn

/- The third window fills the buffer, after the first. -/
theorem publishes_secondOvertaken :
    ∃ forecast,
      Publishes pairContext flatPredictor
        (Stores.run pairContext flatPredictor 0
          secondOvertaken).inference
        (observedVector 120) 5 forecast := by
  have hAccepted :
      ∃ forecast,
        forecastOf pairContext flatPredictor
            (observedVector 120)
            ((Stores.run pairContext flatPredictor 0
              secondOvertaken).inference.pushed pairContext
                (observedVector 120)) =
          .ok forecast := by
    apply Forecast.exists_build_ok
    rw [← Option.isNone_iff_eq_none]
    decide +kernel
  rcases hAccepted with ⟨forecast, hForecast⟩
  exact ⟨forecast,
    publishes_of_forecast pairContext flatPredictor 1
      (by decide +kernel) (by decide +kernel) hForecast⟩

/-
  The predictor was handed the first and the third window; the
  explanation loads the second and the third.
-/
theorem not_contextsObserved_overtaken :
    InOrder pairContext flatPredictor 0 "10.0.0.1" 0
        (secondOvertaken ++ [handledThird]) ∧
      ¬ ContextsObserved pairContext flatPredictor 0
        "10.0.0.1" 0 (secondOvertaken ++ [handledThird]) := by
  refine ⟨inOrder_secondOvertaken, ?_⟩
  intro hObserved
  rcases publishes_secondOvertaken with ⟨forecast, hPublishes⟩
  rcases hObserved _ _ _ _ _ rfl rfl rfl hPublishes with
    ⟨handed, hHanded, hForecast, hLoad, _⟩
  have hTs :=
    originTs_of_forecastOf pairContext flatPredictor
      (fun _ _ _ => rfl) hForecast
  rw [hTs, rows_secondOvertaken, hHanded] at hLoad
  have hWindows :=
    congrArg (List.map StateVector.windowTs) hLoad
  revert hWindows
  decide +kernel

end Inference

end Nidra
