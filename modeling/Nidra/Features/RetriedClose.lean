import Nidra.Features.CloseScript

/-
  This file states when the close of a window can be tried
  again, and proves that it can in every run in which each
  attempt fails before it adds a new peer or remembers a
  window, or after it has discarded the window.

  Key definitions include:
    * `Retry`, `World.retry`, `World.retryAll`
    * `World.closed`, `RetrySafe`
    * `CloseAct.moves`, `SameReads`, `Harmless`
    * `Retrying`

  Main declarations:
    * `emitScript_after_still`
    * `Retrying.attempt`, `Retrying.wait`
    * `retrySafe_of_harmless`
-/

namespace Nidra

namespace Features

set_option linter.unusedSectionVars false

variable {𝕜 : Type}

------------------------------------------------------------
-- Retries
------------------------------------------------------------

/-
  What happens until a close has succeeded: time passes, or
  the close gets as far as `budget` of its effects before it
  fails, if it fails.
-/
inductive Retry where
  | wait (time : ℚ)
  | attempt (budget : ℕ)

/- The records that were put out between two states. -/
def putOut (before after : World 𝕜) : List (Record 𝕜) :=
  after.log.drop before.log.length

section Closes

variable [Field 𝕜] [LinearOrder 𝕜] [FloorRing 𝕜]
variable [ExpLog 𝕜]
variable (cfg : FeaturesConfig)
variable (tenantId : String)
variable (windowTs : ℤ)

def World.retry
    (w : World 𝕜) : Retry → World 𝕜
  | .wait time => w.wait time
  | .attempt budget =>
      ((closeWindow cfg tenantId windowTs).attempt budget w).2

def World.retryAll
    (w : World 𝕜)
    (retries : List Retry) : World 𝕜 :=
  retries.foldl (World.retry cfg tenantId windowTs) w

/- The state after a close that does not fail. -/
def World.closed (w : World 𝕜) : World 𝕜 :=
  (closeWindow cfg tenantId windowTs).exec w

/-
  Every vector put out is one that a close without a failure
  puts out, and every stored row is one that it stores; once
  the window is discarded, all of these rows are stored.
-/
structure RetrySafe (before after : World 𝕜) : Prop where
  published :
    ∀ record ∈ putOut before after,
      record ∈
        putOut before (before.closed cfg tenantId windowTs)
  stored :
    ∀ row ∈ after.stored,
      row ∈ (before.closed cfg tenantId windowTs).stored
  complete :
    after.hostsOf tenantId windowTs = [] →
      ∀ row ∈ (before.closed cfg tenantId windowTs).stored,
        row ∈ after.stored

------------------------------------------------------------
-- The branch that goes wrong
------------------------------------------------------------

/-
  An act that changes what a close reads, so that the next
  one computes another vector.
-/
def CloseAct.moves : CloseAct 𝕜 → Bool
  | .looked => false
  | .saved _ => false
  | .published _ => false
  | .addedPeers _ _ fresh => decide (0 < fresh)
  | .renewedPeers _ => false
  | .remembered _ _ => true
  | .renewedHistory _ => false
  | .discardedWindow _ => false
  | .discardedGraph => false
  | .cleared => false

/- A close reads the same in two states. -/
structure SameReads (w w' : World 𝕜) : Prop where
  hosts :
    w'.hostsOf tenantId windowTs = w.hostsOf tenantId windowTs
  edges :
    w'.edgesOf tenantId windowTs = w.edgesOf tenantId windowTs
  before :
    w'.edgesOf tenantId (windowTs - cfg.windowDelta) =
      w.edgesOf tenantId (windowTs - cfg.windowDelta)
  views :
    ∀ host ∈ w.hostsOf tenantId windowTs,
      w'.hostView tenantId host windowTs =
        w.hostView tenantId host windowTs

/-
  A close that is not over fails before it adds a new peer or
  remembers a window, or after it has discarded the window;
  and until it is over, nothing that it reads expires.
-/
def Harmless
    (w : World 𝕜) : Retry → Prop
  | .wait time =>
      w.hostsOf tenantId windowTs = [] ∨
        SameReads cfg tenantId windowTs w (w.wait time)
  | .attempt budget =>
      (∀ act ∈ (closeScript cfg tenantId windowTs w).take budget,
        act.moves = false) ∨
        (emitScript cfg tenantId windowTs w).length < budget

------------------------------------------------------------
-- Acts that leave what is read
------------------------------------------------------------

theorem peersTtlS_later
    (now : ℚ) :
    now < now + peersTtlS := by
  simp [peersTtlS]

/- An addition of known peers, or another act that is calm. -/
def CloseAct.Calm
    (w : World 𝕜) : CloseAct 𝕜 → Prop
  | .looked => True
  | .saved _ => True
  | .published _ => True
  | .addedPeers host peers _ =>
      peers ⊆ (w.hostView tenantId host windowTs).known
  | .renewedPeers _ => True
  | .remembered _ _ => False
  | .renewedHistory _ => True
  | .discardedWindow _ => False
  | .discardedGraph => False
  | .cleared => False

/- A calm act leaves what is read for every host. -/
theorem hostView_calm
    {w : World 𝕜}
    {act : CloseAct 𝕜}
    (hCalm : act.Calm tenantId windowTs w)
    (other : String) :
    (act.apply cfg tenantId windowTs w).hostView tenantId
        other windowTs =
      w.hostView tenantId other windowTs := by
  cases act with
  | looked => rfl
  | saved _ => rfl
  | published _ => rfl
  | addedPeers host peers _ =>
      by_cases hOther : other = host
      · subst hOther
        have hUnion :
            (w.peers.get w.now (tenantId, other)).getD ∅ ∪
                peers =
              (w.peers.get w.now (tenantId, other)).getD ∅ :=
          Finset.union_eq_left.mpr hCalm
        simp [CloseAct.apply, World.hostView, World.hashOf,
          hUnion]
      · exact
          hostView_apply cfg tenantId windowTs w hOther
  | renewedPeers host =>
      simp [CloseAct.apply, World.hostView, World.hashOf,
        TtlStore.get_expire_now _ (peersTtlS_later w.now)]
  | renewedHistory host =>
      simp [CloseAct.apply, World.hostView, World.hashOf,
        TtlStore.get_expire_now _ (peersTtlS_later w.now)]
  | remembered _ _ => cases hCalm
  | discardedWindow _ => cases hCalm
  | discardedGraph => cases hCalm
  | cleared => cases hCalm

/- An act of the script that moves nothing is calm. -/
theorem calm_of_still
    {w : World 𝕜}
    {act : CloseAct 𝕜}
    (hAct : act ∈ emitScript cfg tenantId windowTs w)
    (hStill : act.moves = false) :
    act.Calm tenantId windowTs w := by
  have hEmits := emits_emitScript cfg tenantId windowTs w hAct
  cases act with
  | looked => trivial
  | saved _ => trivial
  | published _ => trivial
  | renewedPeers _ => trivial
  | renewedHistory _ => trivial
  | remembered _ _ => cases hStill
  | discardedWindow _ => cases hEmits
  | discardedGraph => cases hEmits
  | cleared => cases hEmits
  | addedPeers host peers fresh =>
      have hNone : fresh = 0 := by
        simpa [CloseAct.moves] using hStill
      rcases addedPeers_emitScript cfg tenantId windowTs w hAct
        with ⟨rfl, rfl⟩
      exact
        Finset.sdiff_eq_empty_iff_subset.mp
          (Finset.card_eq_zero.mp hNone)

/- Whether an act is calm depends on what is read. -/
theorem calm_congr
    {w w' : World 𝕜}
    (hViews :
      ∀ host,
        w'.hostView tenantId host windowTs =
          w.hostView tenantId host windowTs)
    {act : CloseAct 𝕜}
    (hCalm : act.Calm tenantId windowTs w) :
    act.Calm tenantId windowTs w' := by
  cases act with
  | addedPeers host peers _ =>
      simp only [CloseAct.Calm, hViews host] at hCalm ⊢
      exact hCalm
  | looked => trivial
  | saved _ => trivial
  | published _ => trivial
  | renewedPeers _ => trivial
  | renewedHistory _ => trivial
  | remembered _ _ => cases hCalm
  | discardedWindow _ => cases hCalm
  | discardedGraph => cases hCalm
  | cleared => cases hCalm

/- Calm acts leave what is read for every host. -/
theorem hostView_after_calm
    {w : World 𝕜}
    {acts : List (CloseAct 𝕜)}
    (hCalm : ∀ act ∈ acts, act.Calm tenantId windowTs w)
    (other : String) :
    (w.after cfg tenantId windowTs acts).hostView tenantId
        other windowTs =
      w.hostView tenantId other windowTs := by
  induction acts generalizing w with
  | nil => rfl
  | cons act acts ih =>
      rcases List.forall_mem_cons.mp hCalm with
        ⟨hFirst, hRest⟩
      have hViews :=
        hostView_calm cfg tenantId windowTs hFirst
      have hStill :
          ∀ later ∈ acts,
            later.Calm tenantId windowTs
              (act.apply cfg tenantId windowTs w) :=
        fun later hLater =>
          calm_congr tenantId windowTs hViews
            (hRest later hLater)
      exact (ih hStill).trans (hViews other)

/- What a close reads decides its script. -/
theorem emitScript_congr
    {w w' : World 𝕜}
    (hReads : SameReads cfg tenantId windowTs w w') :
    emitScript cfg tenantId windowTs w' =
      emitScript cfg tenantId windowTs w := by
  unfold emitScript hostsScript
  rw [hReads.hosts, hReads.edges, hReads.before]
  congr 1
  apply List.flatMap_congr
  intro host hHost
  rw [hReads.views host hHost]

/- Acts of the script that move nothing leave the script. -/
theorem emitScript_after_still
    {w : World 𝕜}
    {acts : List (CloseAct 𝕜)}
    (hActs :
      ∀ act ∈ acts, act ∈ emitScript cfg tenantId windowTs w)
    (hStill : ∀ act ∈ acts, act.moves = false) :
    emitScript cfg tenantId windowTs
        (w.after cfg tenantId windowTs acts) =
      emitScript cfg tenantId windowTs w := by
  have hSame :=
    sameWindows_after cfg tenantId windowTs w
      (fun act hAct =>
        emits_emitScript cfg tenantId windowTs w
          (hActs act hAct))
  have hCalm :
      ∀ act ∈ acts, act.Calm tenantId windowTs w := by
    intro act hAct
    exact
      calm_of_still cfg tenantId windowTs (hActs act hAct)
        (hStill act hAct)
  apply emitScript_congr
  exact
    { hosts := by
        simp only [World.hostsOf, hSame.hosts, hSame.now]
      edges := by
        simp only [World.edgesOf, hSame.graphs, hSame.now]
      before := by
        simp only [World.edgesOf, hSame.graphs, hSame.now]
      views := fun host _ =>
        hostView_after_calm cfg tenantId windowTs hCalm host }

------------------------------------------------------------
-- Windows that are discarded
------------------------------------------------------------

/- Once no host is listed, no act lists one again. -/
theorem hostsOf_after_of_nil
    {w : World 𝕜}
    (hNone : w.hostsOf tenantId windowTs = [])
    (acts : List (CloseAct 𝕜)) :
    (w.after cfg tenantId windowTs acts).hostsOf tenantId
      windowTs = [] := by
  induction acts generalizing w with
  | nil => exact hNone
  | cons act acts ih =>
      apply ih
      cases act with
      | discardedWindow hosts =>
          simp [CloseAct.apply, World.hostsOf]
      | _ => exact hNone

/- Discarding a window leaves no host. -/
theorem hostsOf_after_discarded
    (w : World 𝕜)
    {acts : List (CloseAct 𝕜)}
    {hosts : List String}
    (hAct : .discardedWindow hosts ∈ acts) :
    (w.after cfg tenantId windowTs acts).hostsOf tenantId
      windowTs = [] := by
  rcases List.append_of_mem hAct with ⟨before, after, rfl⟩
  unfold World.after
  rw [List.foldl_append, List.foldl_cons]
  apply hostsOf_after_of_nil
  simp [CloseAct.apply, World.hostsOf]

------------------------------------------------------------
-- The vectors of a close
------------------------------------------------------------

/- The one vector that a close has for a host and a time. -/
def closeVector
    (w : World 𝕜)
    (host : String)
    (ts : ℤ) : StateVector 𝕜 :=
  if ts = windowTs then
    hostVector cfg tenantId windowTs
      (WindowGraph.fromEdges (w.edgesOf tenantId windowTs))
      (WindowGraph.fromEdges
        (w.edgesOf tenantId (windowTs - cfg.windowDelta)))
      host (w.hostView tenantId host windowTs)
  else zeroVector tenantId host ts

/- An act that saves or publishes a vector. -/
def CloseAct.PutsOut
    (vector : StateVector 𝕜)
    (act : CloseAct 𝕜) : Prop :=
  act = .saved vector ∨ act = .published vector

theorem putsOut_publishScript
    {vector other : StateVector 𝕜}
    {act : CloseAct 𝕜}
    (hAct : act ∈ publishScript cfg other)
    (hOut : act.PutsOut vector) :
    vector = other := by
  rcases mem_publishScript cfg hAct with ⟨rfl, _⟩ | rfl
  · rcases hOut with hEq | hEq
    · cases hEq
      rfl
    · cases hEq
  · rcases hOut with hEq | hEq
    · cases hEq
    · cases hEq
      rfl

/- A host puts out its zero rows and its vector. -/
theorem putsOut_hostScript
    {graph previous : WindowGraph}
    {host : String}
    {view : HostView 𝕜}
    {act : CloseAct 𝕜}
    (hAct :
      act ∈
        hostScript cfg tenantId windowTs graph previous host
          view)
    {vector : StateVector 𝕜}
    (hOut : act.PutsOut vector) :
    (∃ ts, ts < windowTs ∧
        vector = zeroVector tenantId host ts) ∨
      vector =
        hostVector cfg tenantId windowTs graph previous host
          view := by
  have hOther :
      ∀ other : CloseAct 𝕜, act = other →
        (∀ v, other ≠ .saved v ∧ other ≠ .published v) →
          False := by
    rintro other rfl hNot
    rcases hOut with hEq | hEq
    · exact (hNot vector).1 hEq
    · exact (hNot vector).2 hEq
  unfold hostScript windowScript at hAct
  simp only [List.mem_append, List.mem_cons,
    List.not_mem_nil, or_false] at hAct
  rcases hAct with (hEq | hAct) |
    (((hEq | hAct) | hAct) | hEq | hEq)
  · exact (hOther _ hEq (by simp)).elim
  · left
    rcases List.mem_flatMap.mp hAct with ⟨ts, hTs, hAct⟩
    refine ⟨ts, ?_, putsOut_publishScript cfg hAct hOut⟩
    unfold silentBefore at hTs
    split at hTs
    · cases hTs
    · exact (filledWindows_bounds cfg hTs).2
  · exact (hOther _ hEq (by simp)).elim
  · exfalso
    unfold peersScript at hAct
    split at hAct
    · exact hOther _ (List.mem_singleton.mp hAct) (by simp)
    · simp only [List.mem_cons, List.not_mem_nil, or_false]
        at hAct
      rcases hAct with hEq | hEq | hEq
      · exact hOther _ hEq (by simp)
      · exact hOther _ hEq (by simp)
      · exact hOther _ hEq (by simp)
  · right
    exact putsOut_publishScript cfg hAct hOut
  · exact (hOther _ hEq (by simp)).elim
  · exact (hOther _ hEq (by simp)).elim

/- What a close puts out is its one vector for the key. -/
theorem vector_of_emitted
    {w : World 𝕜}
    {act : CloseAct 𝕜}
    (hAct : act ∈ emitScript cfg tenantId windowTs w)
    {vector : StateVector 𝕜}
    (hOut : act.PutsOut vector) :
    vector =
      closeVector cfg tenantId windowTs w vector.hostId
        vector.windowTs := by
  unfold emitScript hostsScript at hAct
  rcases List.mem_append.mp hAct with hLooked | hAct
  · exfalso
    rcases hOut with rfl | rfl
    · simp at hLooked
    · simp at hLooked
  rcases List.mem_flatMap.mp hAct with ⟨host, _, hAct⟩
  rcases putsOut_hostScript cfg tenantId windowTs hAct hOut
    with ⟨ts, hLt, rfl⟩ | rfl
  · exact (if_neg (ne_of_lt hLt)).symm
  · exact (if_pos rfl).symm

/- Two saved vectors with one key are one. -/
theorem eq_of_key
    {w : World 𝕜}
    {first second : StateVector 𝕜}
    (hFirst :
      .saved first ∈ emitScript cfg tenantId windowTs w)
    (hSecond :
      .saved second ∈ emitScript cfg tenantId windowTs w)
    (hHost : first.hostId = second.hostId)
    (hTs : first.windowTs = second.windowTs) :
    first = second := by
  rw [vector_of_emitted cfg tenantId windowTs hFirst
      (Or.inl rfl),
    vector_of_emitted cfg tenantId windowTs hSecond
      (Or.inl rfl), hHost, hTs]

------------------------------------------------------------
-- The table
------------------------------------------------------------

/- Rows of one host and window. -/
def SameKey (first second : StateVector 𝕜) : Prop :=
  first.tenantId = second.tenantId ∧
    first.hostId = second.hostId ∧
    first.windowTs = second.windowTs

theorem mem_saveRow
    {rows : List (StateVector 𝕜)}
    {vector row : StateVector 𝕜}
    (hRow : row ∈ saveRow rows vector) :
    row ∈ rows ∨
      row = vector ∧ ∀ old ∈ rows, ¬ SameKey old vector := by
  unfold saveRow at hRow
  split at hRow
  · exact Or.inl hRow
  · next hNew =>
      rcases List.mem_append.mp hRow with hOld | hLast
      · exact Or.inl hOld
      · refine Or.inr ⟨List.mem_singleton.mp hLast, ?_⟩
        intro old hOld hKey
        apply hNew
        rw [List.any_eq_true]
        exact ⟨old, hOld, decide_eq_true hKey⟩

theorem mem_saveRow_of_mem
    {rows : List (StateVector 𝕜)}
    {row : StateVector 𝕜}
    (hRow : row ∈ rows)
    (vector : StateVector 𝕜) :
    row ∈ saveRow rows vector := by
  unfold saveRow
  split
  · exact hRow
  · exact List.mem_append_left _ hRow

/- A saved vector has a row with its key. -/
theorem exists_sameKey_saveRow
    (rows : List (StateVector 𝕜))
    (vector : StateVector 𝕜) :
    ∃ row ∈ saveRow rows vector, SameKey row vector := by
  unfold saveRow
  split
  · next hOld =>
      rcases List.any_eq_true.mp hOld with ⟨row, hRow, hKey⟩
      exact ⟨row, hRow, by simpa [SameKey] using hKey⟩
  · exact ⟨vector, by simp, rfl, rfl, rfl⟩

theorem mem_foldl_saveRow_of_mem
    {table : List (StateVector 𝕜)}
    {row : StateVector 𝕜}
    (hRow : row ∈ table)
    (rows : List (StateVector 𝕜)) :
    row ∈ rows.foldl saveRow table := by
  induction rows generalizing table with
  | nil => exact hRow
  | cons vector rows ih =>
      exact ih (mem_saveRow_of_mem hRow vector)

theorem mem_foldl_saveRow
    {table rows : List (StateVector 𝕜)}
    {row : StateVector 𝕜}
    (hRow : row ∈ rows.foldl saveRow table) :
    row ∈ table ∨
      row ∈ rows ∧ ∀ old ∈ table, ¬ SameKey old row := by
  induction rows generalizing table with
  | nil => exact Or.inl hRow
  | cons vector rows ih =>
      rcases ih hRow with hSaved | ⟨hLater, hNew⟩
      · rcases mem_saveRow hSaved with hOld | ⟨rfl, hNew⟩
        · exact Or.inl hOld
        · exact Or.inr ⟨List.mem_cons_self, hNew⟩
      · right
        refine ⟨List.mem_cons_of_mem _ hLater, ?_⟩
        intro old hOld
        exact hNew old (mem_saveRow_of_mem hOld vector)

theorem exists_sameKey_foldl
    (table : List (StateVector 𝕜))
    {rows : List (StateVector 𝕜)}
    {row : StateVector 𝕜}
    (hRow : row ∈ rows) :
    ∃ stored ∈ rows.foldl saveRow table,
      SameKey stored row := by
  induction rows generalizing table with
  | nil => cases hRow
  | cons vector rows ih =>
      rcases List.mem_cons.mp hRow with rfl | hLater
      · rcases exists_sameKey_saveRow table row with
          ⟨stored, hStored, hKey⟩
        exact
          ⟨stored, mem_foldl_saveRow_of_mem hStored rows,
            hKey⟩
      · exact ih _ hLater

/-
  Saving more vectors stores no row less, when each key has
  one vector.
-/
theorem foldl_saveRow_mono
    {table rows more : List (StateVector 𝕜)}
    (hMore : ∀ row ∈ rows, row ∈ more)
    (hKeys :
      ∀ first ∈ more, ∀ second ∈ more,
        SameKey first second → first = second)
    {row : StateVector 𝕜}
    (hRow : row ∈ rows.foldl saveRow table) :
    row ∈ more.foldl saveRow table := by
  rcases mem_foldl_saveRow hRow with hOld | ⟨hSaved, hNew⟩
  · exact mem_foldl_saveRow_of_mem hOld more
  · have hMem := hMore row hSaved
    rcases exists_sameKey_foldl table hMem with
      ⟨stored, hStored, hKey⟩
    rcases mem_foldl_saveRow hStored with
      hBefore | ⟨hOther, _⟩
    · exact absurd hKey (hNew stored hBefore)
    · rw [← hKeys stored hOther row hMem hKey]
      exact hStored

------------------------------------------------------------
-- The invariant
------------------------------------------------------------

/-
  What was published and saved since is of the script of the
  close; and a close that is tried now does the same script,
  or the window is discarded and all of it was saved.
-/
structure Retrying
    (before after : World 𝕜)
    (vectors rows : List (StateVector 𝕜)) : Prop where
  log : after.log = before.log ++ vectors.map .published
  published :
    ∀ vector ∈ vectors,
      .published vector ∈ emitScript cfg tenantId windowTs before
  stored : after.stored = rows.foldl saveRow before.stored
  saved :
    ∀ row ∈ rows,
      .saved row ∈ emitScript cfg tenantId windowTs before
  again :
    emitScript cfg tenantId windowTs after =
        emitScript cfg tenantId windowTs before ∨
      after.hostsOf tenantId windowTs = [] ∧
        ∀ row,
          .saved row ∈ emitScript cfg tenantId windowTs before →
            row ∈ rows

theorem Retrying.start
    (w : World 𝕜) :
    Retrying cfg tenantId windowTs w w [] [] :=
  { log := by simp
    published := by simp
    stored := rfl
    saved := by simp
    again := Or.inl rfl }

/- Without hosts a close puts nothing out. -/
theorem emitScript_of_nil
    {w : World 𝕜}
    (hNone : w.hostsOf tenantId windowTs = []) :
    emitScript cfg tenantId windowTs w =
      [.looked, .looked, .looked] := by
  unfold emitScript hostsScript
  rw [hNone]
  rfl

/- Discarding puts nothing out. -/
theorem not_putsOut_discardScript
    (w : World 𝕜)
    {act : CloseAct 𝕜}
    (hAct : act ∈ discardScript tenantId windowTs w)
    (vector : StateVector 𝕜) :
    ¬ act.PutsOut vector := by
  intro hOut
  unfold discardScript at hAct
  rcases hOut with rfl | rfl
  · split at hAct
    · simp at hAct
    · split at hAct <;> simp at hAct
  · split at hAct
    · simp at hAct
    · split at hAct <;> simp at hAct

/- What a close puts out is in the first part of its script. -/
theorem putsOut_closeScript
    {w : World 𝕜}
    {act : CloseAct 𝕜}
    (hAct : act ∈ closeScript cfg tenantId windowTs w)
    {vector : StateVector 𝕜}
    (hOut : act.PutsOut vector) :
    act ∈ emitScript cfg tenantId windowTs w := by
  rcases List.mem_append.mp hAct with hEmit | hDiscard
  · exact hEmit
  · exact
      absurd hOut
        (not_putsOut_discardScript tenantId windowTs w hDiscard
          vector)

/- An attempt does the first acts of the script. -/
theorem attempt_closeWindow
    (w : World 𝕜)
    (budget : ℕ) :
    ((closeWindow cfg tenantId windowTs).attempt budget w).2 =
      w.after cfg tenantId windowTs
        ((closeScript cfg tenantId windowTs w).take budget) := by
  rw [Program.attempt_eq_applyAll, trace_closeWindow,
    ← List.map_take, applyAll_map]

theorem closed_eq
    (w : World 𝕜) :
    w.closed cfg tenantId windowTs =
      w.after cfg tenantId windowTs
        (closeScript cfg tenantId windowTs w) := by
  rw [World.closed, Program.exec_eq_applyAll,
    trace_closeWindow, applyAll_map]

/- An attempt that is long enough does all that it emits. -/
theorem emit_mem_take
    {w : World 𝕜}
    {budget : ℕ}
    (hLong :
      (emitScript cfg tenantId windowTs w).length ≤ budget)
    {act : CloseAct 𝕜}
    (hAct : act ∈ emitScript cfg tenantId windowTs w) :
    act ∈
      (closeScript cfg tenantId windowTs w).take budget := by
  unfold closeScript
  rw [List.take_append, List.take_of_length_le hLong]
  exact List.mem_append_left _ hAct

/- An attempt that is longer discards the window as well. -/
theorem discarded_mem_take
    {w : World 𝕜}
    {budget : ℕ}
    (hLong :
      (emitScript cfg tenantId windowTs w).length < budget) :
    .discardedWindow (w.hostsOf tenantId windowTs) ∈
      (closeScript cfg tenantId windowTs w).take budget := by
  rcases Nat.exists_eq_add_of_lt hLong with ⟨rest, rfl⟩
  unfold closeScript
  rw [List.take_append, Nat.add_assoc, Nat.add_sub_cancel_left]
  apply List.mem_append_right
  exact List.mem_cons_self

/- A window without hosts stays so. -/
theorem hostsOf_wait_of_nil
    {w : World 𝕜}
    (hNone : w.hostsOf tenantId windowTs = [])
    (time : ℚ) :
    (w.wait time).hostsOf tenantId windowTs = [] := by
  have hLater : w.now ≤ (w.wait time).now :=
    le_max_left _ _
  unfold World.hostsOf at hNone ⊢
  cases hGet :
      (w.wait time).hosts.get (w.wait time).now
        (tenantId, windowTs) with
  | none => simp
  | some hosts =>
      have hBefore :
          w.hosts.get w.now (tenantId, windowTs) =
            some hosts :=
        TtlStore.get_of_get_later hLater hGet
      rw [hBefore] at hNone
      exact hNone

/- One attempt keeps the invariant. -/
theorem Retrying.attempt
    {before after : World 𝕜}
    {vectors rows : List (StateVector 𝕜)}
    (hRetrying :
      Retrying cfg tenantId windowTs before after vectors rows)
    {budget : ℕ}
    (hHarmless :
      Harmless cfg tenantId windowTs after (.attempt budget)) :
    ∃ vectors' rows',
      Retrying cfg tenantId windowTs before
        (after.retry cfg tenantId windowTs (.attempt budget))
        vectors' rows' := by
  let acts :=
    (closeScript cfg tenantId windowTs after).take budget
  have hAfter :
      after.retry cfg tenantId windowTs (.attempt budget) =
        after.after cfg tenantId windowTs acts :=
    attempt_closeWindow cfg tenantId windowTs after budget
  have hOut :
      ∀ act ∈ acts, ∀ vector, act.PutsOut vector →
        act ∈ emitScript cfg tenantId windowTs before := by
    intro act hAct vector hOut
    have hMem :=
      putsOut_closeScript cfg tenantId windowTs
        (List.mem_of_mem_take hAct) hOut
    rcases hRetrying.again with hSame | ⟨hNone, _⟩
    · rw [← hSame]
      exact hMem
    · exfalso
      rw [emitScript_of_nil cfg tenantId windowTs hNone] at hMem
      rcases hOut with rfl | rfl
      · simp at hMem
      · simp at hMem
  rw [hAfter]
  refine
    ⟨vectors ++ publishedBy acts, rows ++ savedBy acts,
      { log := ?_
        published := ?_
        stored := ?_
        saved := ?_
        again := ?_ }⟩
  · rw [log_after, hRetrying.log, List.map_append,
      List.append_assoc]
  · intro vector hVector
    rcases List.mem_append.mp hVector with hOld | hNew
    · exact hRetrying.published vector hOld
    · exact
        hOut _ (mem_publishedBy.mp hNew) vector (Or.inr rfl)
  · rw [stored_after, hRetrying.stored, List.foldl_append]
  · intro row hRow
    rcases List.mem_append.mp hRow with hOld | hNew
    · exact hRetrying.saved row hOld
    · exact hOut _ (mem_savedBy.mp hNew) row (Or.inl rfl)
  · rcases hRetrying.again with hSame | ⟨hNone, hAll⟩
    · by_cases hLong :
          (emitScript cfg tenantId windowTs after).length <
            budget
      · right
        refine
          ⟨hostsOf_after_discarded cfg tenantId windowTs after
              (discarded_mem_take cfg tenantId windowTs hLong),
            ?_⟩
        intro row hRow
        rw [← hSame] at hRow
        apply List.mem_append_right
        rw [mem_savedBy]
        exact
          emit_mem_take cfg tenantId windowTs
            (le_of_lt hLong) hRow
      · left
        have hStill := hHarmless.resolve_right hLong
        have hActs :
            acts =
              (emitScript cfg tenantId windowTs after).take
                budget :=
          List.take_append_of_le_length (not_lt.mp hLong)
        rw [emitScript_after_still cfg tenantId windowTs,
          hSame]
        · intro act hAct
          rw [hActs] at hAct
          exact List.mem_of_mem_take hAct
        · exact hStill
    · right
      refine
        ⟨hostsOf_after_of_nil cfg tenantId windowTs hNone acts,
          ?_⟩
      intro row hRow
      exact List.mem_append_left _ (hAll row hRow)

/- Waiting keeps the invariant. -/
theorem Retrying.wait
    {before after : World 𝕜}
    {vectors rows : List (StateVector 𝕜)}
    (hRetrying :
      Retrying cfg tenantId windowTs before after vectors rows)
    {time : ℚ}
    (hHarmless :
      Harmless cfg tenantId windowTs after (.wait time)) :
    Retrying cfg tenantId windowTs before (after.wait time)
      vectors rows := by
  refine
    { log := hRetrying.log
      published := hRetrying.published
      stored := hRetrying.stored
      saved := hRetrying.saved
      again := ?_ }
  rcases hHarmless with hNone | hReads
  · have hLater :
        (after.wait time).hostsOf tenantId windowTs = [] :=
      hostsOf_wait_of_nil tenantId windowTs hNone time
    rcases hRetrying.again with hSame | ⟨_, hAll⟩
    · left
      rw [emitScript_of_nil cfg tenantId windowTs hLater,
        ← hSame, emitScript_of_nil cfg tenantId windowTs hNone]
    · exact Or.inr ⟨hLater, hAll⟩
  · rcases hRetrying.again with hSame | ⟨hNone, hAll⟩
    · left
      rw [emitScript_congr cfg tenantId windowTs hReads, hSame]
    · right
      exact
        ⟨hostsOf_wait_of_nil tenantId windowTs hNone time,
          hAll⟩

/- The invariant says that a close can be tried again. -/
theorem Retrying.retrySafe
    {before after : World 𝕜}
    {vectors rows : List (StateVector 𝕜)}
    (hRetrying :
      Retrying cfg tenantId windowTs before after vectors
        rows) :
    RetrySafe cfg tenantId windowTs before after := by
  let all := closeScript cfg tenantId windowTs before
  have hKeys :
      ∀ first, .saved first ∈
          emitScript cfg tenantId windowTs before →
        ∀ second, .saved second ∈
            emitScript cfg tenantId windowTs before →
          SameKey first second → first = second :=
    fun first hFirst second hSecond hKey =>
      eq_of_key cfg tenantId windowTs hFirst hSecond hKey.2.1
        hKey.2.2
  have hSaved :
      ∀ row, row ∈ savedBy all ↔
        .saved row ∈
          emitScript cfg tenantId windowTs before := by
    intro row
    rw [mem_savedBy]
    constructor
    · intro hAct
      exact
        putsOut_closeScript cfg tenantId windowTs hAct
          (Or.inl rfl)
    · exact List.mem_append_left _
  refine
    { published := ?_
      stored := ?_
      complete := ?_ }
  · intro record hRecord
    unfold putOut at hRecord ⊢
    rw [hRetrying.log, List.drop_left] at hRecord
    rw [closed_eq, log_after, List.drop_left]
    rcases List.mem_map.mp hRecord with ⟨vector, hVector, rfl⟩
    apply List.mem_map_of_mem
    rw [mem_publishedBy]
    exact
      List.mem_append_left _
        (hRetrying.published vector hVector)
  · intro row hRow
    rw [closed_eq, stored_after]
    rw [hRetrying.stored] at hRow
    apply foldl_saveRow_mono _ _ hRow
    · intro row hRow
      exact (hSaved row).mpr (hRetrying.saved row hRow)
    · intro first hFirst second hSecond
      exact
        hKeys first ((hSaved first).mp hFirst) second
          ((hSaved second).mp hSecond)
  · intro hNone row hRow
    rw [closed_eq, stored_after] at hRow
    rw [hRetrying.stored]
    apply foldl_saveRow_mono _ _ hRow
    · intro row hRow
      have hAct := (hSaved row).mp hRow
      rcases hRetrying.again with hSame | ⟨_, hAll⟩
      · rw [← hSame,
          emitScript_of_nil cfg tenantId windowTs hNone] at hAct
        simp at hAct
      · exact hAll row hAct
    · intro first hFirst second hSecond
      exact
        hKeys first (hRetrying.saved first hFirst) second
          (hRetrying.saved second hSecond)

/-
  In every run of attempts at a close that are harmless, from
  any state, every vector that is put out and every row that
  is stored is that of a close without a failure.
-/
theorem retrySafe_of_harmless
    (before : World 𝕜)
    (retries : List Retry)
    (hAll :
      AllAlong (World.retry cfg tenantId windowTs)
        (Harmless cfg tenantId windowTs) before retries) :
    RetrySafe cfg tenantId windowTs before
      (before.retryAll cfg tenantId windowTs retries) := by
  have hRetrying :
      ∃ vectors rows,
        Retrying cfg tenantId windowTs before
          (before.retryAll cfg tenantId windowTs retries)
          vectors rows := by
    apply AllAlong.invariant
      (fun after =>
        ∃ vectors rows,
          Retrying cfg tenantId windowTs before after vectors
            rows)
      _ ⟨[], [], Retrying.start cfg tenantId windowTs before⟩
      hAll
    intro after retry hRetrying hHarmless
    rcases hRetrying with ⟨vectors, rows, hRetrying⟩
    cases retry with
    | wait time =>
        exact
          ⟨vectors, rows,
            hRetrying.wait cfg tenantId windowTs hHarmless⟩
    | attempt budget =>
        exact
          hRetrying.attempt cfg tenantId windowTs hHarmless
  rcases hRetrying with ⟨vectors, rows, hRetrying⟩
  exact hRetrying.retrySafe cfg tenantId windowTs

end Closes

------------------------------------------------------------
-- Two runs
------------------------------------------------------------

section Examples

local instance : ExpLog ℚ := ExpLog.tangent

/- One packet to a new peer was folded into window 0. -/
def onePacket : World ℚ :=
  (World.start 0 []).accumulate (packetAt 0) 0 0

/-
  The first attempt fails once it has read the hosts; the
  second one, a minute later, gets to its end.
-/
def failedEarly : List Retry :=
  [.attempt 3, .wait 60, .attempt 20]

theorem retrySafe_failedEarly :
    RetrySafe minuteWindows "tenant" 0 onePacket
      (onePacket.retryAll minuteWindows "tenant" 0
        failedEarly) := by
  have hFirst :
      onePacket.retry minuteWindows "tenant" 0 (.attempt 3) =
        onePacket := by
    rw [World.retry, attempt_closeWindow]
    rfl
  have hHosts :
      onePacket.hostsOf "tenant" 0 = ["10.0.0.1"] := by
    decide +kernel
  have hView :
      (onePacket.wait 60).hostView "tenant" "10.0.0.1" 0 =
        onePacket.hostView "tenant" "10.0.0.1" 0 := by
    simp [World.hostView, World.hashOf, onePacket, World.wait,
      World.accumulate, World.start, packetAt,
      TtlStore.get_renew_self, windowTtlS]
    norm_num
  have hReads :
      SameReads minuteWindows "tenant" 0 onePacket
        (onePacket.wait 60) :=
    { hosts := by decide +kernel
      edges := by decide +kernel
      before := by decide +kernel
      views := by
        intro host hHost
        rw [hHosts, List.mem_singleton] at hHost
        subst hHost
        exact hView }
  apply retrySafe_of_harmless
  refine ⟨?_, ?_, ?_, trivial⟩
  · left
    decide +kernel
  · rw [hFirst]
    exact Or.inr hReads
  · right
    decide +kernel

/- The new peers that a record speaks of. -/
def newPeers : Record ℚ → Option ℚ
  | .published vector =>
      some (vector.features (.graph .newPeerCount))
  | .folded _ _ => none

/-
  The first attempt fails once it has added the new peer, and
  the second one gets to its end.
-/
def failedAfterPeers : List Retry :=
  [.attempt 7, .attempt 20]

/- The retry publishes that no peer is new. -/
theorem not_retrySafe_failedAfterPeers :
    ¬ RetrySafe minuteWindows "tenant" 0 onePacket
      (onePacket.retryAll minuteWindows "tenant" 0
        failedAfterPeers) := by
  intro hSafe
  have hRetried :
      (putOut onePacket
        (onePacket.retryAll minuteWindows "tenant" 0
          failedAfterPeers)).map newPeers = [some 0] := by
    decide +kernel
  have hClosed :
      (putOut onePacket
        (onePacket.closed minuteWindows "tenant" 0)).map
          newPeers = [some 1] := by
    decide +kernel
  have hZero :
      some 0 ∈
        (putOut onePacket
          (onePacket.retryAll minuteWindows "tenant" 0
            failedAfterPeers)).map newPeers := by
    rw [hRetried]
    exact List.mem_singleton.mpr rfl
  rcases List.mem_map.mp hZero with
    ⟨record, hRecord, hNone⟩
  have hOne :
      newPeers record ∈
        (putOut onePacket
          (onePacket.closed minuteWindows "tenant" 0)).map
            newPeers :=
    List.mem_map_of_mem (hSafe.published record hRecord)
  rw [hClosed, hNone] at hOne
  simp at hOne

end Examples

end Features

end Nidra
