import Nidra.Common.Holding
import Nidra.Common.Notes

/-
  This file states what becomes of the messages that were
  delivered: in every run they stay pending until they are
  acknowledged or trimmed, and the claims that go through all
  that is pending offer them again.

  Key definitions include:
    * `Ordered`
    * `Acked`, `Delivered`, `Offered`
    * `Kept`
    * `calls`, `Complete`

  Main declarations:
    * `pending_step`
    * `Kept.step`
    * `offered_of_complete`
-/

namespace Nidra

namespace Bus

set_option linter.unusedSectionVars false

variable {σ μ κ : Type}

------------------------------------------------------------
-- Pending messages
------------------------------------------------------------

/- Messages are pending in the order of their places. -/
structure Ordered (g : Group σ μ κ) : Prop where
  increasing : g.pendingIds.Pairwise (· < ·)
  delivered : ∀ id ∈ g.pendingIds, id < g.delivered

theorem Ordered.start
    (now : ℚ)
    (shared : σ) :
    Ordered (Group.start now shared : Group σ μ κ) :=
  { increasing := List.Pairwise.nil
    delivered := by
      intro id hMem
      simp [Group.start, Group.pendingIds] at hMem }

/- Messages that are pending no more leave the order. -/
theorem Ordered.shrink
    {g g' : Group σ μ κ}
    (hOrdered : Ordered g)
    (hSublist : g'.pendingIds.Sublist g.pendingIds)
    (hDelivered : g'.delivered = g.delivered) :
    Ordered g' :=
  { increasing := hOrdered.increasing.sublist hSublist
    delivered := by
      intro id hMem
      rw [hDelivered]
      exact hOrdered.delivered id (hSublist.subset hMem) }

theorem Ordered.read
    {g : Group σ μ κ}
    (hOrdered : Ordered g)
    (cfg : BusConfig)
    (name : String) :
    Ordered (g.read cfg name) := by
  by_cases hIdle : g.idle name
  · have hBelow :
        ∀ id ∈ g.pendingIds, id < g.nextId := by
      intro id hMem
      have hHigh := hOrdered.delivered id hMem
      unfold Group.nextId
      omega
    constructor
    · rw [pendingIds_read cfg hIdle, List.pairwise_append]
      refine ⟨hOrdered.increasing, ?_, ?_⟩
      · exact List.pairwise_lt_range' _
      · intro id hPending other hUnread
        have hHigh := hBelow id hPending
        have hLow := (le_of_mem_unread hUnread).1
        omega
    · intro id hMem
      rw [pendingIds_read cfg hIdle, List.mem_append] at hMem
      rw [delivered_read cfg hIdle]
      rcases hMem with hPending | hUnread
      · have hHigh := hBelow id hPending
        omega
      · exact (le_of_mem_unread hUnread).2
  · rw [Group.read, if_neg hIdle]
    exact hOrdered

section Pending

variable (cfg : BusConfig)
variable (service : Service σ μ κ)

theorem Ordered.step
    {g : Group σ μ κ}
    (hOrdered : Ordered g)
    (move : Move μ) :
    Ordered (g.step cfg service move) := by
  cases move with
  | read name => exact hOrdered.read cfg name
  | reclaim name cursor =>
      simp only [Group.step, Group.reclaim]
      split
      · apply hOrdered.shrink
        · change (List.map Pending.id _).Sublist _
          rw [pendingIds_reclaimed]
          exact List.filter_sublist.map _
        · rfl
      · exact hOrdered
  | work name =>
      simp only [Group.step, Group.work]
      split
      · exact hOrdered
      · exact
          hOrdered.shrink (List.filter_sublist.map _) rfl
      · next rest _ =>
          cases (service.effect rest g.shared).1 <;>
            exact hOrdered.shrink (List.Sublist.refl _) rfl
  | dispatch name =>
      simp only [Group.step, Group.dispatch]
      split
      · exact hOrdered.shrink (List.Sublist.refl _) rfl
      · exact hOrdered
  | fail name =>
      simp only [Group.step, Group.fail]
      split
      · exact hOrdered
      · exact hOrdered.shrink (List.Sublist.refl _) rfl
      · exact hOrdered.shrink (List.Sublist.refl _) rfl
  | leave name =>
      simp only [Group.step, Group.leave]
      split
      · exact hOrdered.shrink (List.Sublist.refl _) rfl
      · exact hOrdered
  | wait _ => exact hOrdered.shrink (List.Sublist.refl _) rfl
  | publish _ =>
      exact hOrdered.shrink (List.Sublist.refl _) rfl
  | trim _ => exact hOrdered.shrink (List.Sublist.refl _) rfl
  | crash _ =>
      exact hOrdered.shrink (List.Sublist.refl _) rfl

/- Some consumer has acknowledged the message. -/
def Acked
    (log : List (Note μ))
    (id : ℕ) : Prop :=
  ∃ name, .acked name id ∈ log

/- Some consumer was given the message when it was new. -/
def Delivered
    (log : List (Note μ))
    (id : ℕ) : Prop :=
  ∃ name batch, .read name batch ∈ log ∧ id ∈ batch

/- Some consumer was given the message by a claim. -/
def Offered
    (log : List (Note μ))
    (id : ℕ) : Prop :=
  ∃ name cursor batch next,
    .reclaimed name cursor batch next ∈ log ∧ id ∈ batch

theorem Acked.mono_left
    {log : List (Note μ)}
    {id : ℕ}
    (hAcked : Acked log id)
    (more : List (Note μ)) :
    Acked (log ++ more) id := by
  rcases hAcked with ⟨name, hMem⟩
  exact ⟨name, List.mem_append_left _ hMem⟩

theorem Acked.mono_right
    {log : List (Note μ)}
    {id : ℕ}
    (hAcked : Acked log id)
    (before : List (Note μ)) :
    Acked (before ++ log) id := by
  rcases hAcked with ⟨name, hMem⟩
  exact ⟨name, List.mem_append_right _ hMem⟩

theorem Offered.mono_left
    {log : List (Note μ)}
    {id : ℕ}
    (hOffered : Offered log id)
    (more : List (Note μ)) :
    Offered (log ++ more) id := by
  rcases hOffered with
    ⟨name, cursor, batch, next, hNote, hMem⟩
  exact
    ⟨name, cursor, batch, next,
      List.mem_append_left _ hNote, hMem⟩

theorem Offered.mono_right
    {log : List (Note μ)}
    {id : ℕ}
    (hOffered : Offered log id)
    (before : List (Note μ)) :
    Offered (before ++ log) id := by
  rcases hOffered with
    ⟨name, cursor, batch, next, hNote, hMem⟩
  exact
    ⟨name, cursor, batch, next,
      List.mem_append_right _ hNote, hMem⟩

/-
  A pending message stays as it is unless it is claimed, when
  it was trimmed or is offered again, or acknowledged.
-/
theorem pending_step
    {g : Group σ μ κ}
    {p : Pending}
    (hMem : p ∈ g.pending)
    (move : Move μ) :
    p ∈ (g.step cfg service move).pending ∨
      p.id < (g.step cfg service move).trimmed ∨
        Acked (g.note cfg service move).toList p.id ∨
          Offered (g.note cfg service move).toList p.id ∧
            p.id ∈ (g.step cfg service move).pendingIds := by
  cases move with
  | read name =>
      left
      simp only [Group.step, Group.read]
      split
      · exact List.mem_append_left _ hMem
      · exact hMem
  | reclaim name cursor =>
      by_cases hIdle : g.idle name
      · simp only [Group.step, Group.reclaim, Group.note,
          if_pos hIdle]
        by_cases hClaimed : p.id ∈ g.claimable cfg cursor
        · rcases Nat.lt_or_ge p.id g.trimmed with
            hTrimmed | hKept
          · exact Or.inr (Or.inl hTrimmed)
          · right; right; right
            constructor
            · refine
                ⟨name, cursor, _, _,
                  List.mem_singleton.mpr rfl, ?_⟩
              simpa using ⟨hClaimed, hKept⟩
            · change p.id ∈ List.map Pending.id _
              rw [pendingIds_reclaimed]
              apply List.mem_map_of_mem
              rw [List.mem_filter]
              exact ⟨hMem, by simp [hKept]⟩
        · left
          apply List.mem_map.mpr
          refine ⟨p, ?_, by simp [Group.renewed, hClaimed]⟩
          rw [List.mem_filter]
          exact ⟨hMem, by simp [hClaimed]⟩
      · left
        simp only [Group.step, Group.reclaim, if_neg hIdle]
        exact hMem
  | work name =>
      simp only [Group.step, Group.work]
      split
      · exact Or.inl hMem
      · next id hTask =>
          by_cases hId : p.id = id
          · right; right; left
            exact ⟨name, by simp [Group.note, hTask, hId]⟩
          · left
            exact List.mem_filter.mpr ⟨hMem, by simp [hId]⟩
      · next rest _ =>
          left
          cases (service.effect rest g.shared).1 <;> exact hMem
  | dispatch name =>
      left
      simp only [Group.step, Group.dispatch]
      split <;> exact hMem
  | fail name =>
      left
      simp only [Group.step, Group.fail]
      split <;> exact hMem
  | leave name =>
      left
      simp only [Group.step, Group.leave]
      split <;> exact hMem
  | wait _ => exact Or.inl hMem
  | publish _ => exact Or.inl hMem
  | trim _ => exact Or.inl hMem
  | crash _ => exact Or.inl hMem

/-
  A message that was delivered is acknowledged or trimmed, or
  it is pending.
-/
def Kept
    (log : List (Note μ))
    (g : Group σ μ κ) : Prop :=
  ∀ id,
    Delivered log id →
      Acked log id ∨ id < g.trimmed ∨ id ∈ g.pendingIds

theorem Kept.start
    (now : ℚ)
    (shared : σ) :
    Kept [] (Group.start now shared : Group σ μ κ) := by
  intro id hDelivered
  rcases hDelivered with ⟨_, _, hMem, _⟩
  simp at hMem

/- What is given to a consumer is pending from then on. -/
theorem pending_of_delivered
    {g : Group σ μ κ}
    {move : Move μ}
    {id : ℕ}
    (hDelivered :
      Delivered (g.note cfg service move).toList id) :
    id ∈ (g.step cfg service move).pendingIds := by
  rcases hDelivered with ⟨name, batch, hNote, hMem⟩
  rw [Option.mem_toList] at hNote
  cases seen_of_note cfg service hNote with
  | read _ hIdle =>
      rw [Group.step, pendingIds_read cfg hIdle]
      exact List.mem_append_right _ hMem

theorem Kept.step
    {log : List (Note μ)}
    {g : Group σ μ κ}
    (hKept : Kept log g)
    (move : Move μ) :
    Kept (log ++ (g.note cfg service move).toList)
      (g.step cfg service move) := by
  intro id hDelivered
  rcases hDelivered with ⟨name, batch, hNote, hMem⟩
  rcases List.mem_append.mp hNote with hOld | hNew
  · rcases hKept id ⟨name, batch, hOld, hMem⟩ with
      hAcked | hTrimmed | hPending
    · exact Or.inl (hAcked.mono_left _)
    · have hLater :=
        (g.later_step cfg service move).trimmed
      exact Or.inr (Or.inl (by omega))
    · rcases List.mem_map.mp hPending with ⟨p, hEntry, rfl⟩
      rcases pending_step cfg service hEntry move with
        hStays | hTrimmed | hAcked | ⟨_, hStays⟩
      · exact
          Or.inr (Or.inr (List.mem_map_of_mem hStays))
      · exact Or.inr (Or.inl hTrimmed)
      · exact Or.inl (hAcked.mono_right _)
      · exact Or.inr (Or.inr hStays)
  · exact
      Or.inr
        (Or.inr
          (pending_of_delivered cfg service
            ⟨name, batch, hNew, hMem⟩))

------------------------------------------------------------
-- Going through what is pending
------------------------------------------------------------

/-
  A scan claims what it can claim, or what is left begins
  before it.
-/
theorem scan_claims
    (claims : Pending → Bool)
    {entries : List Pending}
    (hSorted :
      entries.Pairwise (fun first second =>
        first.id < second.id))
    {p : Pending}
    (hMem : p ∈ entries)
    (hClaims : claims p = true)
    (looks count : ℕ) :
    p.id ∈ (Group.scan claims entries looks count).1 ∨
      ∃ q,
        (Group.scan claims entries looks count).2.head? =
            some q ∧
          q.id ≤ p.id := by
  induction entries generalizing looks count with
  | nil => cases hMem
  | cons first rest ih =>
      rcases List.pairwise_cons.mp hSorted with
        ⟨hFirst, hRest⟩
      have hLe : first.id ≤ p.id := by
        rcases List.mem_cons.mp hMem with rfl | hLater
        · exact Nat.le_refl _
        · exact Nat.le_of_lt (hFirst p hLater)
      cases looks with
      | zero => exact Or.inr ⟨first, rfl, hLe⟩
      | succ looks =>
          cases count with
          | zero => exact Or.inr ⟨first, rfl, hLe⟩
          | succ count =>
              rw [Group.scan]
              rcases List.mem_cons.mp hMem with rfl | hLater
              · left
                rw [if_pos hClaims]
                exact List.mem_cons_self
              · split
                · rcases ih hRest hLater looks count with
                    hClaimed | hLeft
                  · left
                    exact List.mem_cons_of_mem _ hClaimed
                  · exact Or.inr hLeft
                · exact ih hRest hLater looks (count + 1)

theorem Ordered.entries
    {g : Group σ μ κ}
    (hOrdered : Ordered g)
    (cursor : ℕ) :
    (g.pending.filter (fun p => cursor ≤ p.id)).Pairwise
      (fun first second => first.id < second.id) := by
  apply List.Pairwise.filter
  exact List.pairwise_map.mp hOrdered.increasing

/-
  A claim from no later than a message that has been pending
  for long enough takes it, or goes on from no later.
-/
theorem claimable_or_nextCursor
    {g : Group σ μ κ}
    (hOrdered : Ordered g)
    {p : Pending}
    (hMem : p ∈ g.pending)
    {cursor : ℕ}
    (hCursor : cursor ≤ p.id)
    (hIdle : cfg.minIdleMs ≤ g.now - p.deliveredAt) :
    p.id ∈ g.claimable cfg cursor ∨
      ∃ next,
        g.nextCursor cfg cursor = some next ∧
          next ≤ p.id := by
  have hEntry :
      p ∈ g.pending.filter (fun p => cursor ≤ p.id) :=
    List.mem_filter.mpr ⟨hMem, by simpa using hCursor⟩
  rcases scan_claims
      (fun p => cfg.minIdleMs ≤ g.now - p.deliveredAt)
      (hOrdered.entries cursor) hEntry (decide_eq_true hIdle)
      (10 * cfg.count) cfg.count with
    hClaimed | ⟨q, hHead, hLe⟩
  · exact Or.inl hClaimed
  · right
    refine ⟨q.id, ?_, hLe⟩
    rw [Group.nextCursor, Group.scanned, hHead]
    rfl

/- The cursor of a claim of this consumer, and where it ended. -/
def Note.call
    (name : String) : Note μ → Option (ℕ × Option ℕ)
  | .reclaimed other cursor _ next =>
      if other = name then some (cursor, next) else none
  | _ => none

/- The claims that a consumer makes, in their order. -/
def calls
    (name : String)
    (log : List (Note μ)) : List (ℕ × Option ℕ) :=
  log.filterMap (Note.call name)

/- Another move is not seen as a claim of the consumer. -/
theorem calls_log_of_ne
    (g : Group σ μ κ)
    {move : Move μ}
    {name : String}
    (hMove : ∀ cursor, move ≠ .reclaim name cursor) :
    calls name (g.log cfg service [move]) = [] := by
  simp only [Group.log, record_cons, record_nil,
    List.append_nil]
  cases hNote : g.note cfg service move with
  | none => rfl
  | some note =>
      cases seen_of_note cfg service hNote with
      | reclaimed other cursor _ =>
          have hNe : other ≠ name := by
            rintro rfl
            exact hMove cursor rfl
          simp [calls, Note.call, hNe]
      | read _ _ => rfl
      | called _ _ _ _ => rfl
      | returned _ _ _ _ => rfl
      | acked _ _ _ => rfl

theorem calls_log_reclaim
    (g : Group σ μ κ)
    {name : String}
    (hIdle : g.idle name = true)
    (cursor : ℕ) :
    calls name (g.log cfg service [.reclaim name cursor]) =
      [(cursor, g.nextCursor cfg cursor)] := by
  simp [Group.log, record_cons, Group.note, hIdle, calls,
    Note.call]

/-
  These claims are those of one reclaim from a cursor on: each
  goes on where the one before has ended, until nothing is
  left.
-/
def Complete : ℕ → List (ℕ × Option ℕ) → Prop
  | _, [] => False
  | cursor, (first, none) :: rest =>
      first = cursor ∧ rest = []
  | cursor, (first, some next) :: rest =>
      first = cursor ∧ Complete next rest

theorem Complete.first_eq
    {cursor first : ℕ}
    {next : Option ℕ}
    {rest : List (ℕ × Option ℕ)}
    (hComplete : Complete cursor ((first, next) :: rest)) :
    first = cursor := by
  cases next with
  | none => exact hComplete.1
  | some next => exact hComplete.1

/-
  A claim of a reclaim offers a message that is still to come,
  or it was trimmed, or it is still to come after it.
-/
theorem complete_step
    {g : Group σ μ κ}
    (hOrdered : Ordered g)
    {p : Pending}
    (hMem : p ∈ g.pending)
    {cursor : ℕ}
    (hCursor : cursor ≤ p.id)
    (hIdle : cfg.minIdleMs ≤ g.now - p.deliveredAt)
    {move : Move μ}
    {name : String}
    {rest : List (Note μ)}
    (hComplete :
      Complete cursor
        (calls name
          ((g.note cfg service move).toList ++ rest))) :
    Offered (g.note cfg service move).toList p.id ∨
      p.id < g.trimmed ∨
        ∃ next ≤ p.id, Complete next (calls name rest) := by
  cases hNote : g.note cfg service move with
  | none =>
      rw [hNote] at hComplete
      exact Or.inr (Or.inr ⟨cursor, hCursor, hComplete⟩)
  | some note =>
      rw [hNote, Option.toList_some, List.singleton_append,
        calls, List.filterMap_cons] at hComplete
      cases hCall : note.call name with
      | none =>
          rw [hCall] at hComplete
          exact Or.inr (Or.inr ⟨cursor, hCursor, hComplete⟩)
      | some call =>
          rw [hCall] at hComplete
          cases seen_of_note cfg service hNote with
          | reclaimed other first hFree =>
              simp only [Note.call] at hCall
              split at hCall
              · cases hCall
                have hFirst := hComplete.first_eq
                subst hFirst
                rcases Nat.lt_or_ge p.id g.trimmed with
                  hTrimmed | hKept
                · exact Or.inr (Or.inl hTrimmed)
                rcases claimable_or_nextCursor cfg hOrdered
                    hMem hCursor hIdle with
                  hClaimed | ⟨next, hNext, hLe⟩
                · left
                  refine
                    ⟨other, first, _, _,
                      List.mem_singleton.mpr rfl, ?_⟩
                  simpa using ⟨hClaimed, hKept⟩
                · rw [hNext] at hComplete
                  exact
                    Or.inr (Or.inr ⟨next, hLe, hComplete.2⟩)
              · cases hCall
          | read _ _ => cases hCall
          | called _ _ _ _ => cases hCall
          | returned _ _ _ _ => cases hCall
          | acked _ _ _ => cases hCall

/-
  Whatever happens between its claims, a reclaim offers each
  message that was pending for long enough when it began,
  unless the message is offered by another one, acknowledged
  or trimmed.
-/
theorem offered_of_complete
    {g : Group σ μ κ}
    (hOrdered : Ordered g)
    {p : Pending}
    (hMem : p ∈ g.pending)
    {cursor : ℕ}
    (hCursor : cursor ≤ p.id)
    (hIdle : cfg.minIdleMs ≤ g.now - p.deliveredAt)
    {name : String}
    {moves : List (Move μ)}
    (hComplete :
      Complete cursor
        (calls name (g.log cfg service moves))) :
    Offered (g.log cfg service moves) p.id ∨
      Acked (g.log cfg service moves) p.id ∨
        p.id < (g.runMoves cfg service moves).trimmed := by
  induction moves generalizing g cursor with
  | nil => cases hComplete
  | cons move moves ih =>
      have hLog :
          g.log cfg service (move :: moves) =
            (g.note cfg service move).toList ++
              (g.step cfg service move).log cfg service
                moves := rfl
      have hLater := g.later_step cfg service move
      have hRest :=
        (g.step cfg service move).later_runMoves cfg service
          moves
      have hFinal :
          p.id < (g.step cfg service move).trimmed →
            p.id <
              (g.runMoves cfg service
                (move :: moves)).trimmed :=
        fun hTrimmed => lt_of_lt_of_le hTrimmed hRest.trimmed
      rw [hLog] at hComplete ⊢
      rcases complete_step cfg service hOrdered hMem hCursor
          hIdle hComplete with
        hOffered | hTrimmed | ⟨next, hNext, hGoing⟩
      · exact Or.inl (hOffered.mono_left _)
      · exact
          Or.inr
            (Or.inr
              (hFinal (lt_of_lt_of_le hTrimmed hLater.trimmed)))
      rcases pending_step cfg service hMem move with
        hStays | hTrimmed | hAcked | ⟨hOffered, _⟩
      · have hStill :
            cfg.minIdleMs ≤
              (g.step cfg service move).now -
                p.deliveredAt := by
          have hNow := hLater.now
          linarith
        rcases ih (hOrdered.step cfg service move) hStays
            hNext hStill hGoing with
          hOffered | hAcked | hTrimmed
        · exact Or.inl (hOffered.mono_right _)
        · exact Or.inr (Or.inl (hAcked.mono_right _))
        · exact Or.inr (Or.inr hTrimmed)
      · exact Or.inr (Or.inr (hFinal hTrimmed))
      · exact Or.inr (Or.inl (hAcked.mono_left _))
      · exact Or.inl (hOffered.mono_left _)

end Pending

end Bus

end Nidra
