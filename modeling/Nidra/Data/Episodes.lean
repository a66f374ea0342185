import Nidra.Data.Splits

/-
  This file characterizes `findEpisodes`: its loop cuts the
  sorted rows into the longest runs of rows of one host that
  are all attacks or all benign, and reports the attack runs.

  Key definitions include:
    * `sameRun`
    * `runs`
    * `episodeOf`

  Main declarations:
    * `findEpisodes_eq`
    * `mem_findEpisodes`
    * `Episode.start_le_end_of_mem`
-/

namespace Nidra

namespace Data

------------------------------------------------------------
-- Runs of Rows
------------------------------------------------------------

/- Rows that do not end a run between them. -/
def sameRun (a b : StateRow) : Bool :=
  a.hostId = b.hostId ∧ a.isAttack = b.isAttack

theorem sameRun_iff
    {a b : StateRow} :
    sameRun a b = true ↔
      a.hostId = b.hostId ∧ a.isAttack = b.isAttack := by
  simp [sameRun]

/- The longest runs of the sorted rows. -/
def runs (table : List StateRow) : List (List StateRow) :=
  (sortRows table).splitBy sameRun

/- The episode of a run: none when its rows are benign. -/
def episodeOf : List StateRow → Option Episode
  | [] => none
  | first :: rest =>
      if first.isAttack then
        some
          { hostId := first.hostId
            startTs := first.windowTs
            endTs := ((first :: rest).getLast (by simp)).windowTs }
      else none

------------------------------------------------------------
-- The Loop
------------------------------------------------------------

/-
  The row does not continue the run that the loop has open.
-/
def EpisodeScan.Fresh
    (scan : EpisodeScan)
    (row : StateRow) : Prop :=
  scan.start = none ∨
    ∃ previous,
      scan.last = some previous ∧
        (previous.hostId ≠ row.hostId ∨ row.isAttack = false)

/- What the loop holds inside a run: the run's start. -/
def EpisodeScan.within
    (episodes : List Episode)
    (first last : StateRow) : EpisodeScan :=
  { episodes := episodes
    start :=
      if first.isAttack then some first.windowTs else none
    last := some last }

@[simp] theorem EpisodeScan.close_of_start_none
    {scan : EpisodeScan}
    (hStart : scan.start = none) :
    scan.close = scan := by
  unfold EpisodeScan.close
  rw [hStart]

@[simp] theorem EpisodeScan.close_start
    {scan : EpisodeScan}
    {previous : StateRow}
    (hLast : scan.last = some previous) :
    scan.close.start = none := by
  cases hStart : scan.start with
  | none => rw [close_of_start_none hStart, hStart]
  | some start =>
      unfold EpisodeScan.close
      rw [hStart, hLast]

/- A row after a closed run begins its own run. -/
theorem EpisodeScan.visit_of_start_none
    {scan : EpisodeScan}
    (hStart : scan.start = none)
    (row : StateRow) :
    scan.visit row =
      EpisodeScan.within scan.episodes row row := by
  unfold visit within
  rw [close_of_start_none hStart, ite_self]
  cases hRow : row.isAttack with
  | true => simp [hStart]
  | false => simp [hStart]

/- A row that begins a run ends the run before. -/
theorem EpisodeScan.visit_fresh
    {scan : EpisodeScan}
    {row : StateRow}
    (hFresh : scan.Fresh row) :
    scan.visit row =
      EpisodeScan.within scan.close.episodes row row := by
  rcases hFresh with hStart | ⟨previous, hLast, hEnds⟩
  · rw [visit_of_start_none hStart, close_of_start_none hStart]
  · have hClosed := close_start hLast
    by_cases hHost : previous.hostId = row.hostId
    · -- The host goes on, so the row is benign.
      have hBenign : row.isAttack = false := by
        rcases hEnds with hNe | hBenign
        · exact absurd hHost hNe
        · exact hBenign
      simp [visit, newHost, within, hLast, hHost, hBenign]
    · have hNew : scan.newHost row = true := by
        simp [newHost, hLast, Ne.symm hHost]
      rw [← visit_of_start_none hClosed]
      unfold visit
      rw [hNew, if_pos rfl, close_of_start_none hClosed,
        ite_self]

theorem EpisodeScan.visit_within
    {episodes : List Episode}
    {first last row : StateRow}
    (hFirst : sameRun first last = true)
    (hRun : sameRun last row = true) :
    (EpisodeScan.within episodes first last).visit row =
      EpisodeScan.within episodes first row := by
  rcases sameRun_iff.mp hFirst with ⟨_, hAttackFirst⟩
  rcases sameRun_iff.mp hRun with ⟨hHost, hAttack⟩
  cases hRow : row.isAttack with
  | true => 
      simp [visit, newHost, within, hRow, hHost, hAttackFirst,
        hAttack]
  | false => 
      simp [visit, newHost, within, hRow, hHost, hAttackFirst,
        hAttack]

/- After the rows of a run the loop holds its start. -/
theorem EpisodeScan.foldl_within
    {episodes : List Episode}
    {first last : StateRow}
    {rest : List StateRow}
    (hFirst : sameRun first last = true)
    (hChain :
      (last :: rest).IsChain (fun a b => sameRun a b = true)) :
    rest.foldl visit (within episodes first last) =
      within episodes first
        ((last :: rest).getLast (by simp)) := by
  induction rest generalizing last with
  | nil => rfl
  | cons row rest ih =>
      rcases List.isChain_cons_cons.mp hChain with
        ⟨hRun, hRest⟩
      have hNext : sameRun first row = true := by
        rw [sameRun_iff] at hFirst hRun ⊢
        exact ⟨hFirst.1.trans hRun.1, hFirst.2.trans hRun.2⟩
      rw [List.foldl_cons, visit_within hFirst hRun,
        ih hNext hRest]
      congr 1

/- Closing after a run reports the run's episode. -/
theorem EpisodeScan.close_within
    (episodes : List Episode)
    {first : StateRow}
    {rest : List StateRow}
    (hHost :
      ((first :: rest).getLast (by simp)).hostId =
        first.hostId) :
    (within episodes first
        ((first :: rest).getLast (by simp))).close.episodes =
      episodes ++ (episodeOf (first :: rest)).toList := by
  cases hAttack : first.isAttack with
  | true => simp [within, close, episodeOf, hAttack, hHost]
  | false => simp [within, close, episodeOf, hAttack]

theorem sameRun_getLast
    {first : StateRow}
    {rest : List StateRow}
    (hChain :
      (first :: rest).IsChain
        (fun a b => sameRun a b = true)) :
    sameRun first
      ((first :: rest).getLast (by simp)) = true := by
  induction rest generalizing first with
  | nil => simp [sameRun]
  | cons row rest ih =>
      rcases List.isChain_cons_cons.mp hChain with
        ⟨hRun, hRest⟩
      have hLast := ih hRest
      rw [List.getLast_cons (by simp)]
      rw [sameRun_iff] at hRun hLast ⊢
      exact ⟨hRun.1.trans hLast.1, hRun.2.trans hLast.2⟩

/-
  The loop over runs: each one closes the one before, and the
  end closes the last. The runs are the pieces that the rows
  are cut into wherever `sameRun` fails.
-/
theorem EpisodeScan.foldl_runs
    {pieces : List (List StateRow)}
    (hNonempty : [] ∉ pieces)
    (hChains :
      ∀ piece ∈ pieces,
        piece.IsChain (fun a b => sameRun a b = true))
    (hCuts :
      pieces.IsChain
        (fun s t =>
          ∃ hs ht, sameRun (s.getLast hs) (t.head ht) = false))
    {scan : EpisodeScan}
    (hFresh :
      ∀ piece ∈ pieces.head?, ∀ row ∈ piece.head?,
        scan.Fresh row) :
    (pieces.flatten.foldl visit scan).close.episodes =
      scan.close.episodes ++ pieces.filterMap episodeOf := by
  induction pieces generalizing scan with
  | nil => simp
  | cons piece rest ih =>
      cases piece with
      | nil => simp at hNonempty
      | cons first tail =>
          have hChain := hChains (first :: tail) (by simp)
          have hLast := sameRun_getLast hChain
          have hStep :
              (first :: tail).foldl visit scan =
                within scan.close.episodes first
                  ((first :: tail).getLast (by simp)) := by
            rw [List.foldl_cons,
              visit_fresh
                (hFresh (first :: tail) (by simp) first
                  (by simp))]
            exact foldl_within (by simp [sameRun]) hChain
          have hNext :
              ∀ piece ∈ rest.head?, ∀ row ∈ piece.head?,
                ((first :: tail).foldl visit scan).Fresh
                  row := by
            intro piece hPiece row hRow
            rcases (List.isChain_cons.mp hCuts).1 piece hPiece
              with ⟨_, hNe, hCut⟩
            have hHead : piece.head hNe = row := by
              rw [List.head?_eq_some_head hNe] at hRow
              exact Option.mem_some_iff.mp hRow
            rw [hHead] at hCut
            rw [hStep]
            cases hAttack : first.isAttack with
            | false =>
                exact Or.inl (by simp [within, hAttack])
            | true =>
                refine Or.inr ⟨_, rfl, ?_⟩
                by_contra hGoesOn
                push Not at hGoesOn
                rcases hGoesOn with ⟨hHost, hRowAttack⟩
                have hSame :
                    sameRun
                      ((first :: tail).getLast (by simp))
                      row = true := by
                  rw [sameRun_iff] at hLast ⊢
                  refine ⟨hHost, ?_⟩
                  rw [← hLast.2, hAttack]
                  exact (Bool.eq_true_of_not_eq_false
                    hRowAttack).symm
                rw [hSame] at hCut
                exact Bool.noConfusion hCut
          have hRest :=
            ih (fun hMem => hNonempty (by simp [hMem]))
              (fun piece hMem =>
                hChains piece (List.mem_cons_of_mem _ hMem))
              hCuts.tail hNext
          rw [List.flatten_cons, List.foldl_append, hRest,
            hStep,
            close_within _ (sameRun_iff.mp hLast).1.symm,
            List.append_assoc]
          congr 1
          cases hEp : episodeOf (first :: tail) with
          | none => simp [hEp]
          | some ep => simp [hEp]

/- The episodes are those of the runs, in order. -/
theorem findEpisodes_eq
    (table : List StateRow) :
    findEpisodes table =
      (runs table).filterMap episodeOf := by
  have hFresh :
      ∀ piece ∈ (runs table).head?, ∀ row ∈ piece.head?,
        EpisodeScan.initial.Fresh row :=
    fun _ _ _ _ => Or.inl rfl
  have hLoop :=
    EpisodeScan.foldl_runs
      (List.nil_notMem_splitBy sameRun (sortRows table))
      (fun _ => List.isChain_of_mem_splitBy)
      (List.isChain_getLast_head_splitBy sameRun
        (sortRows table))
      hFresh
  rw [List.flatten_splitBy] at hLoop
  exact hLoop

------------------------------------------------------------
-- Rows of a Run
------------------------------------------------------------

/- A run has one host and is all attack or all benign. -/
theorem run_uniform
    {table : List StateRow}
    {first : StateRow}
    {rest : List StateRow}
    (hRun : first :: rest ∈ runs table)
    {row : StateRow}
    (hRow : row ∈ first :: rest) :
    row.hostId = first.hostId ∧
      row.isAttack = first.isAttack := by
  have hChain :
      (first :: rest).IsChain
        (fun a b => sameRun a b = true) :=
    List.isChain_of_mem_splitBy hRun
  refine List.IsChain.induction
    (fun row =>
      row.hostId = first.hostId ∧
        row.isAttack = first.isAttack)
    (first :: rest) hChain ?_ ?_ row hRow
  · intro a b hSame hA
    rw [sameRun_iff] at hSame
    exact ⟨hSame.1.symm.trans hA.1,
      hSame.2.symm.trans hA.2⟩
  · intro hNe
    exact ⟨rfl, rfl⟩

/- The rows of a run stand together in the sorted rows. -/
theorem run_infix_rows
    {table : List StateRow}
    {run : List StateRow}
    (hRun : run ∈ runs table) :
    run <:+: sortRows table := by
  have hFlat := List.infix_of_mem_flatten hRun
  unfold runs at hFlat
  rwa [List.flatten_splitBy] at hFlat

theorem run_subset
    {table : List StateRow}
    {run : List StateRow}
    (hRun : run ∈ runs table)
    {row : StateRow}
    (hRow : row ∈ run) :
    row ∈ table :=
  mem_sortRows.mp ((run_infix_rows hRun).subset hRow)

theorem exists_run_of_mem
    {table : List StateRow}
    {row : StateRow}
    (hRow : row ∈ table) :
    ∃ first rest,
      first :: rest ∈ runs table ∧ row ∈ first :: rest := by
  have hMem : row ∈ (runs table).flatten := by
    rw [runs, List.flatten_splitBy, mem_sortRows]
    exact hRow
  rcases List.mem_flatten.mp hMem with ⟨run, hRun, hIn⟩
  cases run with
  | nil => simp at hIn
  | cons first rest => exact ⟨first, rest, hRun, hIn⟩

/- The runs are in order, and so are the rows of each. -/
theorem runs_pairwise
    {R : StateRow → StateRow → Prop}
    {table : List StateRow}
    (hSorted : (sortRows table).Pairwise R) :
    (∀ run ∈ runs table, run.Pairwise R) ∧
      (runs table).Pairwise
        (fun s t => ∀ a ∈ s, ∀ b ∈ t, R a b) := by
  rw [← List.flatten_splitBy sameRun (sortRows table)]
    at hSorted
  exact List.pairwise_flatten.mp hSorted

theorem run_head_le
    {table : List StateRow}
    {first : StateRow}
    {rest : List StateRow}
    (hRun : first :: rest ∈ runs table)
    {row : StateRow}
    (hRow : row ∈ first :: rest) :
    first.windowTs ≤ row.windowTs := by
  rcases List.mem_cons.mp hRow with rfl | hRest
  · exact le_rfl
  · have hSorted :=
      (runs_pairwise (sortByKey_pairwise StateRow.key table)).1
        _ hRun
    have hKey := List.rel_of_pairwise_cons hSorted hRest
    rcases (StateRow.key_le_iff _ _).mp hKey with hHost | hTs
    · rw [(run_uniform hRun hRow).1] at hHost
      exact absurd hHost (lt_irrefl _)
    · exact hTs.2

theorem run_le_getLast
    {table : List StateRow}
    {first : StateRow}
    {rest : List StateRow}
    (hRun : first :: rest ∈ runs table)
    {row : StateRow}
    (hRow : row ∈ first :: rest) :
    row.windowTs ≤
      ((first :: rest).getLast (by simp)).windowTs := by
  have hSorted :=
    (runs_pairwise (sortByKey_pairwise StateRow.key table)).1
      _ hRun
  have hSplit := List.dropLast_append_getLast
    (show first :: rest ≠ [] by simp)
  have hLastHost :=
    (run_uniform hRun
      (List.getLast_mem (show first :: rest ≠ [] by simp))).1
  rw [← hSplit] at hRow hSorted
  rcases List.mem_append.mp hRow with hInit | hLast
  · have hKey :=
      (List.pairwise_append.mp hSorted).2.2 row hInit _
        (List.mem_singleton_self _)
    rcases (StateRow.key_le_iff _ _).mp hKey with hHost | hTs
    · rw [hLastHost,
        (run_uniform hRun (List.mem_of_mem_dropLast hInit)).1]
        at hHost
      exact absurd hHost (lt_irrefl _)
    · exact hTs.2
  · rw [List.mem_singleton.mp hLast]

------------------------------------------------------------
-- Episodes
------------------------------------------------------------

theorem mem_findEpisodes
    {table : List StateRow}
    {ep : Episode} :
    ep ∈ findEpisodes table ↔
      ∃ first rest,
        first :: rest ∈ runs table ∧
          first.isAttack = true ∧
          ep =
            { hostId := first.hostId
              startTs := first.windowTs
              endTs :=
                ((first :: rest).getLast
                  (by simp)).windowTs } := by
  rw [findEpisodes_eq, List.mem_filterMap]
  constructor
  · rintro ⟨run, hRun, hEp⟩
    cases run with
    | nil => simp [episodeOf] at hEp
    | cons first rest =>
        refine ⟨first, rest, hRun, ?_⟩
        cases hAttack : first.isAttack with
        | true =>
            rw [episodeOf, if_pos hAttack] at hEp
            exact ⟨rfl, (Option.some.inj hEp).symm⟩
        | false => simp [episodeOf, hAttack] at hEp
  · rintro ⟨first, rest, hRun, hAttack, rfl⟩
    exact ⟨first :: rest, hRun, by simp [episodeOf, hAttack]⟩

/- An episode begins and ends at attack rows of its host. -/
theorem Episode.ends_of_mem
    {table : List StateRow}
    {ep : Episode}
    (hMem : ep ∈ findEpisodes table) :
    (∃ row ∈ table,
        row.hostId = ep.hostId ∧ row.isAttack = true ∧
          row.windowTs = ep.startTs) ∧
      ∃ row ∈ table,
        row.hostId = ep.hostId ∧ row.isAttack = true ∧
          row.windowTs = ep.endTs := by
  rcases mem_findEpisodes.mp hMem with
    ⟨first, rest, hRun, hAttack, rfl⟩
  have hLast :=
    List.getLast_mem (show first :: rest ≠ [] by simp)
  refine ⟨⟨first, ?_, rfl, hAttack, rfl⟩, ⟨_, ?_, ?_, ?_, rfl⟩⟩
  · exact run_subset hRun (by simp)
  · exact run_subset hRun hLast
  · exact (run_uniform hRun hLast).1
  · exact (run_uniform hRun hLast).2.trans hAttack

theorem Episode.start_le_end_of_mem
    {table : List StateRow}
    {ep : Episode}
    (hMem : ep ∈ findEpisodes table) :
    ep.startTs ≤ ep.endTs := by
  rcases mem_findEpisodes.mp hMem with
    ⟨first, rest, hRun, hAttack, rfl⟩
  exact run_head_le hRun (List.getLast_mem (by simp))

------------------------------------------------------------
-- Neighbouring Rows
------------------------------------------------------------

/-
  Two neighbours that a cut would not part lie in one piece.
-/
theorem exists_piece_of_pair
    {α : Type}
    {r : α → α → Bool}
    {pieces : List (List α)}
    (hCuts :
      pieces.IsChain
        (fun s t =>
          ∃ hs ht, r (s.getLast hs) (t.head ht) = false))
    {a b : α}
    (hPair : [a, b] <:+: pieces.flatten)
    (hTogether : r a b = true) :
    ∃ piece ∈ pieces, a ∈ piece ∧ b ∈ piece := by
  induction pieces with
  | nil => simp at hPair
  | cons piece rest ih =>
      rcases hPair with ⟨before, after, hEq⟩
      rw [List.append_assoc, List.flatten_cons,
        List.append_eq_append_iff] at hEq
      rcases hEq with
        ⟨tail, hPiece, hRest⟩ | ⟨tail, hPiece, hRest⟩
      · -- The pair begins inside the first piece.
        cases tail with
        | nil =>
            have hInfix : [a, b] <:+: rest.flatten :=
              ⟨[], after, by simpa using hRest⟩
            rcases ih hCuts.tail hInfix with ⟨p, hP, hIn⟩
            exact ⟨p, List.mem_cons_of_mem _ hP, hIn⟩
        | cons x tail =>
            cases tail with
            | nil =>
                -- The cut would lie between the two.
                simp only [List.cons_append, List.nil_append,
                  List.cons.injEq] at hRest
                rcases hRest with ⟨rfl, hRest⟩
                cases rest with
                | nil => simp at hRest
                | cons next rest =>
                    rcases (List.isChain_cons_cons.mp
                      hCuts).1 with ⟨_, hNe, hCut⟩
                    have hLast :
                        piece.getLast (by simp [hPiece]) = a := by
                      simp [hPiece]
                    have hHead : next.head hNe = b := by
                      cases next with
                      | nil => exact absurd rfl hNe
                      | cons y ys =>
                          simp only [List.flatten_cons,
                            List.cons_append,
                            List.cons.injEq] at hRest
                          exact hRest.1.symm
                    rw [hLast, hHead, hTogether] at hCut
                    exact Bool.noConfusion hCut
            | cons y tail =>
                simp only [List.cons_append, List.nil_append,
                  List.cons.injEq] at hRest
                rcases hRest with ⟨rfl, rfl, _⟩
                exact ⟨piece, by simp, by simp [hPiece],
                  by simp [hPiece]⟩
      · -- The pair begins after the first piece.
        have hInfix : [a, b] <:+: rest.flatten :=
          ⟨tail, after, by simpa using hRest.symm⟩
        rcases ih hCuts.tail hInfix with ⟨p, hP, hIn⟩
        exact ⟨p, List.mem_cons_of_mem _ hP, hIn⟩

/- Neighbouring attack rows of a host lie in one run. -/
theorem exists_run_of_pair
    {table : List StateRow}
    {a b : StateRow}
    (hPair : [a, b] <:+: sortRows table)
    (hTogether : sameRun a b = true) :
    ∃ first rest,
      first :: rest ∈ runs table ∧
        a ∈ first :: rest ∧ b ∈ first :: rest := by
  have hPieces : [a, b] <:+: (runs table).flatten := by
    rw [runs, List.flatten_splitBy]
    exact hPair
  rcases exists_piece_of_pair
    (List.isChain_getLast_head_splitBy sameRun
      (sortRows table))
    hPieces hTogether with ⟨run, hRun, hA, hB⟩
  cases run with
  | nil => simp at hA
  | cons first rest => exact ⟨first, rest, hRun, hA, hB⟩

/- No row stands between neighbours. -/
theorem not_between_neighbours
    {table : List StateRow}
    (hDistinct : DistinctWindows table)
    {a b row : StateRow}
    (hPair : [a, b] <:+: sortRows table)
    (hRow : row ∈ table) :
    a.key < b.key ∧ (row.key ≤ a.key ∨ b.key ≤ row.key) := by
  have hSorted := sortByKey_pairwise_lt hDistinct
  have hMem : row ∈ sortRows table := mem_sortRows.mpr hRow
  rcases hPair with ⟨before, after, hEq⟩
  unfold sortRows at hEq hMem
  rw [← hEq, List.append_assoc] at hSorted hMem
  rcases List.pairwise_append.mp hSorted with
    ⟨_, hTail, hAcross⟩
  refine ⟨List.rel_of_pairwise_cons hTail (by simp), ?_⟩
  rcases List.mem_append.mp hMem with hBefore | hAfter
  · exact Or.inl (hAcross row hBefore a (by simp)).le
  · simp only [List.cons_append, List.nil_append,
      List.mem_cons] at hAfter
    rcases hAfter with rfl | rfl | hAfter
    · exact Or.inl le_rfl
    · exact Or.inr le_rfl
    · exact Or.inr
        (List.rel_of_pairwise_cons hTail.tail hAfter).le

end Data

end Nidra
