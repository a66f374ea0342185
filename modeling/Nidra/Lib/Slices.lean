import Mathlib
import Nidra.Lib.Numerals

/-
  This file defines arrays that are filled by assignments to
  slices, the spans between boundaries, and the chunks of a
  span.

  Key definitions include:
    * `List.writeAt`, `List.Fills`
    * `List.consecutive`
    * `chunkStarts`

  Main declarations:
    * `List.getElem?_foldl_writeAt`
    * `List.exists_consecutive`
    * `List.not_between_consecutive`
    * `exists_chunkStart`
-/

namespace List

variable {α : Type}

------------------------------------------------------------
-- Assigning to slices
------------------------------------------------------------

/- Assign values to the slice from a place on. -/
def writeAt
    (l : List α)
    (start : ℕ)
    (values : List α) : List α :=
  l.take start ++ values ++ l.drop (start + values.length)

/- The slice lies within `n` places and has the right values. -/
def Fills
    (f : ℕ → α)
    (n start : ℕ)
    (values : List α) : Prop :=
  start + values.length ≤ n ∧
    ∀ k < values.length, values[k]? = some (f (start + k))

theorem length_writeAt
    {l : List α}
    {start : ℕ}
    {values : List α}
    (hFits : start + values.length ≤ l.length) :
    (l.writeAt start values).length = l.length := by
  unfold writeAt
  simp only [List.length_append, List.length_take,
    List.length_drop]
  omega

theorem getElem?_writeAt
    {l : List α}
    {start : ℕ}
    {values : List α}
    (hFits : start + values.length ≤ l.length)
    (i : ℕ) :
    (l.writeAt start values)[i]? =
      if start ≤ i ∧ i < start + values.length then
        values[i - start]?
      else l[i]? := by
  have hTake : (l.take start).length = start := by
    rw [List.length_take]
    omega
  unfold writeAt
  rw [List.append_assoc]
  rcases Nat.lt_or_ge i start with hBefore | hFrom
  · rw [if_neg (by omega), List.getElem?_append_left (by omega),
      List.getElem?_take_of_lt hBefore]
  · rw [List.getElem?_append_right (by omega), hTake]
    rcases Nat.lt_or_ge i (start + values.length) with
      hIn | hAfter
    · rw [if_pos ⟨hFrom, hIn⟩,
        List.getElem?_append_left (by omega)]
    · rw [if_neg (by omega),
        List.getElem?_append_right (by omega),
        List.getElem?_drop]
      congr 1
      omega

/- Assignments keep the length, -/
theorem length_foldl_writeAt
    {f : ℕ → α}
    {l : List α}
    {writes : List (ℕ × List α)}
    (hFills : ∀ w ∈ writes, Fills f l.length w.1 w.2) :
    (writes.foldl (fun l w => l.writeAt w.1 w.2) l).length =
      l.length := by
  induction writes generalizing l with
  | nil => rfl
  | cons w writes ih =>
      have hLength :=
        length_writeAt (hFills w List.mem_cons_self).1
      rw [List.foldl_cons, ih, hLength]
      intro w' hMem
      rw [hLength]
      exact hFills w' (List.mem_cons_of_mem w hMem)

/-
  and what is assigned somewhere is right in the end, as
  every assignment is.
-/
theorem getElem?_foldl_writeAt
    {f : ℕ → α}
    {l : List α}
    {writes : List (ℕ × List α)}
    (hFills : ∀ w ∈ writes, Fills f l.length w.1 w.2)
    {i : ℕ}
    (hRight :
      l[i]? = some (f i) ∨
        ∃ w ∈ writes, w.1 ≤ i ∧ i < w.1 + w.2.length) :
    (writes.foldl (fun l w => l.writeAt w.1 w.2) l)[i]? =
      some (f i) := by
  induction writes generalizing l with
  | nil =>
      rcases hRight with hDone | ⟨w, hMem, _⟩
      · exact hDone
      · cases hMem
  | cons w writes ih =>
      have hFirst := hFills w List.mem_cons_self
      have hLength := length_writeAt hFirst.1
      have hAt := getElem?_writeAt hFirst.1 i
      rw [List.foldl_cons]
      apply ih
      · intro w' hMem
        rw [hLength]
        exact hFills w' (List.mem_cons_of_mem w hMem)
      · by_cases hIn : w.1 ≤ i ∧ i < w.1 + w.2.length
        · left
          rw [hAt, if_pos hIn, hFirst.2 (i - w.1) (by omega)]
          congr 2
          omega
        · rcases hRight with hDone | ⟨w', hMem, hCovers⟩
          · left
            rw [hAt, if_neg hIn]
            exact hDone
          · rcases List.mem_cons.mp hMem with rfl | hLater
            · exact absurd hCovers hIn
            · exact Or.inr ⟨w', hLater, hCovers⟩

------------------------------------------------------------
-- Spans between boundaries
------------------------------------------------------------

/- Each element of a list with the next one. -/
def consecutive (l : List α) : List (α × α) :=
  l.zip l.tail

theorem consecutive_cons_cons
    (a b : α)
    (l : List α) :
    consecutive (a :: b :: l) =
      (a, b) :: consecutive (b :: l) := rfl

/- Nothing of a sorted list is between them. -/
theorem not_between_consecutive
    {l : List ℕ}
    (hSorted : l.Pairwise (· < ·))
    {a b : ℕ}
    (hMem : (a, b) ∈ consecutive l) :
    a ∈ l ∧ b ∈ l ∧ a < b ∧ ∀ c ∈ l, c ≤ a ∨ b ≤ c := by
  induction l with
  | nil => cases hMem
  | cons x l ih =>
      cases l with
      | nil => cases hMem
      | cons y l =>
          rw [List.pairwise_cons] at hSorted
          rw [consecutive_cons_cons, List.mem_cons] at hMem
          rcases hMem with hHead | hTail
          · cases hHead
            refine
              ⟨List.mem_cons_self, by simp,
                hSorted.1 b List.mem_cons_self, ?_⟩
            intro c hC
            rcases List.mem_cons.mp hC with rfl | hC
            · exact Or.inl le_rfl
            · rcases List.mem_cons.mp hC with rfl | hC
              · exact Or.inr le_rfl
              · have hLater :=
                  (List.pairwise_cons.mp hSorted.2).1 c hC
                exact Or.inr hLater.le
          · rcases ih hSorted.2 hTail with
              ⟨hA, hB, hLt, hBetween⟩
            refine
              ⟨List.mem_cons_of_mem x hA,
                List.mem_cons_of_mem x hB, hLt, ?_⟩
            intro c hC
            rcases List.mem_cons.mp hC with rfl | hC
            · exact Or.inl (hSorted.1 a hA).le
            · exact hBetween c hC

/- And every place from the first to the last is in a span. -/
theorem exists_consecutive
    {first i : ℕ}
    {l : List ℕ}
    (hFirst : first ≤ i)
    (hLast : ∃ b ∈ first :: l, i < b) :
    ∃ span ∈ consecutive (first :: l),
      span.1 ≤ i ∧ i < span.2 := by
  induction l generalizing first with
  | nil =>
      rcases hLast with ⟨b, hMem, hLt⟩
      rw [List.mem_singleton] at hMem
      omega
  | cons y l ih =>
      rw [consecutive_cons_cons]
      rcases Nat.lt_or_ge i y with hHere | hLater
      · exact ⟨(first, y), List.mem_cons_self, hFirst, hHere⟩
      · rcases hLast with ⟨b, hMem, hLt⟩
        have hRest : b ∈ y :: l := by
          rcases List.mem_cons.mp hMem with rfl | hRest
          · omega
          · exact hRest
        rcases ih hLater ⟨b, hRest, hLt⟩ with
          ⟨span, hSpan, hIn⟩
        exact ⟨span, List.mem_cons_of_mem _ hSpan, hIn⟩

end List

------------------------------------------------------------
-- Chunks
------------------------------------------------------------

/- Every `chunk`-th place below a length, from the first on. -/
def chunkStarts (length chunk : ℕ) : List ℕ :=
  (List.range length).filter (fun start => start % chunk = 0)

theorem mem_chunkStarts
    {length chunk start : ℕ} :
    start ∈ chunkStarts length chunk ↔
      start < length ∧ start % chunk = 0 := by
  simp [chunkStarts]

/- Every place is in a chunk. -/
theorem exists_chunkStart
    {length chunk i : ℕ}
    (hChunk : 0 < chunk)
    (hLt : i < length) :
    ∃ start ∈ chunkStarts length chunk,
      start ≤ i ∧ i < min (start + chunk) length := by
  refine ⟨i / chunk * chunk, ?_, ?_, ?_⟩
  · rw [mem_chunkStarts]
    have hLe := Nat.div_mul_le_self i chunk
    exact ⟨by omega, Nat.mul_mod_left _ _⟩
  · exact Nat.div_mul_le_self i chunk
  · have hNext := Nat.lt_div_mul_add hChunk (a := i)
    exact lt_min hNext hLt
