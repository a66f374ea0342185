import Nidra.Lib.PyText

/-
  This file says that the words of a text do not depend on
  the white space around it.

  Main declarations:
    * `fullPieces_trim`
    * `words_map_strip`
-/

namespace PyText

------------------------------------------------------------
-- Separators at the ends
------------------------------------------------------------

section Pieces

variable {sep : Char → Bool}

/- There is always a first piece. -/
theorem pieces_ne_nil
    (text : List Char) :
    pieces sep text ≠ [] := by
  cases text with
  | nil => simp [pieces]
  | cons c rest =>
      unfold pieces
      dsimp only
      split
      · simp
      · split <;> simp

/- A separator at the end leaves an empty piece after it. -/
theorem pieces_concat
    {c : Char}
    (hSep : sep c = true)
    (text : List Char) :
    pieces sep (text ++ [c]) = pieces sep text ++ [[]] := by
  induction text with
  | nil => simp [pieces, hSep]
  | cons d text ih =>
      rw [List.cons_append]
      unfold pieces
      dsimp only
      rw [ih]
      split
      · rfl
      · cases hPieces : pieces sep text with
        | nil => exact absurd hPieces (pieces_ne_nil text)
        | cons piece more => rfl

/- The pieces that are not empty. -/
def fullPieces
    (sep : Char → Bool)
    (text : List Char) : List (List Char) :=
  (pieces sep text).filter (fun piece => piece ≠ [])

theorem fullPieces_cons
    {c : Char}
    (hSep : sep c = true)
    (text : List Char) :
    fullPieces sep (c :: text) = fullPieces sep text := by
  simp [fullPieces, pieces, hSep]

theorem fullPieces_concat
    {c : Char}
    (hSep : sep c = true)
    (text : List Char) :
    fullPieces sep (text ++ [c]) = fullPieces sep text := by
  simp [fullPieces, pieces_concat hSep]

section Drops

variable {drops : Char → Bool}
variable {f : Char → Char}
variable (hDrops : ∀ c, drops c = true → sep (f c) = true)
include hDrops

theorem fullPieces_dropWhile
    (text : List Char) :
    fullPieces sep ((text.dropWhile drops).map f) =
      fullPieces sep (text.map f) := by
  induction text with
  | nil => rfl
  | cons c text ih =>
      rw [List.dropWhile_cons]
      split
      · next hDrop =>
          rw [ih, List.map_cons,
            fullPieces_cons (hDrops c hDrop)]
      · rfl

theorem fullPieces_dropWhile_reverse
    (text : List Char) :
    fullPieces sep
        ((text.reverse.dropWhile drops).reverse.map f) =
      fullPieces sep (text.map f) := by
  induction text using List.reverseRecOn with
  | nil => rfl
  | append_singleton text c ih =>
      rw [List.reverse_append, List.reverse_singleton,
        List.singleton_append, List.dropWhile_cons]
      split
      · next hDrop =>
          rw [ih, List.map_append, List.map_singleton,
            fullPieces_concat (hDrops c hDrop)]
      · rw [List.reverse_cons, List.reverse_reverse]

/-
  Dropping at both ends what becomes a separator keeps the
  full pieces.
-/
theorem fullPieces_trim
    (text : List Char) :
    fullPieces sep ((trim drops text).map f) =
      fullPieces sep (text.map f) := by
  unfold trim
  rw [fullPieces_dropWhile_reverse hDrops,
    fullPieces_dropWhile hDrops]

end Drops

end Pieces

------------------------------------------------------------
-- Words
------------------------------------------------------------

/-
  The words of a text with some characters replaced are those
  of the text without the white space around it.
-/
theorem words_map_strip
    {f : Char → Char}
    (hSpace :
      ∀ c, isSpace c = true → isSpace (f c) = true)
    (text : String) :
    words (String.ofList ((strip text).toList.map f)) =
      words (String.ofList (text.toList.map f)) := by
  have hFull := fullPieces_trim hSpace text.toList
  unfold words strip
  simp only [String.toList_ofList]
  exact congrArg (List.map String.ofList) hFull

end PyText
