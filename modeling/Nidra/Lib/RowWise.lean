import Mathlib
import Nidra.Lib.Numerals

/-
  This file says when a function of a whole column, which may
  fail, reads each of its rows by itself, so that what it
  makes of a row does not depend on the other rows.

  Key definitions include:
    * `alone`
    * `RowWise`

  Main declarations:
    * `getElem?_of_mapM_some`
-/

section RowWise

variable {α β : Type}

/- What is made of a row when it is the whole column. -/
def alone
    (read : List α → Option (List β))
    (row : α) : Option β :=
  (read [row]).bind List.head?

/- Every row of a column is read as if it were alone. -/
def RowWise
    (read : List α → Option (List β))
    (column : List α) : Prop :=
  read column = column.mapM (alone read)

instance
    [DecidableEq β]
    (read : List α → Option (List β))
    (column : List α) :
    Decidable (RowWise read column) :=
  inferInstanceAs (Decidable (_ = _))

/- A row of what is made one by one. -/
theorem getElem?_of_mapM_some
    {f : α → Option β}
    {column : List α}
    {results : List β}
    (hSome : column.mapM f = some results)
    (i : ℕ) :
    results[i]? = column[i]?.bind f := by
  induction column generalizing results i with
  | nil =>
      rw [List.mapM_nil] at hSome
      cases hSome
      simp
  | cons row column ih =>
      rw [List.mapM_cons, Option.bind_eq_bind,
        Option.bind_eq_some_iff] at hSome
      rcases hSome with ⟨b, hRow, hRest⟩
      rw [Option.bind_eq_bind, Option.bind_eq_some_iff]
        at hRest
      rcases hRest with ⟨rest, hColumn, hResults⟩
      cases hResults
      cases i with
      | zero => simp [hRow]
      | succ i => simpa using ih hColumn i

/- Reading row by row by a function that agrees with it. -/
theorem mapM_congr_of_mem
    {f g : α → Option β}
    {column : List α}
    (hSame : ∀ row ∈ column, f row = g row) :
    column.mapM f = column.mapM g := by
  induction column with
  | nil => rfl
  | cons row column ih =>
      rw [List.mapM_cons, List.mapM_cons,
        hSame row List.mem_cons_self,
        ih (fun other hMem =>
          hSame other (List.mem_cons_of_mem _ hMem))]

/- Two readings of a column that agree, agree on its rows. -/
theorem eq_of_mapM_eq
    {f g : α → Option β}
    {column : List α}
    (hSame : column.mapM f = column.mapM g)
    (hSome : column.mapM g ≠ none) :
    ∀ row ∈ column, f row = g row := by
  intro row hMem
  rcases Option.ne_none_iff_exists'.mp hSome with
    ⟨results, hResults⟩
  rcases List.mem_iff_getElem?.mp hMem with ⟨i, hRow⟩
  have hF :=
    getElem?_of_mapM_some (hSame.trans hResults) i
  have hG := getElem?_of_mapM_some hResults i
  rw [hRow] at hF hG
  exact hF.symm.trans hG

/- Reading row by row without a failure. -/
theorem mapM_eq_some_map_iff
    {f : α → Option β}
    {g : α → β}
    {column : List α} :
    column.mapM f = some (column.map g) ↔
      ∀ row ∈ column, f row = some (g row) := by
  constructor
  · intro hSome row hMem
    rcases List.mem_iff_getElem?.mp hMem with ⟨i, hRow⟩
    have hResult := getElem?_of_mapM_some hSome i
    rw [List.getElem?_map, hRow] at hResult
    exact hResult.symm
  · intro hRows
    rw [mapM_congr_of_mem hRows]
    exact List.mapM_pure

/- A column fails exactly if one of its rows does. -/
theorem mapM_eq_none_iff
    {f : α → Option β}
    {column : List α} :
    column.mapM f = none ↔ ∃ row ∈ column, f row = none := by
  induction column with
  | nil => simp
  | cons row column ih =>
      rw [List.mapM_cons, List.exists_mem_cons_iff, ← ih]
      cases hRow : f row with
      | none => simp
      | some b =>
          cases column.mapM f with
          | none => simp
          | some results => simp

/- Reading in two steps. -/
theorem mapM_bind_mapM
    {γ : Type}
    (f : α → Option β)
    (g : β → Option γ)
    (column : List α) :
    (column.mapM f).bind (fun results => results.mapM g) =
      column.mapM (fun row => (f row).bind g) := by
  induction column with
  | nil => rfl
  | cons row column ih =>
      rw [List.mapM_cons, List.mapM_cons, ← ih]
      cases f row with
      | none => rfl
      | some b =>
          cases column.mapM f with
          | none => cases hB : g b <;> simp [hB]
          | some results => simp

/- Going on row by row with what was read. -/
theorem map_mapM_option
    {γ : Type}
    (f : α → Option β)
    (g : β → γ)
    (column : List α) :
    (column.mapM f).map (List.map g) =
      column.mapM (fun row => (f row).map g) := by
  induction column with
  | nil => rfl
  | cons row column ih =>
      rw [List.mapM_cons, List.mapM_cons, ← ih]
      cases f row with
      | none => rfl
      | some b =>
          cases column.mapM f with
          | none => rfl
          | some results => rfl

/- A row that is alone is read or it is not. -/
theorem mapM_singleton_bind_head?
    (f : α → Option β)
    (row : α) :
    ([row].mapM f).bind List.head? = f row := by
  rw [List.mapM_cons, List.mapM_nil]
  cases f row with
  | none => rfl
  | some b => rfl

end RowWise
