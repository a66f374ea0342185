import Nidra.Lib.PyDigits

/-
  This file writes UUIDs as text and reads them back.

  Key definitions include:
    * `Uuid`
    * `Uuid.str`, `Uuid.ofText`

  Main declarations:
    * `Uuid.ofText_str`
-/

/- A UUID is a number of 128 bits. -/
abbrev Uuid :=
  Fin (2 ^ 128)

namespace Uuid

------------------------------------------------------------
-- Text
------------------------------------------------------------

/- The 32 digits in base sixteen. -/
def hex (n : Uuid) : List Char :=
  PyText.padded 16 32 n.val

/- The digits in groups of 8, 4, 4, 4 and 12. -/
def str (n : Uuid) : String :=
  let digits := n.hex
  String.ofList
    (digits.take 8 ++ '-' ::
      ((digits.drop 8).take 4 ++ '-' ::
        ((digits.drop 12).take 4 ++ '-' ::
          ((digits.drop 16).take 4 ++ '-' ::
            digits.drop 20))))

/-
  Remove a text wherever it is found. The number is that of
  characters still to be skipped.
-/
def removeFrom
    (word : List Char) : ℕ → List Char → List Char
  | _, [] => []
  | skip + 1, _ :: rest => removeFrom word skip rest
  | 0, c :: rest =>
      if word.isPrefixOf (c :: rest) then
        removeFrom word (word.length - 1) rest
      else c :: removeFrom word 0 rest

def remove (word : String) (text : List Char) : List Char :=
  removeFrom word.toList 0 text

/-
  The UUID of a text: prefixes, braces and hyphens are
  dropped, and 32 digits have to be left.
-/
def ofText (text : String) : Option Uuid := do
  let plain := remove "uuid:" (remove "urn:" text.toList)
  let braced :=
    PyText.trim (fun c => c = '{' || c = '}') plain
  let digits := remove "-" braced
  if digits.length ≠ 32 then none
  else
    let value ← PyText.intHex (String.ofList digits)
    if hRange : 0 ≤ value ∧ value.toNat < 2 ^ 128 then
      some ⟨value.toNat, hRange.2⟩
    else none

------------------------------------------------------------
-- Reading what was written
------------------------------------------------------------

/- Nothing is removed where the first character is missing. -/
theorem removeFrom_of_notMem
    {c : Char}
    (word : List Char)
    {text : List Char}
    (hNone : c ∉ text) :
    removeFrom (c :: word) 0 text = text := by
  induction text with
  | nil => rfl
  | cons d rest ih =>
      rw [List.mem_cons, not_or] at hNone
      have hNot : (c :: word).isPrefixOf (d :: rest) = false := by
        simp [List.isPrefixOf, hNone.1]
      rw [removeFrom, hNot, ih hNone.2]
      rfl

/- Removing one character keeps the others. -/
theorem removeFrom_char
    (c : Char)
    (text : List Char) :
    removeFrom [c] 0 text = text.filter (fun d => d ≠ c) := by
  induction text with
  | nil => rfl
  | cons d rest ih =>
      rw [removeFrom]
      by_cases hSame : c = d
      · subst hSame
        simp [List.isPrefixOf, ih]
      · have hOther : d ≠ c := fun h => hSame h.symm
        simp [List.isPrefixOf, hSame, hOther, ih]

/- The characters of a UUID. -/
theorem mem_str
    {n : Uuid}
    {c : Char}
    (hMem : c ∈ n.str.toList) :
    c = '-' ∨ ∃ d < 16, c = Nat.digitChar d := by
  have hDigits :
      ∀ c ∈ n.hex, c = '-' ∨ ∃ d < 16, c = Nat.digitChar d :=
    fun c hMem => Or.inr (PyText.mem_padded (by decide) hMem)
  unfold str at hMem
  simp only [String.toList_ofList, List.mem_append,
    List.mem_cons] at hMem
  rcases hMem with h | rfl | h | rfl | h | rfl | h | rfl | h
  · exact hDigits c (List.mem_of_mem_take h)
  · exact Or.inl rfl
  · exact
      hDigits c (List.mem_of_mem_drop (List.mem_of_mem_take h))
  · exact Or.inl rfl
  · exact
      hDigits c (List.mem_of_mem_drop (List.mem_of_mem_take h))
  · exact Or.inl rfl
  · exact
      hDigits c (List.mem_of_mem_drop (List.mem_of_mem_take h))
  · exact Or.inl rfl
  · exact hDigits c (List.mem_of_mem_drop h)

/- Without the hyphens the digits are left. -/
theorem filter_str (n : Uuid) :
    n.str.toList.filter (fun d => d ≠ '-') = n.hex := by
  have hDigits :
      ∀ c ∈ n.hex, c ≠ '-' := by
    intro c hMem
    rcases PyText.mem_padded (by decide) hMem with
      ⟨d, hDigit, rfl⟩
    exact (PyText.digitChar_spec hDigit).2.2.2.1
  have hKeep :
      ∀ l : List Char, (∀ c ∈ l, c ∈ n.hex) →
        l.filter (fun d => d ≠ '-') = l := by
    intro l hAll
    rw [List.filter_eq_self]
    intro c hMem
    exact decide_eq_true (hDigits c (hAll c hMem))
  unfold str
  rw [String.toList_ofList]
  simp only [List.filter_append, List.filter_cons, ne_eq,
    not_true_eq_false, decide_false, Bool.false_eq_true,
    if_false]
  rw [hKeep _ (fun c h => List.mem_of_mem_take h),
    hKeep _ (fun c h =>
      List.mem_of_mem_drop (List.mem_of_mem_take h)),
    hKeep _ (fun c h =>
      List.mem_of_mem_drop (List.mem_of_mem_take h)),
    hKeep _ (fun c h =>
      List.mem_of_mem_drop (List.mem_of_mem_take h)),
    hKeep _ (fun c h => List.mem_of_mem_drop h)]
  have hDrop :
      ∀ k m, n.hex.drop (k + m) = (n.hex.drop k).drop m := by
    intro k m
    rw [List.drop_drop]
  rw [hDrop 16 4, List.take_append_drop, hDrop 12 4,
    List.take_append_drop, hDrop 8 4, List.take_append_drop,
    List.take_append_drop]

/- The digits are read as the number. -/
theorem intHex_hex (n : Uuid) :
    PyText.intHex (String.ofList n.hex) = some (n.val : ℤ) := by
  have hChars :
      ∀ c ∈ n.hex, ∃ d < 16, c = Nat.digitChar d :=
    fun c hMem => PyText.mem_padded (by decide) hMem
  have hLiteral :
      PyText.literal (String.ofList n.hex) = n.hex := by
    unfold PyText.literal
    rw [String.toList_ofList]
    have hSame :
        n.hex.map PyText.toAscii = n.hex.map id := by
      apply List.map_congr_left
      intro c hMem
      rcases hChars c hMem with ⟨d, hDigit, rfl⟩
      exact (PyText.digitChar_spec hDigit).1
    rw [hSame, List.map_id]
    apply PyText.trim_of_ends
    intro c hMem
    rcases hChars c hMem with ⟨d, hDigit, rfl⟩
    exact (PyText.digitChar_spec hDigit).2.1
  have hUnderscore : '_' ∉ n.hex := by
    intro hMem
    rcases hChars _ hMem with ⟨d, hDigit, hC⟩
    exact (PyText.digitChar_spec hDigit).2.2.1 hC.symm
  have hValue :
      PyText.digitsValue 16 n.hex = some n.val := by
    apply PyText.digitsValue_padded (by decide) (by decide)
    exact lt_of_lt_of_eq n.isLt (by norm_num)
  rcases hCons : n.hex with _ | ⟨a, _ | ⟨b, rest⟩⟩
  · have hLength := PyText.length_padded 16 32 n.val
    change n.hex.length = 32 at hLength
    rw [hCons] at hLength
    cases hLength
  · have hLength := PyText.length_padded 16 32 n.val
    change n.hex.length = 32 at hLength
    rw [hCons] at hLength
    cases hLength
  · rcases hChars a (by simp [hCons]) with ⟨d, hD, rfl⟩
    rcases hChars b (by simp [hCons]) with ⟨e, hE, rfl⟩
    have hA := PyText.digitChar_spec hD
    have hB := PyText.digitChar_spec hE
    rw [← hCons]
    unfold PyText.intHex
    rw [hLiteral, hCons]
    have hSign :
        PyText.sign
            (Nat.digitChar d :: Nat.digitChar e :: rest) =
          (false,
            Nat.digitChar d :: Nat.digitChar e :: rest) := by
      unfold PyText.sign
      split
      · rename_i hMinus
        exact absurd (List.cons.inj hMinus).1 hA.2.2.2.1
      · rename_i hPlus
        exact absurd (List.cons.inj hPlus).1 hA.2.2.2.2.1
      · rfl
    rw [hSign]
    dsimp only
    split
    · rename_i h
      exact
        absurd (List.cons.inj (List.cons.inj h).2).1
          hB.2.2.2.2.2.1
    · rename_i h
      exact
        absurd (List.cons.inj (List.cons.inj h).2).1
          hB.2.2.2.2.2.2.1
    · rename_i h
      exact
        absurd (List.cons.inj (List.cons.inj h).2).1
          hB.2.2.2.2.2.1
    · rename_i h
      exact
        absurd (List.cons.inj (List.cons.inj h).2).1
          hB.2.2.2.2.2.2.1
    · rw [← hCons, PyText.dropUnderscores_digits _ hUnderscore]
      simp [hValue, PyText.negateIf]

/- A UUID that was written is read back. -/
theorem ofText_str (n : Uuid) :
    ofText n.str = some n := by
  have hChars :
      ∀ c ∈ n.str.toList,
        c ≠ 'u' ∧ c ≠ '{' ∧ c ≠ '}' := by
    have hAll :
        ∀ d < 16,
          Nat.digitChar d ≠ 'u' ∧ Nat.digitChar d ≠ '{' ∧
            Nat.digitChar d ≠ '}' := by
      decide +kernel
    intro c hMem
    rcases mem_str hMem with rfl | ⟨d, hDigit, rfl⟩
    · decide
    · exact hAll d hDigit
  have hNoU : 'u' ∉ n.str.toList :=
    fun hMem => (hChars _ hMem).1 rfl
  have hUrn : remove "urn:" n.str.toList = n.str.toList :=
    removeFrom_of_notMem _ hNoU
  have hUuid : remove "uuid:" n.str.toList = n.str.toList :=
    removeFrom_of_notMem _ hNoU
  have hTrim :
      PyText.trim (fun c => c = '{' || c = '}')
          n.str.toList =
        n.str.toList := by
    apply PyText.trim_of_ends
    intro c hMem
    simp [(hChars c hMem).2.1, (hChars c hMem).2.2]
  have hHyphens : remove "-" n.str.toList = n.hex := by
    rw [← filter_str n]
    exact removeFrom_char '-' _
  have hLength : n.hex.length = 32 :=
    PyText.length_padded 16 32 n.val
  unfold ofText
  rw [hUrn, hUuid]
  dsimp only
  rw [hTrim, hHyphens, if_neg (not_not_intro hLength),
    intHex_hex]
  have hRange :
      0 ≤ (n.val : ℤ) ∧ (n.val : ℤ).toNat < 2 ^ 128 := by
    rw [Int.toNat_natCast]
    exact ⟨Int.natCast_nonneg _, n.isLt⟩
  simp only [Option.bind_eq_bind, Option.bind_some]
  rw [dif_pos hRange]
  exact congrArg some (Fin.ext (Int.toNat_natCast _))

end Uuid
