import Nidra.Lib.PyText

/-
  This file writes numbers as digits, in a base up to sixteen
  and with leading zeros, or in base ten without, and proves
  that they are read back.

  Key definitions include:
    * `PyText.padded`
    * `PyText.strInt`

  Main declarations:
    * `PyText.digitsValue_padded`
    * `PyText.intDecimal_strInt`
-/

namespace PyText

------------------------------------------------------------
-- Single digits
------------------------------------------------------------

/- A digit is read as the number that it was written for. -/
theorem digitIn_digitChar
    {base d : ℕ}
    (hBase : base ≤ 16)
    (hDigit : d < base) :
    digitIn base (Nat.digitChar d) = some d := by
  have hSixteen :
      ∀ d < 16, digitIn 16 (Nat.digitChar d) = some d := by
    decide +kernel
  have hRead := hSixteen d (by omega)
  unfold digitIn at hRead ⊢
  rw [Option.filter_eq_some_iff] at hRead ⊢
  exact ⟨hRead.1, decide_eq_true hDigit⟩

/- What a digit is not. -/
theorem digitChar_spec
    {d : ℕ}
    (hDigit : d < 16) :
    let c := Nat.digitChar d
    toAscii c = c ∧ isBlank c = false ∧ c ≠ '_' ∧ c ≠ '-' ∧
      c ≠ '+' ∧ c ≠ 'x' ∧ c ≠ 'X' ∧
        (digitIn 16 c).isSome = true := by
  have hAll :
      ∀ d < 16,
        toAscii (Nat.digitChar d) = Nat.digitChar d ∧
          isBlank (Nat.digitChar d) = false ∧
          Nat.digitChar d ≠ '_' ∧ Nat.digitChar d ≠ '-' ∧
          Nat.digitChar d ≠ '+' ∧ Nat.digitChar d ≠ 'x' ∧
          Nat.digitChar d ≠ 'X' ∧
          (digitIn 16 (Nat.digitChar d)).isSome = true := by
    decide +kernel
  exact hAll d hDigit

theorem isDigit_digitChar
    {d : ℕ}
    (hDigit : d < 10) :
    isDigit (Nat.digitChar d) = true := by
  have hAll : ∀ d < 10, isDigit (Nat.digitChar d) = true := by
    decide +kernel
  exact hAll d hDigit

------------------------------------------------------------
-- Reading more digits
------------------------------------------------------------

/- Reading digits after others. -/
theorem digitsValue_concat
    {base value d : ℕ}
    (hBase : base ≤ 16)
    (hDigit : d < base)
    {digits : List Char}
    (hValue :
      (digits.mapM (digitIn base)).map
          (fun values =>
            values.foldl (fun total v => total * base + v) 0) =
        some value) :
    ((digits ++ [Nat.digitChar d]).mapM (digitIn base)).map
        (fun values =>
          values.foldl (fun total v => total * base + v) 0) =
      some (value * base + d) := by
  rw [Option.map_eq_some_iff] at hValue
  rcases hValue with ⟨values, hValues, hFold⟩
  rw [List.mapM_append, hValues]
  simp [digitIn_digitChar hBase hDigit, hFold]

------------------------------------------------------------
-- A fixed width
------------------------------------------------------------

/- The last digits of a number, with leading zeros. -/
def padded (base : ℕ) : ℕ → ℕ → List Char
  | 0, _ => []
  | width + 1, n =>
      padded base width (n / base) ++ [Nat.digitChar (n % base)]

@[simp] theorem length_padded
    (base width n : ℕ) :
    (padded base width n).length = width := by
  induction width generalizing n with
  | zero => rfl
  | succ width ih => simp [padded, ih]

/- Every character is a digit. -/
theorem mem_padded
    {base width n : ℕ}
    (hBase : 0 < base)
    {c : Char}
    (hMem : c ∈ padded base width n) :
    ∃ d < base, c = Nat.digitChar d := by
  induction width generalizing n with
  | zero => cases hMem
  | succ width ih =>
      rcases List.mem_append.mp hMem with hEarlier | hLast
      · exact ih hEarlier
      · exact
          ⟨n % base, Nat.mod_lt n hBase,
            List.mem_singleton.mp hLast⟩

/- The number is read back if it is no wider. -/
theorem digitsValue_padded
    {base width n : ℕ}
    (hBase : base ≤ 16)
    (hWidth : 0 < width)
    (hFits : n < base ^ width) :
    digitsValue base (padded base width n) = some n := by
  have hRead :
      ((padded base width n).mapM (digitIn base)).map
          (fun values =>
            values.foldl (fun total v => total * base + v) 0) =
        some n := by
    clear hWidth
    induction width generalizing n with
    | zero =>
        have hZero : n = 0 := by simpa using hFits
        rw [hZero]
        rfl
    | succ width ih =>
        have hPos : 0 < base := by
          by_contra hNot
          have hBaseZero : base = 0 := by omega
          rw [hBaseZero, Nat.zero_pow (Nat.succ_pos width)]
            at hFits
          exact absurd hFits (Nat.not_lt_zero n)
        have hQuotient : n / base < base ^ width := by
          rw [Nat.div_lt_iff_lt_mul hPos, ← pow_succ]
          exact hFits
        have hConcat :=
          digitsValue_concat hBase (Nat.mod_lt n hPos)
            (ih hQuotient)
        rw [Nat.div_add_mod'] at hConcat
        exact hConcat
  unfold digitsValue
  rw [if_neg, hRead]
  intro hNil
  have hLength := congrArg List.length hNil
  rw [length_padded] at hLength
  exact absurd hLength hWidth.ne'

------------------------------------------------------------
-- Integers in base ten
------------------------------------------------------------

/-
  The text of an integer. One with more digits than a text
  may have cannot be written.
-/
def strInt (n : ℤ) : Option String :=
  if maxStrDigits < (Nat.toDigits 10 n.natAbs).length then none
  else some (toString n)

theorem mem_toDigits
    {n : ℕ}
    {c : Char}
    (hMem : c ∈ Nat.toDigits 10 n) :
    ∃ d < 10, c = Nat.digitChar d := by
  induction n using Nat.strong_induction_on with
  | _ n ih =>
      rcases Nat.lt_or_ge n 10 with hLt | hGe
      · rw [Nat.toDigits_of_lt_base hLt] at hMem
        exact ⟨n, hLt, List.mem_singleton.mp hMem⟩
      · rw [Nat.toDigits_of_base_le (by decide) hGe] at hMem
        rcases List.mem_append.mp hMem with hEarlier | hLast
        · exact ih (n / 10) (by omega) hEarlier
        · exact
            ⟨n % 10, Nat.mod_lt n (by decide),
              List.mem_singleton.mp hLast⟩

theorem digitsValue_toDigits (n : ℕ) :
    digitsValue 10 (Nat.toDigits 10 n) = some n := by
  have hRead :
      ((Nat.toDigits 10 n).mapM (digitIn 10)).map
          (fun values =>
            values.foldl (fun total v => total * 10 + v) 0) =
        some n := by
    induction n using Nat.strong_induction_on with
    | _ n ih =>
        rcases Nat.lt_or_ge n 10 with hLt | hGe
        · rw [Nat.toDigits_of_lt_base hLt]
          simp [digitIn_digitChar (by decide : 10 ≤ 16) hLt]
        · have hConcat :=
            digitsValue_concat (by decide)
              (Nat.mod_lt n (by decide : 0 < 10))
              (ih (n / 10) (by omega))
          rw [Nat.div_add_mod'] at hConcat
          rw [Nat.toDigits_of_base_le (by decide) hGe]
          exact hConcat
  unfold digitsValue
  rw [if_neg Nat.toDigits_ne_nil, hRead]

/- Nothing is dropped from digits. -/
theorem dropUnderscores_digits
    {digits : List Char}
    (digit : Char → Bool)
    (hNone : '_' ∉ digits) :
    dropUnderscores digit digits = some digits := by
  have hFrom :
      ∀ after,
        dropUnderscoresFrom digit after digits = some digits := by
    induction digits with
    | nil => exact fun _ => rfl
    | cons c rest ih =>
        intro after
        rw [List.mem_cons, not_or] at hNone
        rw [dropUnderscoresFrom, ih hNone.2]
        · rfl
        · exact fun hC => hNone.1 hC.symm
  exact hFrom false

/- Nor is anything trimmed. -/
theorem trim_of_ends
    {p : Char → Bool}
    {text : List Char}
    (hNone : ∀ c ∈ text, p c = false) :
    trim p text = text := by
  have hDrop :
      ∀ l : List Char, (∀ c ∈ l, p c = false) →
        l.dropWhile p = l := by
    intro l hAll
    cases l with
    | nil => rfl
    | cons c rest =>
        rw [List.dropWhile_cons_of_neg]
        rw [hAll c List.mem_cons_self]
        exact Bool.false_ne_true
  unfold trim
  rw [hDrop text hNone, hDrop text.reverse]
  · exact List.reverse_reverse text
  · intro c hMem
    exact hNone c (List.mem_reverse.mp hMem)

/- The characters of an integer. -/
theorem toList_toString (n : ℤ) :
    (toString n).toList =
      if n < 0 then '-' :: Nat.toDigits 10 n.natAbs
      else Nat.toDigits 10 n.natAbs := by
  cases n with
  | ofNat n =>
      rw [if_neg (by simp)]
      exact Nat.toList_repr
  | negSucc n =>
      rw [if_pos (Int.negSucc_lt_zero n)]
      change ("-" ++ toString (n + 1)).toList = _
      rw [String.toList_append]
      exact congrArg (List.cons '-') Nat.toList_repr

theorem literal_toString (n : ℤ) :
    literal (toString n) = (toString n).toList := by
  have hChars :
      ∀ c ∈ (toString n).toList,
        toAscii c = c ∧ isBlank c = false := by
    have hDigits :
        ∀ c ∈ Nat.toDigits 10 n.natAbs,
          toAscii c = c ∧ isBlank c = false := by
      intro c hMem
      rcases mem_toDigits hMem with ⟨d, hDigit, rfl⟩
      have hSpec := digitChar_spec (by omega : d < 16)
      exact ⟨hSpec.1, hSpec.2.1⟩
    rw [toList_toString]
    split_ifs with hNegative
    · intro c hMem
      rcases List.mem_cons.mp hMem with rfl | hRest
      · decide +kernel
      · exact hDigits c hRest
    · exact hDigits
  have hAscii :
      (toString n).toList.map toAscii = (toString n).toList := by
    have hSame :=
      List.map_congr_left (fun c hMem => (hChars c hMem).1)
    rw [hSame]
    exact List.map_id _
  unfold literal
  rw [hAscii]
  exact trim_of_ends (fun c hMem => (hChars c hMem).2)

theorem sign_toString (n : ℤ) :
    sign (toString n).toList =
      (decide (n < 0), Nat.toDigits 10 n.natAbs) := by
  rw [toList_toString]
  split_ifs with hNegative
  · simp [sign, hNegative]
  · have hNeither :
        ∀ c ∈ Nat.toDigits 10 n.natAbs, c ≠ '-' ∧ c ≠ '+' := by
      intro c hMem
      rcases mem_toDigits hMem with ⟨d, hDigit, rfl⟩
      have hSpec := digitChar_spec (by omega : d < 16)
      exact ⟨hSpec.2.2.2.1, hSpec.2.2.2.2.1⟩
    cases hDigits : Nat.toDigits 10 n.natAbs with
    | nil => exact absurd hDigits Nat.toDigits_ne_nil
    | cons c rest =>
        rw [hDigits] at hNeither
        have hC := hNeither c List.mem_cons_self
        unfold sign
        split
        · rename_i hMinus
          exact absurd (List.cons.inj hMinus).1 hC.1
        · rename_i hPlus
          exact absurd (List.cons.inj hPlus).1 hC.2
        · simp [hNegative]

/- An integer that was written is read back. -/
theorem intDecimal_strInt
    {n : ℤ}
    {text : String}
    (hText : strInt n = some text) :
    intDecimal text = some n := by
  unfold strInt at hText
  split_ifs at hText with hLong
  cases hText
  have hNone : '_' ∉ Nat.toDigits 10 n.natAbs := by
    intro hMem
    rcases mem_toDigits hMem with ⟨d, hDigit, hC⟩
    exact
      (digitChar_spec (by omega : d < 16)).2.2.1 hC.symm
  unfold intDecimal
  rw [literal_toString, sign_toString]
  dsimp only
  rw [dropUnderscores_digits _ hNone]
  simp only [Option.bind_eq_bind, Option.bind_some]
  rw [if_neg hLong, digitsValue_toDigits]
  simp only [Option.bind_some, Option.pure_def]
  unfold negateIf
  rw [Option.some.injEq]
  split_ifs with hNegative
  · have hNeg := of_decide_eq_true hNegative
    omega
  · have hNot : ¬ n < 0 := by simpa using hNegative
    omega

end PyText
