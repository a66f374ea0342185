import Nidra.Data.CtuLoad
import Nidra.Flows.Assemble

/-
  This file says when the two readings that look at a column
  as a whole, of TCP flags and of source addresses, make of
  each row what they make of it alone.

  Key definitions include:
    * `hexAlone`, `ownNumber`, `flagsAlone`
    * `HexAlike`, `DecimalAlike`, `FlagsAlike`

  Main declarations:
    * `rowWise_decodeFlagBits_iff`
    * `columns_rowWise_iff`
-/

namespace Nidra

namespace Flows

section Flags

variable (reader : NumericReader)

------------------------------------------------------------
-- Hexadecimal texts
------------------------------------------------------------

/- The flags of a text that is read as hexadecimal, alone. -/
def hexAlone (text : Option String) : Option (Flag → Bool) :=
  ((hexFlags text).bind wrapInt64).map bitsOf

/- The flags of a column that is read as hexadecimal. -/
def hexBits
    (flags : List (Option String)) :
    Option (List (Flag → Bool)) :=
  ((flags.mapM hexFlags).bind int64Column).map
    (List.map bitsOf)

/-
  A column with a hexadecimal number below zero and one that
  only fits into 64 bits without a sign. Reading it raises.
-/
def HexMixes (flags : List (Option String)) : Prop :=
  mixesSigns (flags.filterMap hexFlags) = true

theorem filterMap_of_mapM
    {flags : List (Option String)}
    {values : List ℤ}
    (hValues : flags.mapM hexFlags = some values) :
    flags.filterMap hexFlags = values := by
  induction flags generalizing values with
  | nil =>
      rw [List.mapM_nil] at hValues
      cases hValues
      rfl
  | cons text flags ih =>
      rw [List.mapM_cons, Option.bind_eq_bind,
        Option.bind_eq_some_iff] at hValues
      rcases hValues with ⟨value, hText, hRest⟩
      rw [Option.bind_eq_bind, Option.bind_eq_some_iff]
        at hRest
      rcases hRest with ⟨rest, hFlags, hBoth⟩
      cases hBoth
      rw [List.filterMap_cons_some hText, ih hFlags]

/- Other columns are read text by text. -/
theorem hexBits_eq
    {flags : List (Option String)}
    (hMixes : ¬ HexMixes flags) :
    hexBits flags = flags.mapM hexAlone := by
  have hAlone :
      flags.mapM hexAlone =
        ((flags.mapM hexFlags).bind (fun values =>
          values.mapM wrapInt64)).map (List.map bitsOf) := by
    rw [mapM_bind_mapM, map_mapM_option]
    rfl
  rw [hAlone]
  unfold hexBits
  cases hValues : flags.mapM hexFlags with
  | none => rfl
  | some values =>
      unfold HexMixes at hMixes
      rw [filterMap_of_mapM hValues] at hMixes
      rw [Option.bind_some, Option.bind_some, int64Column_eq,
        if_neg hMixes]

theorem hexBits_of_mixes
    {flags : List (Option String)}
    (hMixes : HexMixes flags) :
    hexBits flags = none := by
  unfold hexBits
  cases hValues : flags.mapM hexFlags with
  | none => rfl
  | some values =>
      unfold HexMixes at hMixes
      rw [filterMap_of_mapM hValues] at hMixes
      rw [Option.bind_some, int64Column_eq, if_pos hMixes]
      rfl

/- A text that is none by itself is none in a column. -/
theorem hexBits_eq_none
    {flags : List (Option String)}
    {text : Option String}
    (hMem : text ∈ flags)
    (hNone : hexAlone text = none) :
    hexBits flags = none := by
  by_cases hMixes : HexMixes flags
  · exact hexBits_of_mixes hMixes
  · rw [hexBits_eq hMixes]
    exact mapM_eq_none_iff.mpr ⟨text, hMem, hNone⟩

/- Two numbers are needed to mix signs. -/
theorem not_hexMixes_singleton
    (text : Option String) :
    ¬ HexMixes [text] := by
  intro hMixes
  rcases mixesSigns_iff.mp hMixes with
    ⟨⟨m, hM, hBelow⟩, n, hN, hAbove⟩
  have hSame : m = n := by
    cases hText : hexFlags text with
    | none => simp [hText] at hM
    | some value =>
        rw [List.filterMap_cons_some hText,
          List.filterMap_nil, List.mem_singleton] at hM hN
        rw [hM, hN]
  omega

------------------------------------------------------------
-- One flags text
------------------------------------------------------------

/- A text as a number when it is the whole column. -/
def ownNumber (text : Option String) : Option Int64 :=
  flagNumber reader (flagKind reader [text]) text

/-
  The flags of a text that is alone: those of the number it
  is, or else of the number it is in hexadecimal.
-/
def flagsAlone (text : Option String) : Option (Flag → Bool) :=
  (ownNumber reader text).bind (fun value =>
    if value = 0 then hexAlone text else some (bitsOf value))

theorem hexFlags_none : hexFlags none = some 0 := by
  decide +kernel

theorem hexAlone_none : hexAlone none = some (bitsOf 0) := by
  unfold hexAlone
  rw [hexFlags_none]
  rfl

/- A text that is zero is read in hexadecimal. -/
theorem flagsAlone_of_zero
    {text : Option String}
    (hOwn : ownNumber reader text = some 0) :
    flagsAlone reader text = hexAlone text := by
  unfold flagsAlone
  rw [hOwn]
  rfl

theorem flagsAlone_of_ne_zero
    {text : Option String}
    (hOwn : ownNumber reader text ≠ some 0) :
    flagsAlone reader text =
      (ownNumber reader text).map bitsOf := by
  unfold flagsAlone
  cases hNumber : ownNumber reader text with
  | none => rfl
  | some value =>
      have hNonzero : value ≠ 0 := by
        intro hValue
        exact hOwn (by rw [hNumber, hValue])
      rw [Option.bind_some, if_neg hNonzero]
      rfl

/- A column of missing values has no flag. -/
theorem hexBits_of_missing
    {flags : List (Option String)}
    (hMissing : ∀ text ∈ flags, text = none) :
    hexBits flags = some (flags.map (fun _ => bitsOf 0)) := by
  have hMixes : ¬ HexMixes flags := by
    intro hMixes
    rcases mixesSigns_iff.mp hMixes with
      ⟨⟨m, hM, hBelow⟩, _⟩
    rcases List.mem_filterMap.mp hM with ⟨text, hMem, hText⟩
    rw [hMissing text hMem, hexFlags_none] at hText
    cases hText
    cases hBelow
  rw [hexBits_eq hMixes]
  apply mapM_eq_some_map_iff.mpr
  intro text hMem
  rw [hMissing text hMem]
  exact hexAlone_none

/-
  The column is read in hexadecimal when no text of it is a
  number other than zero.
-/
theorem decodeFlagBits_eq
    (flags : List (Option String)) :
    decodeFlagBits reader flags =
      (flags.mapM
        (flagNumber reader (flagKind reader flags))).bind
          (fun asInt =>
            if asInt.all (fun value => value = 0) then
              hexBits flags
            else some (asInt.map bitsOf)) := by
  unfold decodeFlagBits flagValues
  cases hAsInt : flags.mapM
      (flagNumber reader (flagKind reader flags)) with
  | none => rfl
  | some asInt =>
      rw [Option.bind_eq_bind, Option.bind_some,
        Option.bind_some]
      by_cases hZero :
          asInt.all (fun value => value = 0) = true
      · rw [if_pos hZero, hZero, Bool.true_and]
        by_cases hSome : flags.any Option.isSome = true
        · rw [if_pos hSome]
          rfl
        · -- A column of missing values only.
          rw [if_neg hSome]
          have hMissing : ∀ text ∈ flags, text = none := by
            intro text hMem
            cases text with
            | none => rfl
            | some text =>
                exact
                  absurd
                    (List.any_eq_true.mpr ⟨_, hMem, rfl⟩)
                    hSome
          have hZeros :
              asInt = List.replicate flags.length 0 := by
            rw [← List.length_of_mapM_some hAsInt]
            apply List.eq_replicate_of_mem
            intro value hMem
            exact
              of_decide_eq_true
                (List.all_eq_true.mp hZero value hMem)
          rw [hexBits_of_missing hMissing, hZeros]
          simp
      · have hFalse :
            asInt.all (fun value => value = 0) = false := by
          simpa using hZero
        rw [if_neg hZero, hFalse, Bool.false_and]
        rfl

theorem alone_decodeFlagBits
    (text : Option String) :
    alone (decodeFlagBits reader) text =
      flagsAlone reader text := by
  unfold alone flagsAlone ownNumber
  rw [decodeFlagBits_eq, List.mapM_cons, List.mapM_nil]
  cases flagNumber reader (flagKind reader [text]) text with
  | none => rfl
  | some value =>
      change
        ((if [value].all (fun value => value = 0) then
          hexBits [text]
        else some [bitsOf value]).bind List.head?) =
          if value = 0 then hexAlone text
          else some (bitsOf value)
      by_cases hZero : value = 0
      · rw [if_pos (by simpa using hZero), if_pos hZero,
          hexBits_eq (not_hexMixes_singleton text)]
        exact mapM_singleton_bind_head? _ text
      · rw [if_neg (by simpa using hZero), if_neg hZero]
        rfl

------------------------------------------------------------
-- Any column of flags
------------------------------------------------------------

/-
  Texts that are read as hexadecimal, as they are when each
  is alone: one of them raises then, too, or the signs are
  not mixed and a text that is a number by itself has the
  same flags in hexadecimal.
-/
def HexAlike (flags : List (Option String)) : Prop :=
  (∃ text ∈ flags, flagsAlone reader text = none) ∨
    (¬ HexMixes flags ∧
      ∀ text ∈ flags,
        ownNumber reader text ≠ some 0 →
          hexAlone text =
            (ownNumber reader text).map bitsOf)

/-
  Texts that are read as numbers, as they are when each is
  alone: one that is no number other than zero has the same
  flags in hexadecimal, and one that is an integer keeps its
  flags if the column is one of floats.
-/
def DecimalAlike (flags : List (Option String)) : Prop :=
  let inColumn := flagNumber reader (flagKind reader flags)
  ∀ text ∈ flags,
    (ownNumber reader text = some 0 →
      hexAlone text = (inColumn text).map bitsOf) ∧
    (ownNumber reader text ≠ some 0 →
      ¬ (reader.cell text).IsExact →
        (ownNumber reader text).map bitsOf =
          (inColumn text).map bitsOf)

/-
  An infinity raises in any column. Else the texts are read
  as hexadecimal or as numbers, whatever the whole column
  says.
-/
def FlagsAlike (flags : List (Option String)) : Prop :=
  let inColumn := flagNumber reader (flagKind reader flags)
  (∃ text ∈ flags, ∃ negative,
      reader.cell text = .float (.inf negative)) ∨
    ((∀ text ∈ flags, inColumn text = some 0) ∧
      HexAlike reader flags) ∨
    ((∃ text ∈ flags, inColumn text ≠ some 0) ∧
      DecimalAlike reader flags)

theorem hexAlike_iff
    {flags : List (Option String)}
    (hFinite :
      ∀ text ∈ flags, ownNumber reader text ≠ none) :
    hexBits flags = flags.mapM (flagsAlone reader) ↔
      HexAlike reader flags := by
  by_cases hRaises :
      ∃ text ∈ flags, flagsAlone reader text = none
  · refine iff_of_true ?_ (Or.inl hRaises)
    rw [mapM_eq_none_iff.mpr hRaises]
    rcases hRaises with ⟨text, hMem, hNone⟩
    -- It is no number, or else it had flags by itself.
    have hOwn : ownNumber reader text = some 0 := by
      by_contra hNot
      rw [flagsAlone_of_ne_zero reader hNot,
        Option.map_eq_none_iff] at hNone
      exact hFinite text hMem hNone
    rw [flagsAlone_of_zero reader hOwn] at hNone
    exact hexBits_eq_none hMem hNone
  · unfold HexAlike
    rw [or_iff_right hRaises]
    have hSome :
        flags.mapM (flagsAlone reader) ≠ none := by
      intro hNone
      exact hRaises (mapM_eq_none_iff.mp hNone)
    constructor
    · intro hSame
      have hMixes : ¬ HexMixes flags := by
        intro hMixes
        rw [hexBits_of_mixes hMixes] at hSame
        exact hSome hSame.symm
      refine ⟨hMixes, ?_⟩
      intro text hMem hOwn
      rw [hexBits_eq hMixes] at hSame
      rw [← flagsAlone_of_ne_zero reader hOwn]
      exact eq_of_mapM_eq hSame hSome text hMem
    · rintro ⟨hMixes, hOwns⟩
      rw [hexBits_eq hMixes]
      apply mapM_congr_of_mem
      intro text hMem
      by_cases hOwn : ownNumber reader text = some 0
      · rw [flagsAlone_of_zero reader hOwn]
      · rw [flagsAlone_of_ne_zero reader hOwn]
        exact hOwns text hMem hOwn

theorem decimalAlike_iff
    {flags : List (Option String)}
    {asInt : List Int64}
    (hAsInt :
      flags.mapM
          (flagNumber reader (flagKind reader flags)) =
        some asInt) :
    some (asInt.map bitsOf) =
        flags.mapM (flagsAlone reader) ↔
      DecimalAlike reader flags := by
  have hColumn :
      some (asInt.map bitsOf) =
        flags.mapM (fun text =>
          (flagNumber reader (flagKind reader flags)
            text).map bitsOf) := by
    rw [← map_mapM_option, hAsInt]
    rfl
  have hRow : ∀ text ∈ flags,
      ((flagNumber reader (flagKind reader flags) text).map
          bitsOf = flagsAlone reader text ↔
        (ownNumber reader text = some 0 →
          hexAlone text =
            (flagNumber reader (flagKind reader flags)
              text).map bitsOf) ∧
        (ownNumber reader text ≠ some 0 →
          ¬ (reader.cell text).IsExact →
            (ownNumber reader text).map bitsOf =
              (flagNumber reader (flagKind reader flags)
                text).map bitsOf)) := by
    intro text hMem
    by_cases hOwn : ownNumber reader text = some 0
    · rw [flagsAlone_of_zero reader hOwn]
      constructor
      · intro hSame
        exact
          ⟨fun _ => hSame.symm, fun hNot => absurd hOwn hNot⟩
      · intro hBoth
        exact (hBoth.1 hOwn).symm
    · rw [flagsAlone_of_ne_zero reader hOwn]
      constructor
      · intro hSame
        exact ⟨fun hZero => absurd hZero hOwn,
          fun _ _ => hSame.symm⟩
      · intro hBoth
        by_cases hExact : (reader.cell text).IsExact
        · have hEqual :=
            hExact.toInt64_eq reader.overflow
              (flagKind reader flags) (flagKind reader [text])
          exact congrArg (Option.map bitsOf) hEqual
        · exact (hBoth.2 hOwn hExact).symm
  rw [hColumn]
  constructor
  · intro hSame text hMem
    have hSome :
        flags.mapM (flagsAlone reader) ≠ none := by
      rw [← hSame, ← hColumn]
      exact Option.some_ne_none _
    exact
      (hRow text hMem).mp (eq_of_mapM_eq hSame hSome text hMem)
  · intro hAlike
    apply mapM_congr_of_mem
    intro text hMem
    exact (hRow text hMem).mpr (hAlike text hMem)

/- A column of zeros. -/
theorem all_zero_iff
    {flags : List (Option String)}
    {number : Option String → Option Int64}
    {asInt : List Int64}
    (hAsInt : flags.mapM number = some asInt) :
    asInt.all (fun value => value = 0) = true ↔
      ∀ text ∈ flags, number text = some 0 := by
  rw [List.all_eq_true]
  constructor
  · intro hAll text hMem
    rcases List.mem_iff_getElem?.mp hMem with ⟨i, hText⟩
    have hValue := getElem?_of_mapM_some hAsInt i
    rw [hText, Option.bind_some] at hValue
    have hSome : number text ≠ none := by
      intro hNone
      have hAny := mapM_eq_none_iff.mpr ⟨text, hMem, hNone⟩
      rw [hAsInt] at hAny
      cases hAny
    rcases Option.ne_none_iff_exists'.mp hSome with
      ⟨value, hNumber⟩
    rw [hNumber] at hValue
    have hZero := hAll value (List.mem_of_getElem? hValue)
    rw [hNumber, of_decide_eq_true hZero]
  · intro hAll value hMem
    rcases List.mem_iff_getElem?.mp hMem with ⟨i, hValue⟩
    have hText := getElem?_of_mapM_some hAsInt i
    rw [hValue, eq_comm, Option.bind_eq_some_iff] at hText
    rcases hText with ⟨text, hAt, hNumber⟩
    rw [hAll text (List.mem_of_getElem? hAt)] at hNumber
    cases hNumber
    rfl

/- When flags are read as if each text were alone. -/
theorem rowWise_decodeFlagBits_iff
    (flags : List (Option String)) :
    RowWise (decodeFlagBits reader) flags ↔
      FlagsAlike reader flags := by
  have hRows :
      flags.mapM (alone (decodeFlagBits reader)) =
        flags.mapM (flagsAlone reader) :=
    mapM_congr_of_mem
      (fun text _ => alone_decodeFlagBits reader text)
  unfold RowWise FlagsAlike
  rw [hRows, decodeFlagBits_eq]
  by_cases hInfinite :
      ∃ text ∈ flags, ∃ negative,
        reader.cell text = .float (.inf negative)
  · refine iff_of_true ?_ (Or.inl hInfinite)
    rcases hInfinite with ⟨text, hMem, hCell⟩
    have hColumn :
        flags.mapM
            (flagNumber reader (flagKind reader flags)) =
          none :=
      mapM_eq_none_iff.mpr
        ⟨text, hMem, Reading.toInt64_eq_none_iff.mpr hCell⟩
    have hOwn : ownNumber reader text = none :=
      Reading.toInt64_eq_none_iff.mpr hCell
    have hAlone : flags.mapM (flagsAlone reader) = none := by
      refine mapM_eq_none_iff.mpr ⟨text, hMem, ?_⟩
      unfold flagsAlone
      rw [hOwn]
      rfl
    rw [hColumn, hAlone]
    rfl
  · have hFinite : ∀ text ∈ flags, ∀ kind,
        flagNumber reader kind text ≠ none := by
      intro text hMem kind hNone
      exact hInfinite
        ⟨text, hMem, Reading.toInt64_eq_none_iff.mp hNone⟩
    rw [or_iff_right hInfinite]
    cases hAsInt : flags.mapM
        (flagNumber reader (flagKind reader flags)) with
    | none =>
        exfalso
        rcases mapM_eq_none_iff.mp hAsInt with
          ⟨text, hMem, hNone⟩
        exact hFinite text hMem _ hNone
    | some asInt =>
        have hZero :
            asInt.all (fun value => value = 0) = true ↔
              ∀ text ∈ flags,
                flagNumber reader (flagKind reader flags)
                  text = some 0 :=
          all_zero_iff hAsInt
        rw [Option.bind_some]
        by_cases hAll :
            asInt.all (fun value => value = 0) = true
        · have hZeros := hZero.mp hAll
          rw [if_pos hAll, and_iff_right hZeros,
            or_iff_left]
          · exact
              hexAlike_iff reader
                (fun text hMem => hFinite text hMem _)
          · rintro ⟨⟨text, hMem, hNonzero⟩, _⟩
            exact hNonzero (hZeros text hMem)
        · have hNot := hAll
          rw [hZero] at hNot
          have hSome := hNot
          push Not at hSome
          rw [if_neg hAll,
            or_iff_right (fun h => hNot h.1),
            and_iff_right hSome]
          exact decimalAlike_iff reader hAsInt

end Flags

------------------------------------------------------------
-- Both columns
------------------------------------------------------------

/- The network 147.32.0.0/16. -/
def campus : Data.Network :=
  { networkAddress := 147 * 2 ^ 24 + 32 * 2 ^ 16
    hostBits := 16
    bits_le := by decide }

/- A part that is a float keeps the sum from wrapping. -/
example :
    ¬ RowWise
      (fun ips =>
        some (Data.inAnyCidr (.decimal false) [campus] ips))
      [some "1099511627923.32.84.165",
        some "1e2.0.0.0"] := by
  decide +kernel

end Flows

end Nidra
