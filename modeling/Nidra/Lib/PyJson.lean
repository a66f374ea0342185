import Nidra.Lib.PyDigits

/-
  This file writes lists of texts as JSON, in ASCII, and
  reads them back.

  Key definitions include:
    * `PyJson.escapeChar`, `PyJson.dumps`
    * `PyJson.readUnits`, `PyJson.combine`
    * `PyJson.loads`

  Main declarations:
    * `PyJson.readText_dumpsText`
    * `PyJson.loads_dumps`
-/

namespace PyJson

------------------------------------------------------------
-- Writing
------------------------------------------------------------

/- A code unit as an escape. -/
def escapeUnit (n : ℕ) : List Char :=
  '\\' :: 'u' :: PyText.padded 16 4 n

/-
  The code units of a character: one, or a pair beyond the
  first plane.
-/
def units (c : Char) : List ℕ :=
  let n := c.toNat
  if n < 0x10000 then [n]
  else
    [0xD800 + (n - 0x10000) / 0x400,
      0xDC00 + (n - 0x10000) % 0x400]

/- The letters that stand for some characters. -/
def letters : List (Char × Char) :=
  [('"', '"'), ('\\', '\\'), ('\n', 'n'), ('\r', 'r'),
    ('\t', 't'), ('\x0c', 'f'), ('\x08', 'b')]

def letterOf (c : Char) : Option Char :=
  letters.lookup c

/- A character of a JSON text. -/
def escapeChar (c : Char) : List Char :=
  match letterOf c with
  | some letter => ['\\', letter]
  | none =>
      if ' ' ≤ c ∧ c ≤ '~' then [c]
      else (units c).flatMap escapeUnit

/- A text between quotes. -/
def dumpsText (text : String) : List Char :=
  '"' :: (text.toList.flatMap escapeChar ++ ['"'])

/- The rest of a list, with a separator before each text. -/
def dumpsRest : List String → List Char
  | [] => [']']
  | text :: rest =>
      ',' :: ' ' :: (dumpsText text ++ dumpsRest rest)

def dumps : List String → String
  | [] => "[]"
  | text :: rest =>
      String.ofList ('[' :: (dumpsText text ++ dumpsRest rest))

------------------------------------------------------------
-- Reading
------------------------------------------------------------

/- What the next character of a text belongs to. -/
inductive Mode where
  | plain
  | escape
  | hex (left value : ℕ)

/- What a letter after a backslash stands for. -/
def escaped (letter : Char) : Option ℕ :=
  if letter = '/' then some '/'.toNat
  else
    (letters.find? (fun entry => entry.2 = letter)).map
      (fun entry => entry.1.toNat)

/-
  The code units up to the closing quote, and what follows
  it. Control characters have to be escaped.
-/
def readUnits : Mode → List Char → Option (List ℕ × List Char)
  | _, [] => none
  | .plain, c :: rest =>
      if c = '"' then some ([], rest)
      else if c = '\\' then readUnits .escape rest
      else if c.toNat < 0x20 then none
      else
        (readUnits .plain rest).map
          (fun read => (c.toNat :: read.1, read.2))
  | .escape, c :: rest =>
      if c = 'u' then readUnits (.hex 4 0) rest
      else
        match escaped c with
        | none => none
        | some n =>
            (readUnits .plain rest).map
              (fun read => (n :: read.1, read.2))
  | .hex left value, c :: rest =>
      match PyText.digitIn 16 c with
      | none => none
      | some d =>
          if left ≤ 1 then
            (readUnits .plain rest).map
              (fun read =>
                ((value * 16 + d) :: read.1, read.2))
          else readUnits (.hex (left - 1) (value * 16 + d)) rest

def isHigh (n : ℕ) : Bool :=
  0xD800 ≤ n && n < 0xDC00

def isLow (n : ℕ) : Bool :=
  0xDC00 ≤ n && n < 0xE000

/-
  The characters of code units. Half a pair is no character,
  so that a text with one is not read here.
-/
def combine : List ℕ → Option (List Char)
  | [] => some []
  | [n] =>
      if isHigh n || isLow n then none
      else some [Char.ofNat n]
  | n :: low :: rest =>
      if isHigh n && isLow low then
        (combine rest).map
          (fun chars =>
            Char.ofNat
                (0x10000 + (n - 0xD800) * 0x400 +
                  (low - 0xDC00)) ::
              chars)
      else if isHigh n || isLow n then none
      else
        (combine (low :: rest)).map
          (fun chars => Char.ofNat n :: chars)

/- A text between quotes, and what follows it. -/
def readText : List Char → Option (String × List Char)
  | '"' :: rest => do
      let read ← readUnits .plain rest
      let chars ← combine read.1
      return (String.ofList chars, read.2)
  | _ => none

def isWhitespace (c : Char) : Bool :=
  c = ' ' || c = '\t' || c = '\n' || c = '\r'

def skip (text : List Char) : List Char :=
  text.dropWhile isWhitespace

/-
  The texts of a list after its bracket, and what follows
  it. Each has a character of its own, so that the length of
  what is read is fuel enough.
-/
def readItems : ℕ → List Char → Option (List String × List Char)
  | 0, _ => none
  | fuel + 1, text => do
      let read ← readText (skip text)
      match skip read.2 with
      | ']' :: rest => return ([read.1], rest)
      | ',' :: rest =>
          let others ← readItems fuel rest
          return (read.1 :: others.1, others.2)
      | _ => none

/- All texts after the bracket of a list, or none. -/
def readArray
    (fuel : ℕ)
    (text : List Char) : Option (List String × List Char) :=
  match skip text with
  | ']' :: rest => some ([], rest)
  | _ => readItems fuel text

/- The texts of a JSON list of texts. -/
def loads (text : String) : Option (List String) :=
  match skip text.toList with
  | '[' :: rest => do
      let read ← readArray text.toList.length rest
      if skip read.2 = [] then some read.1 else none
  | _ => none

------------------------------------------------------------
-- Code units
------------------------------------------------------------

/- No character is half a pair. -/
theorem toNat_range (c : Char) :
    c.toNat < 0xD800 ∨
      (0xDFFF < c.toNat ∧ c.toNat < 0x110000) :=
  c.valid

theorem combine_units
    (c : Char)
    (rest : List ℕ) :
    combine (units c ++ rest) =
      (combine rest).map (fun chars => c :: chars) := by
  have hRange := toNat_range c
  unfold units
  dsimp only
  split_ifs with hPlane
  · have hHigh : isHigh c.toNat = false := by
      unfold isHigh
      rw [Bool.and_eq_false_iff]
      rcases hRange with hLow | hUp
      · left
        simpa using hLow
      · right
        simp
        omega
    have hLow : isLow c.toNat = false := by
      unfold isLow
      rw [Bool.and_eq_false_iff]
      rcases hRange with hLow | hUp
      · left
        simp
        omega
      · right
        simp
        omega
    cases rest with
    | nil => simp [combine, hHigh, hLow]
    | cons low rest => simp [combine, hHigh, hLow]
  · have hHigh :
        isHigh (0xD800 + (c.toNat - 0x10000) / 0x400) =
          true := by
      simp only [isHigh, Bool.and_eq_true, decide_eq_true_eq]
      omega
    have hLow :
        isLow (0xDC00 + (c.toNat - 0x10000) % 0x400) =
          true := by
      simp only [isLow, Bool.and_eq_true, decide_eq_true_eq]
      omega
    have hSame :
        0x10000 +
            (0xD800 + (c.toNat - 0x10000) / 0x400 - 0xD800) *
              0x400 +
            (0xDC00 + (c.toNat - 0x10000) % 0x400 - 0xDC00) =
          c.toNat := by
      omega
    rw [List.cons_append, List.cons_append, List.nil_append,
      combine, hHigh, hLow, hSame]
    simp

theorem combine_flatMap (chars : List Char) :
    combine (chars.flatMap units) = some chars := by
  induction chars with
  | nil => rfl
  | cons c rest ih =>
      rw [List.flatMap_cons, combine_units, ih]
      rfl

------------------------------------------------------------
-- Texts
------------------------------------------------------------

/- An escaped unit is read as the unit. -/
theorem readUnits_escapeUnit
    {n : ℕ}
    (hUnit : n < 0x10000)
    (rest : List Char) :
    readUnits .plain (escapeUnit n ++ rest) =
      (readUnits .plain rest).map
        (fun read => (n :: read.1, read.2)) := by
  have hDigit :
      ∀ m, PyText.digitIn 16 (Nat.digitChar (m % 16)) =
        some (m % 16) :=
    fun m =>
      PyText.digitIn_digitChar le_rfl (Nat.mod_lt m (by decide))
  have hValue :
      (((0 * 16 + n / 16 / 16 / 16 % 16) * 16 +
            n / 16 / 16 % 16) * 16 +
          n / 16 % 16) * 16 +
        n % 16 = n := by
    omega
  unfold escapeUnit
  simp only [PyText.padded, List.nil_append, List.cons_append,
    readUnits, hDigit, hValue]
  simp

theorem readUnits_escapeUnits
    {codes : List ℕ}
    (hUnits : ∀ n ∈ codes, n < 0x10000)
    (rest : List Char) :
    readUnits .plain (codes.flatMap escapeUnit ++ rest) =
      (readUnits .plain rest).map
        (fun read => (codes ++ read.1, read.2)) := by
  induction codes with
  | nil => simp
  | cons n codes ih =>
      rw [List.flatMap_cons, List.append_assoc,
        readUnits_escapeUnit (hUnits n List.mem_cons_self),
        ih (fun m hMem => hUnits m (List.mem_cons_of_mem n hMem))]
      cases readUnits .plain rest <;> rfl

theorem units_lt
    (c : Char)
    {n : ℕ}
    (hMem : n ∈ units c) :
    n < 0x10000 := by
  have hRange := toNat_range c
  unfold units at hMem
  dsimp only at hMem
  split_ifs at hMem with hPlane
  · rw [List.mem_singleton] at hMem
    omega
  · simp only [List.mem_cons, List.not_mem_nil, or_false]
      at hMem
    omega

/- A letter is read as the character that it stands for. -/
theorem readUnits_letter
    {c letter : Char}
    (hLetter : letterOf c = some letter)
    (rest : List Char) :
    readUnits .plain ('\\' :: letter :: rest) =
      (readUnits .plain rest).map
        (fun read => (c.toNat :: read.1, read.2)) := by
  have hAll :
      ∀ entry ∈ letters,
        entry.2 ≠ 'u' ∧
          escaped entry.2 = some entry.1.toNat := by
    decide +kernel
  have hMem : (c, letter) ∈ letters := by
    rw [letterOf, List.lookup_eq_some_iff] at hLetter
    rcases hLetter with ⟨before, after, hSplit, _⟩
    rw [hSplit]
    simp
  have hEntry := hAll _ hMem
  simp [readUnits, hEntry.1, hEntry.2]

/- A character that was written is read as its units. -/
theorem readUnits_escapeChar
    (c : Char)
    (rest : List Char) :
    readUnits .plain (escapeChar c ++ rest) =
      (readUnits .plain rest).map
        (fun read => (units c ++ read.1, read.2)) := by
  unfold escapeChar
  cases hLetter : letterOf c with
  | some letter =>
      have hAll :
          ∀ entry ∈ letters, entry.1.toNat < 0x10000 := by
        decide +kernel
      have hMem : (c, letter) ∈ letters := by
        rw [letterOf, List.lookup_eq_some_iff] at hLetter
        rcases hLetter with ⟨before, after, hSplit, _⟩
        rw [hSplit]
        simp
      have hUnits : units c = [c.toNat] := if_pos (hAll _ hMem)
      rw [hUnits]
      exact readUnits_letter hLetter rest
  | none =>
      dsimp only
      split_ifs with hPlain
      · have hSome :
            ∀ entry ∈ letters,
              (letterOf entry.1).isSome = true := by
          decide +kernel
        have hNotLetter :
            ∀ entry ∈ letters, entry.1 ≠ c := by
          rintro entry hMem rfl
          have hIs := hSome entry hMem
          rw [hLetter] at hIs
          cases hIs
        have hQuote : c ≠ '"' :=
          (hNotLetter ('"', '"') (by decide)).symm
        have hBackslash : c ≠ '\\' :=
          (hNotLetter ('\\', '\\') (by decide)).symm
        have hLow : 0x20 ≤ c.toNat := hPlain.1
        have hHigh : c.toNat ≤ 0x7E := hPlain.2
        have hUnits : units c = [c.toNat] :=
          if_pos (by omega)
        rw [hUnits]
        simp [readUnits, hQuote, hBackslash, not_lt.mpr hLow]
      · exact
          readUnits_escapeUnits (fun n hMem => units_lt c hMem)
            rest

theorem readUnits_escapeChars
    (chars rest : List Char) :
    readUnits .plain
        (chars.flatMap escapeChar ++ '"' :: rest) =
      some (chars.flatMap units, rest) := by
  induction chars with
  | nil => simp [readUnits]
  | cons c chars ih =>
      rw [List.flatMap_cons, List.append_assoc,
        readUnits_escapeChar, ih]
      rfl

/- A text that was written is read back. -/
theorem readText_dumpsText
    (text : String)
    (rest : List Char) :
    readText (dumpsText text ++ rest) = some (text, rest) := by
  unfold dumpsText
  rw [List.cons_append, List.append_assoc,
    List.singleton_append]
  change
    ((readUnits .plain
        (text.toList.flatMap escapeChar ++ '"' :: rest)).bind
      fun read =>
        (combine read.1).bind
          fun chars => some (String.ofList chars, read.2)) =
      some (text, rest)
  rw [readUnits_escapeChars]
  simp [combine_flatMap]

------------------------------------------------------------
-- Lists
------------------------------------------------------------

theorem skip_dumpsText
    (text : String)
    (rest : List Char) :
    skip (dumpsText text ++ rest) = dumpsText text ++ rest :=
  rfl

theorem length_dumpsRest (texts : List String) :
    texts.length < (dumpsRest texts).length := by
  induction texts with
  | nil => exact Nat.zero_lt_one
  | cons text rest ih =>
      simp only [dumpsRest, List.length_cons,
        List.length_append]
      omega

/- What follows a blank is read as if it were not there. -/
theorem readItems_blank
    (fuel : ℕ)
    (text : List Char) :
    readItems fuel (' ' :: text) = readItems fuel text := by
  cases fuel with
  | zero => rfl
  | succ fuel => rfl

theorem readItems_dumps
    {fuel : ℕ}
    (text : String)
    {rest : List String}
    (hFuel : rest.length < fuel) :
    readItems fuel (dumpsText text ++ dumpsRest rest) =
      some (text :: rest, []) := by
  induction rest generalizing text fuel with
  | nil =>
      cases fuel with
      | zero => exact absurd hFuel (Nat.not_lt_zero 0)
      | succ fuel =>
          rw [readItems, skip_dumpsText, readText_dumpsText]
          rfl
  | cons next rest ih =>
      cases fuel with
      | zero => exact absurd hFuel (Nat.not_lt_zero _)
      | succ fuel =>
          have hRest := ih next (Nat.lt_of_succ_lt_succ hFuel)
          rw [readItems, skip_dumpsText, readText_dumpsText]
          simp only [Option.bind_eq_bind, Option.bind_some,
            dumpsRest]
          have hSkip :
              skip (',' :: ' ' ::
                  (dumpsText next ++ dumpsRest rest)) =
                ',' :: ' ' ::
                  (dumpsText next ++ dumpsRest rest) := rfl
          rw [hSkip]
          change
            ((readItems fuel
                (' ' :: (dumpsText next ++ dumpsRest rest))).bind
              fun others =>
                some (text :: others.1, others.2)) =
              _
          rw [readItems_blank, hRest]
          rfl

/- A list of texts that was written is read back. -/
theorem loads_dumps (texts : List String) :
    loads (dumps texts) = some texts := by
  cases texts with
  | nil => decide +kernel
  | cons text rest =>
      have hLong :
          rest.length <
            (dumps (text :: rest)).toList.length := by
        have hRest := length_dumpsRest rest
        simp only [dumps, String.toList_ofList,
          List.length_cons, List.length_append]
        omega
      have hSkip :
          skip (dumps (text :: rest)).toList =
            '[' :: (dumpsText text ++ dumpsRest rest) := by
        rw [dumps, String.toList_ofList]
        rfl
      have hArray :
          readArray (dumps (text :: rest)).toList.length
              (dumpsText text ++ dumpsRest rest) =
            some (text :: rest, []) :=
        readItems_dumps text hLong
      unfold loads
      rw [hSkip]
      change
        ((readArray (dumps (text :: rest)).toList.length
            (dumpsText text ++ dumpsRest rest)).bind
          fun read =>
            if skip read.2 = [] then some read.1 else none) =
          _
      rw [hArray]
      rfl

end PyJson
