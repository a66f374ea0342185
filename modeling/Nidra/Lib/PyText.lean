import Mathlib
import Nidra.Lib.Numerals

/-
  This file defines the text operations of Python that parsers
  of text files rest on: white space, stripping, splitting,
  lower case, decimal digits of any script, underscores
  between digits, and integer literals.

  Key definitions include:
    * `PyText.isSpace`, `PyText.strip`
    * `PyText.splitOn`, `PyText.words`
    * `PyText.lower`
    * `PyText.toAscii`, `PyText.dropUnderscores`
    * `PyText.digitsValue`
    * `PyText.intDecimal`, `PyText.intHex`
-/

namespace PyText

------------------------------------------------------------
-- White space
------------------------------------------------------------

/- The white space of `str.strip` and `str.split`. -/
def isSpace (c : Char) : Bool :=
  let n := c.toNat
  (9 ≤ n && n ≤ 13) || (28 ≤ n && n ≤ 32) ||
    n = 0x85 || n = 0xA0 || n = 0x1680 ||
    (0x2000 ≤ n && n ≤ 0x200A) ||
    n = 0x2028 || n = 0x2029 || n = 0x202F ||
    n = 0x205F || n = 0x3000

/- Drop what a test accepts at both ends. -/
def trim
    (drops : Char → Bool)
    (text : List Char) : List Char :=
  ((text.dropWhile drops).reverse.dropWhile drops).reverse

def strip (text : String) : String :=
  String.ofList (trim isSpace text.toList)

/- Drop one character, however often, at the right end. -/
def rstripChar
    (c : Char)
    (text : String) : String :=
  String.ofList
    (text.toList.reverse.dropWhile (· = c)).reverse

------------------------------------------------------------
-- Splitting
------------------------------------------------------------

/- The pieces between the separators, empty ones too. -/
def pieces (sep : Char → Bool) : List Char → List (List Char)
  | [] => [[]]
  | c :: rest =>
      let others := pieces sep rest
      if sep c then [] :: others
      else
        match others with
        | [] => [[c]]
        | piece :: more => (c :: piece) :: more

/- Split at every occurrence of a separator. -/
def splitOn
    (sep : Char)
    (text : String) : List String :=
  (pieces (fun c => c = sep) text.toList).map String.ofList

/- The runs of characters that are not white space. -/
def words (text : String) : List String :=
  ((pieces isSpace text.toList).filter
    (fun piece => piece ≠ [])).map String.ofList

------------------------------------------------------------
-- Lower case
------------------------------------------------------------

/-
  Lower case, for a result that is compared with ASCII text
  only: the Kelvin sign is the one character outside ASCII
  with a lower case inside it.
-/
def lowerChar (c : Char) : Char :=
  if c.toNat = 0x212A then 'k' else c.toLower

def lower (text : String) : String :=
  String.ofList (text.toList.map lowerChar)

------------------------------------------------------------
-- Decimal digits
------------------------------------------------------------

/- The zeros of the scripts that write decimal digits. -/
def zeros : List ℕ :=
  [0x30, 0x660, 0x6F0, 0x7C0, 0x966, 0x9E6, 0xA66, 0xAE6,
    0xB66, 0xBE6, 0xC66, 0xCE6, 0xD66, 0xDE6, 0xE50, 0xED0,
    0xF20, 0x1040, 0x1090, 0x17E0, 0x1810, 0x1946, 0x19D0,
    0x1A80, 0x1A90, 0x1B50, 0x1BB0, 0x1C40, 0x1C50, 0xA620,
    0xA8D0, 0xA900, 0xA9D0, 0xA9F0, 0xAA50, 0xABF0, 0xFF10,
    0x104A0, 0x10D30, 0x11066, 0x110F0, 0x11136, 0x111D0,
    0x112F0, 0x11450, 0x114D0, 0x11650, 0x116C0, 0x11730,
    0x118E0, 0x11950, 0x11C50, 0x11D50, 0x11DA0, 0x11F50,
    0x16A60, 0x16AC0, 0x16B50, 0x1D7CE, 0x1D7D8, 0x1D7E2,
    0x1D7EC, 0x1D7F6, 0x1E140, 0x1E2F0, 0x1E4F0, 0x1E950,
    0x1FBF0]

/- The value of a decimal digit of any script. -/
def decimalDigit (c : Char) : Option ℕ :=
  (zeros.find? (fun start =>
    start ≤ c.toNat && c.toNat < start + 10)).map
      (fun start => c.toNat - start)

def isDigit (c : Char) : Bool :=
  '0' ≤ c && c ≤ '9'

/-
  A number literal in ASCII: digits of any script become
  ASCII digits, and white space outside ASCII becomes a
  blank. Any other character can be in no literal.
-/
def toAscii (c : Char) : Char :=
  if c.toNat < 127 then c
  else if isSpace c then ' '
  else
    match decimalDigit c with
    | none => '?'
    | some digit => Char.ofNat ('0'.toNat + digit)

/- The blanks that number literals may have around them. -/
def isBlank (c : Char) : Bool :=
  c = ' ' || (9 ≤ c.toNat && c.toNat ≤ 13)

/- A literal without the blanks around it, in ASCII. -/
def literal (text : String) : List Char :=
  trim isBlank (text.toList.map toAscii)

/-
  Drop the underscores of a literal. Each stands after a
  digit and before a digit, for a given test of digits.
-/
def dropUnderscoresFrom
    (digit : Char → Bool) :
    Bool → List Char → Option (List Char)
  | _, [] => some []
  | afterDigit, '_' :: rest =>
      match rest with
      | [] => none
      | c :: _ =>
          if afterDigit && digit c then
            dropUnderscoresFrom digit false rest
          else none
  | _, c :: rest =>
      (dropUnderscoresFrom digit (digit c) rest).map
        (fun others => c :: others)

def dropUnderscores
    (digit : Char → Bool)
    (text : List Char) : Option (List Char) :=
  dropUnderscoresFrom digit false text

/- The value of a digit in a base up to sixteen. -/
def digitIn
    (base : ℕ)
    (c : Char) : Option ℕ :=
  let value :=
    if isDigit c then some (c.toNat - '0'.toNat)
    else if 'a' ≤ c && c ≤ 'f' then
      some (c.toNat - 'a'.toNat + 10)
    else if 'A' ≤ c && c ≤ 'F' then
      some (c.toNat - 'A'.toNat + 10)
    else none
  value.filter (fun v => v < base)

/- The value of a nonempty run of digits. -/
def digitsValue
    (base : ℕ)
    (digits : List Char) : Option ℕ :=
  if digits = [] then none
  else
    (digits.mapM (digitIn base)).map
      (fun values =>
        values.foldl (fun total v => total * base + v) 0)

/- A sign, and what follows it. -/
def sign : List Char → Bool × List Char
  | '-' :: rest => (true, rest)
  | '+' :: rest => (false, rest)
  | text => (false, text)

def negateIf
    (negative : Bool)
    (n : ℤ) : ℤ :=
  if negative then -n else n

------------------------------------------------------------
-- Integer literals
------------------------------------------------------------

/-
  Digits that an integer literal may have at most; bases that
  are powers of two have no bound.
-/
def maxStrDigits : ℕ := 4300

/- The integer a text stands for in base ten. -/
def intDecimal (text : String) : Option ℤ := do
  let (negative, body) := sign (literal text)
  let digits ← dropUnderscores isDigit body
  if maxStrDigits < digits.length then none
  else
    let value ← digitsValue 10 digits
    return negateIf negative value

/-
  The integer a text stands for in base sixteen. A prefix may
  stand before the digits, with one underscore after it.
-/
def intHex (text : String) : Option ℤ := do
  let (negative, body) := sign (literal text)
  let digits :=
    match body with
    | '0' :: 'x' :: '_' :: rest => rest
    | '0' :: 'X' :: '_' :: rest => rest
    | '0' :: 'x' :: rest => rest
    | '0' :: 'X' :: rest => rest
    | _ => body
  let digits ←
    dropUnderscores (fun c => (digitIn 16 c).isSome) digits
  let value ← digitsValue 16 digits
  return negateIf negative value

end PyText
