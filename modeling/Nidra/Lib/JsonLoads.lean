import Nidra.Lib.PyFloat
import Nidra.Lib.PyJson

/-
  This file defines what Python reads from a JSON text: a
  value of any shape, or one of three errors. Nesting deeper
  than a given number of levels is one, and an integer with
  too many digits is another.

  Key definitions include:
    * `PyStr`
    * `Json`, `LoadError`
    * `Json.readNumber`, `Json.readValue`
    * `Json.loads`
    * `Json.get?`
-/

------------------------------------------------------------
-- Values
------------------------------------------------------------

/-
  A text of Python: its code points. Unlike the characters
  of a file they may be halves of a pair.
-/
abbrev PyStr :=
  List ℕ

def PyStr.of (text : String) : PyStr :=
  text.toList.map Char.toNat

inductive Json where
  | null
  | bool (b : Bool)
  | int (n : ℤ)
  | float (x : PyFloat)
  | str (s : PyStr)
  | array (items : List Json)
  | object (entries : List (PyStr × Json))

/-
  What reading a text may raise: that it is no JSON, that it
  is nested too deeply, or that an integer has too many
  digits.
-/
inductive LoadError where
  | decode
  | recursion
  | digits
deriving DecidableEq

namespace Json

/- The value of a key; the last one that was read of it. -/
def get?
    (entries : List (PyStr × Json))
    (key : PyStr) : Option Json :=
  entries.reverse.lookup key

------------------------------------------------------------
-- Texts
------------------------------------------------------------

/- Two halves of a pair are one code point. -/
def joinPairs : List ℕ → PyStr
  | [] => []
  | [n] => [n]
  | n :: low :: rest =>
      if PyJson.isHigh n && PyJson.isLow low then
        (0x10000 + (n - 0xD800) * 0x400 + (low - 0xDC00)) ::
          joinPairs rest
      else n :: joinPairs (low :: rest)

/- A text after its first quote, and what follows it. -/
def readText
    (chars : List Char) : Except LoadError (PyStr × List Char) :=
  match PyJson.readUnits .plain chars with
  | none => .error .decode
  | some (units, rest) => .ok (joinPairs units, rest)

------------------------------------------------------------
-- Numbers
------------------------------------------------------------

/- A point with digits after it, if they are there. -/
def readFraction : List Char → List Char × List Char
  | '.' :: rest =>
      let (digits, others) := rest.span PyText.isDigit
      if digits = [] then ([], '.' :: rest)
      else ('.' :: digits, others)
  | chars => ([], chars)

/- An exponent with its digits, if they are there. -/
def readExponent : List Char → List Char × List Char
  | [] => ([], [])
  | c :: rest =>
      if c = 'e' || c = 'E' then
        let (sign, body) :=
          match rest with
          | '+' :: body => (['+'], body)
          | '-' :: body => (['-'], body)
          | _ => ([], rest)
        let (digits, others) := body.span PyText.isDigit
        if digits = [] then ([], c :: rest)
        else (c :: (sign ++ digits), others)
      else ([], c :: rest)

/- A whole number does not begin with a zero. -/
def readWhole : List Char → List Char × List Char
  | '0' :: rest => (['0'], rest)
  | chars => chars.span PyText.isDigit

def readNumber
    (chars : List Char) : Except LoadError (Json × List Char) :=
  let (negative, body) :=
    match chars with
    | '-' :: body => (true, body)
    | _ => (false, chars)
  let (whole, rest) := readWhole body
  if whole = [] then .error .decode
  else
    let (fraction, rest) := readFraction rest
    let (exponent, rest) := readExponent rest
    if fraction = [] && exponent = [] then
      if PyText.maxStrDigits < whole.length then
        .error .digits
      else
        match PyText.digitsValue 10 whole with
        | none => .error .decode
        | some value =>
            .ok (.int (PyText.negateIf negative value), rest)
    else
      match PyFloat.ofDecimal negative
          (whole ++ fraction ++ exponent) with
      | none => .error .decode
      | some value => .ok (.float value, rest)

------------------------------------------------------------
-- Any value
------------------------------------------------------------

/- The words that stand for a value. -/
def words : List (List Char × Json) :=
  [("null".toList, .null),
    ("true".toList, .bool true),
    ("false".toList, .bool false),
    ("NaN".toList, .float .nan),
    ("Infinity".toList, .float (.inf false)),
    ("-Infinity".toList, .float (.inf true))]

def readWord
    (chars : List Char) : Option (Json × List Char) :=
  (words.find? (fun word => word.1.isPrefixOf chars)).map
    (fun word => (word.2, chars.drop word.1.length))

/-
  Each function is called with less fuel at each value, and
  each value has a character of its own, so that the length
  of a text is fuel enough.
-/
mutual

/- A value and what follows it, at some depth. -/
def readValue :
    ℕ → ℕ → List Char → Except LoadError (Json × List Char)
  | 0, _, _ => .error .decode
  | fuel + 1, depth, chars =>
      match chars with
      | '"' :: rest =>
          (readText rest).map
            (fun read => (.str read.1, read.2))
      | '{' :: rest =>
          match depth with
          | 0 => .error .recursion
          | depth + 1 =>
              match PyJson.skip rest with
              | '}' :: others => .ok (.object [], others)
              | others =>
                  (readEntries fuel depth others).map
                    (fun read => (.object read.1, read.2))
      | '[' :: rest =>
          match depth with
          | 0 => .error .recursion
          | depth + 1 =>
              match PyJson.skip rest with
              | ']' :: others => .ok (.array [], others)
              | others =>
                  (readItems fuel depth others).map
                    (fun read => (.array read.1, read.2))
      | _ =>
          match readWord chars with
          | some read => .ok read
          | none => readNumber chars

/- The items up to the bracket, and what follows it. -/
def readItems :
    ℕ → ℕ → List Char →
      Except LoadError (List Json × List Char)
  | 0, _, _ => .error .decode
  | fuel + 1, depth, chars => do
      let (item, rest) ← readValue fuel depth chars
      match PyJson.skip rest with
      | ']' :: others => return ([item], others)
      | ',' :: others =>
          let (items, others) ←
            readItems fuel depth (PyJson.skip others)
          return (item :: items, others)
      | _ => .error .decode

/- The entries up to the brace, and what follows it. -/
def readEntries :
    ℕ → ℕ → List Char →
      Except LoadError (List (PyStr × Json) × List Char)
  | 0, _, _ => .error .decode
  | fuel + 1, depth, chars =>
      match chars with
      | '"' :: rest => do
          let (key, rest) ← readText rest
          match PyJson.skip rest with
          | ':' :: rest =>
              let (value, rest) ←
                readValue fuel depth (PyJson.skip rest)
              match PyJson.skip rest with
              | '}' :: others => return ([(key, value)], others)
              | ',' :: others =>
                  let (entries, others) ←
                    readEntries fuel depth
                      (PyJson.skip others)
                  return ((key, value) :: entries, others)
              | _ => .error .decode
          | _ => .error .decode
      | _ => .error .decode

end

/-
  The value that a text stands for, with as many levels of
  nesting as the stack has room for.
-/
def loads
    (depth : ℕ)
    (text : String) : Except LoadError Json := do
  let chars := text.toList
  let (value, rest) ←
    readValue (2 * chars.length + 2) depth (PyJson.skip chars)
  if PyJson.skip rest = [] then return value
  else .error .decode

end Json
