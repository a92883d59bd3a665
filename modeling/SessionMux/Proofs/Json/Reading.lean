import SessionMux.Json.Value

/-!
# Reading JSON

What anybody who knows JSON makes of a text: one value, with blanks allowed between its parts. A text
stands in quotes; a backslash in it stands for what the grammar says, a code unit in hexadecimal digits
among them, where two surrogates make one character; a control character may not stand for itself. A number
is an integer without zeros in front. One with a fraction or an exponent is refused, since a value has no
place for it.

Values hold values, so the readers of values, items and fields are given a number that they count down at
each step into a part. A text has fewer parts than characters, and `parse` gives them its length.

* `readText`, `readInteger` — texts and numbers.
* `readValue`, `readItems`, `readFields` — values, and the parts of arrays and objects.
* `parse` — a whole text.
-/

namespace SessionMux.Json

/-- White space between the parts of a value. -/
def isBlank (c : Char) : Bool := c == ' ' || c == '\t' || c == '\n' || c == '\r'

/-- Leaves out white space. -/
def skipBlanks (l : List Char) : List Char := l.dropWhile isBlank

/-- Reads a mark between parts. -/
def readMark (mark : Char) (l : List Char) : Option (List Char) :=
  match skipBlanks l with
  | c :: rest => if c = mark then some rest else none
  | [] => none

/-! ## Texts -/

/-- What a hexadecimal digit is worth. -/
def hexValue? (c : Char) : Option Nat :=
  if '0' ≤ c ∧ c ≤ '9' then some (c.toNat - '0'.toNat)
  else if 'a' ≤ c ∧ c ≤ 'f' then some (c.toNat - 'a'.toNat + 10)
  else if 'A' ≤ c ∧ c ≤ 'F' then some (c.toNat - 'A'.toNat + 10)
  else none

/-- Reads a code unit of four hexadecimal digits. -/
def readUnit : List Char → Option (Nat × List Char)
  | a :: b :: c :: d :: rest => do
    let a ← hexValue? a
    let b ← hexValue? b
    let c ← hexValue? c
    let d ← hexValue? d
    return (((a * 16 + b) * 16 + c) * 16 + d, rest)
  | _ => none

/-- Reads a character that is given by its code units: by one, or by a high surrogate and a low one. -/
def readUnicode (l : List Char) : Option (Char × List Char) := do
  let (unit, rest) ← readUnit l
  if 0xd800 ≤ unit ∧ unit < 0xdc00 then
    match rest with
    | '\\' :: 'u' :: rest =>
      let (low, rest) ← readUnit rest
      if 0xdc00 ≤ low ∧ low < 0xe000 then
        return (Char.ofNat (0x10000 + (unit - 0xd800) * 0x400 + (low - 0xdc00)), rest)
      else none
    | _ => none
  else if 0xdc00 ≤ unit ∧ unit < 0xe000 then none
  else return (Char.ofNat unit, rest)

/-- Reads what stands behind a backslash. -/
def readEscape : List Char → Option (Char × List Char)
  | '"' :: rest => some ('"', rest)
  | '\\' :: rest => some ('\\', rest)
  | '/' :: rest => some ('/', rest)
  | 'b' :: rest => some ('\x08', rest)
  | 'f' :: rest => some ('\x0c', rest)
  | 'n' :: rest => some ('\n', rest)
  | 'r' :: rest => some ('\r', rest)
  | 't' :: rest => some ('\t', rest)
  | 'u' :: rest => readUnicode rest
  | _ => none

/-- Reads the characters of a text up to its closing quote, of which there are fewer than `fuel`. -/
def readChars : (fuel : Nat) → List Char → Option (List Char × List Char)
  | 0, _ | _ + 1, [] => none
  | fuel + 1, c :: rest =>
    if c = '"' then some ([], rest)
    else if c = '\\' then do
      let (c, rest) ← readEscape rest
      let (chars, rest) ← readChars fuel rest
      return (c :: chars, rest)
    else if c < ' ' then none
    else do
      let (chars, rest) ← readChars fuel rest
      return (c :: chars, rest)

/-- Reads a text behind its opening quote. -/
def readText (l : List Char) : Option (String × List Char) := do
  let (chars, rest) ← readChars l.length l
  return (String.ofList chars, rest)

/-! ## Numbers -/

/-- Reads decimal digits without zeros in front. -/
def readNatural (l : List Char) : Option (Nat × List Char) :=
  let digits := l.takeWhile Char.isDigit
  if digits = [] ∨ digits.head? = some '0' ∧ digits ≠ ['0'] then none
  else some (Nat.ofDigitChars 10 digits 0, l.dropWhile Char.isDigit)

/-- A number goes on behind its digits, with a fraction or an exponent. -/
def goesOn (rest : List Char) : Bool := rest.head?.any fun c => c == '.' || c == 'e' || c == 'E'

/-- Reads an integer. -/
def readInteger (l : List Char) : Option (Int × List Char) :=
  match l with
  | '-' :: digits => do
    let (n, rest) ← readNatural digits
    if goesOn rest then none else return (-n, rest)
  | digits => do
    let (n, rest) ← readNatural digits
    if goesOn rest then none else return (n, rest)

/-! ## Values -/

/-- Reads what is left of a word that stands for a value. -/
def readWord (word : List Char) (v : Value) (l : List Char) : Option (Value × List Char) :=
  if l.take word.length = word then some (v, l.drop word.length) else none

mutual

/-- Reads a value. -/
def readValue : (fuel : Nat) → List Char → Option (Value × List Char)
  | 0, _ => none
  | fuel + 1, l =>
    match skipBlanks l with
    | [] => none
    | c :: rest =>
      if c = '"' then do
        let (s, rest) ← readText rest
        return (.string s, rest)
      else if c = '[' then
        match readMark ']' rest with
        | some rest => some (.array [], rest)
        | none => do
          let (items, rest) ← readItems fuel rest
          return (.array items, rest)
      else if c = '\x7b' then
        match readMark '\x7d' rest with
        | some rest => some (.object [], rest)
        | none => do
          let (fields, rest) ← readFields fuel rest
          return (.object fields, rest)
      else if c = 'n' then readWord ['u', 'l', 'l'] .null rest
      else if c = 't' then readWord ['r', 'u', 'e'] (.boolean true) rest
      else if c = 'f' then readWord ['a', 'l', 's', 'e'] (.boolean false) rest
      else do
        let (n, rest) ← readInteger (c :: rest)
        return (.integer n, rest)

/-- Reads the items of an array, of which there is one, up to its closing bracket. -/
def readItems : (fuel : Nat) → List Char → Option (List Value × List Char)
  | 0, _ => none
  | fuel + 1, l => do
    let (v, rest) ← readValue fuel l
    match readMark ',' rest with
    | some rest =>
      let (items, rest) ← readItems fuel rest
      return (v :: items, rest)
    | none =>
      let rest ← readMark ']' rest
      return ([v], rest)

/-- Reads the fields of an object, of which there is one, up to its closing brace. -/
def readFields : (fuel : Nat) → List Char → Option (List (String × Value) × List Char)
  | 0, _ => none
  | fuel + 1, l => do
    let rest ← readMark '"' l
    let (name, rest) ← readText rest
    let rest ← readMark ':' rest
    let (v, rest) ← readValue fuel rest
    match readMark ',' rest with
    | some rest =>
      let (fields, rest) ← readFields fuel rest
      return ((name, v) :: fields, rest)
    | none =>
      let rest ← readMark '\x7d' rest
      return ([(name, v)], rest)

end

/-- **The value of a text**, if it is JSON with integers for numbers. -/
def parse (s : String) : Option Value :=
  match readValue s.toList.length s.toList with
  | some (v, rest) => if skipBlanks rest = [] then some v else none
  | none => none

end SessionMux.Json
