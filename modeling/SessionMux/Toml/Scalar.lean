import SessionMux.Toml.Draft

/-!
# TOML texts, numbers and moments

Readers of the parts of a TOML document that contain no other values. A reader takes what it reads
from the front of the characters that are left, and there is no result where the rules of TOML 1.0
are broken.

Integers have 64 bits and a sign. A float must not be so large that it rounds to infinity.
-/

namespace SessionMux.Toml

/-- Reads from the front of what is left. -/
abbrev Reader (α : Type) : Type := StateT (List Char) Option α

/-- A space or a tab. -/
def isBlank (c : Char) : Bool := c == ' ' || c == '\t'

/-- A character that may stand in a comment or a text: no control character but the tab. -/
def isPrintable (c : Char) : Bool := c == '\t' || (' ' ≤ c && c != '\x7f')

namespace Reader

/-- The longest run of characters of a kind, which may be empty. -/
def many (p : Char → Bool) : Reader (List Char) := fun s => some (s.takeWhile p, s.dropWhile p)

/-- One character of a kind. -/
def one (p : Char → Bool) : Reader Char
  | c :: r => if p c then some (c, r) else none
  | [] => none

/-- The given character. -/
def char (c : Char) : Reader Unit := fun s => (one (· == c) s).map fun p => ((), p.2)

/-- The given characters, one after another. -/
def chars : List Char → Reader Unit
  | [] => pure ()
  | c :: r => do char c; chars r

/-- Exactly `n` characters of a kind. -/
def count (p : Char → Bool) : Nat → Reader (List Char)
  | 0 => pure []
  | n + 1 => do return (← one p) :: (← count p n)

/-- What comes next, without taking it. -/
def peek : Reader (Option Char) := fun s => some (s.head?, s)

/-- The given characters come next. -/
def sees (l : List Char) : Reader Bool := fun s => some (l.isPrefixOf s, s)

/-- Reads if it can, and otherwise takes nothing. -/
def maybe {α : Type} (p : Reader α) : Reader (Option α) := fun s =>
  match p s with
  | some (a, r) => some (some a, r)
  | none => some (none, s)

/-- A line feed, or a carriage return and a line feed. -/
def newline : Reader Unit
  | '\n' :: r => some ((), r)
  | '\r' :: '\n' :: r => some ((), r)
  | _ => none

/-- Spaces and tabs. -/
def blanks : Reader Unit := do let _ ← many isBlank

/-- A comment, without the end of its line. -/
def comment : Reader Unit := do
  char '#'
  let _ ← many isPrintable

end Reader

open Reader

/-! ## Numbers -/

/-- The value of a digit; what is no digit counts as its letter would. -/
def digitValue (c : Char) : Nat :=
  if c.isDigit then c.toNat - '0'.toNat
  else if 'a' ≤ c && c ≤ 'f' then c.toNat - 'a'.toNat + 10
  else c.toNat - 'A'.toNat + 10

/-- The number of a list of digits. -/
def digitsValue (base : Nat) (l : List Char) : Nat :=
  l.foldl (fun n c => n * base + digitValue c) 0

/-- Digits after the first, with single underscores between digits. -/
def furtherDigits (p : Char → Bool) : List Char → Option (List Char × List Char)
  | [] => some ([], [])
  | '_' :: d :: r => if p d then (furtherDigits p r).map fun q => (d :: q.1, q.2) else none
  | c :: r =>
    if c == '_' then none
    else if p c then (furtherDigits p r).map fun q => (c :: q.1, q.2)
    else some ([], c :: r)

/-- Digits with single underscores between them, at least one. -/
def digits (p : Char → Bool) : Reader (List Char) := do
  let d ← one p
  let r ← furtherDigits p
  return d :: r

/-- Decimal digits without a leading zero. -/
def plainDigits : Reader (List Char) := do
  let d ← one Char.isDigit
  if d == '0' then return [d]
  let r ← furtherDigits Char.isDigit
  return d :: r

/-- A sign; true for a minus. -/
def sign : Reader Bool := do
  match ← maybe (one fun c => c == '+' || c == '-') with
  | some c => return c == '-'
  | none => return false

/-- An integer of 64 bits. -/
def bounded (n : Int) : Reader Value :=
  let bound : Int := Nat.pow 2 63
  if -bound ≤ n && n < bound then return .integer n else failure

/-- A digit of base 16. -/
def isHexDigit (c : Char) : Bool :=
  c.isDigit || ('a' ≤ c && c ≤ 'f') || ('A' ≤ c && c ≤ 'F')

/-- An integer: decimal with or without a sign, or of base 16, 8 or 2 behind its mark. -/
def integer : Reader Value := do
  if ← sees ['0', 'x'] then
    chars ['0', 'x']
    bounded (digitsValue 16 (← digits isHexDigit))
  else if ← sees ['0', 'o'] then
    chars ['0', 'o']
    bounded (digitsValue 8 (← digits fun c => '0' ≤ c && c ≤ '7'))
  else if ← sees ['0', 'b'] then
    chars ['0', 'b']
    bounded (digitsValue 2 (← digits fun c => c == '0' || c == '1'))
  else
    let minus ← sign
    let n : Int := digitsValue 10 (← plainDigits)
    bounded (if minus then -n else n)

/-- A decimal `m · 10 ^ e` rounds to infinity among the floats of 64 bits. -/
def roundsToInfinity (m : Nat) (e : Int) : Bool :=
  let bound : Nat := Nat.pow 2 1024 - Nat.pow 2 970
  let size : Int := (Nat.toDigits 10 m).length + e
  if m == 0 || size < 300 then false
  else if 320 < size then true
  else if 0 ≤ e then bound ≤ m * Nat.pow 10 e.toNat
  else bound * Nat.pow 10 (-e).toNat ≤ m

/-- The exponent of a float. -/
def exponent : Reader Int := do
  let _ ← one fun c => c == 'e' || c == 'E'
  let minus ← sign
  let n : Int := digitsValue 10 (← digits Char.isDigit)
  return if minus then -n else n

/-- A float: a decimal with a fraction, an exponent or both, or infinity, or no number. -/
def float : Reader Value := do
  let minus ← sign
  match ← peek with
  | some 'i' => chars ['i', 'n', 'f']; return .float
  | some 'n' => chars ['n', 'a', 'n']; return .float
  | _ =>
    let whole ← plainDigits
    let (fraction, power) ← (do
      match ← peek with
      | some '.' =>
        char '.'
        let f ← digits Char.isDigit
        return (f, (← maybe exponent).getD 0)
      | _ => return ([], ← exponent) : Reader (List Char × Int))
    let e := power - fraction.length
    if !minus && roundsToInfinity (digitsValue 10 (whole ++ fraction)) e then failure
    return .float

/-! ## Moments -/

/-- A decimal number of exactly `n` digits, from `lo` to `hi`. -/
def field (n lo hi : Nat) : Reader Nat := do
  let v := digitsValue 10 (← count Char.isDigit n)
  if lo ≤ v && v ≤ hi then return v else failure

/-- The number of days of a month. -/
def daysOf (year month : Nat) : Nat :=
  if month == 2 then
    if year % 4 == 0 && (year % 100 != 0 || year % 400 == 0) then 29 else 28
  else if month == 4 || month == 6 || month == 9 || month == 11 then 30
  else 31

/-- A day of the calendar. -/
def day : Reader Unit := do
  let year ← field 4 0 9999
  char '-'
  let month ← field 2 1 12
  char '-'
  let _ ← field 2 1 (daysOf year month)

/-- A time of day; a fraction of a second may follow. -/
def time : Reader Unit := do
  let _ ← field 2 0 23
  char ':'
  let _ ← field 2 0 59
  char ':'
  let _ ← field 2 0 60
  let _ ← maybe (do
    char '.'
    let _ ← one Char.isDigit
    let _ ← many Char.isDigit : Reader Unit)

/-- The distance from universal time. -/
def offset : Reader Unit := do
  let c ← one fun c => c == 'Z' || c == 'z' || c == '+' || c == '-'
  if c == '+' || c == '-' then
    let _ ← field 2 0 23
    char ':'
    let _ ← field 2 0 59

/-- A day with a time behind it or without, or a time alone. -/
def moment : Reader Value := do
  let dated : Reader Unit := do
    day
    let _ ← maybe (do
      let _ ← one fun c => c == 'T' || c == 't' || c == ' '
      time
      let _ ← maybe offset : Reader Unit)
  dated <|> time
  return .moment

/-! ## Texts -/

/-- The character of an escape by its number, written in `n` digits of base 16. -/
def numbered (n : Nat) : Reader Char := do
  let v := digitsValue 16 (← count isHexDigit n)
  if h : v.isValidChar then return Char.ofNatAux v h else failure

/-- What stands behind a backslash for a character. -/
def escaped : Reader Char := do
  match ← one fun _ => true with
  | 'b' => return '\x08'
  | 'f' => return '\x0c'
  | 'n' => return '\n'
  | 'r' => return '\r'
  | 't' => return '\t'
  | '\\' => return '\\'
  | '"' => return '"'
  | 'u' => numbered 4
  | 'U' => numbered 8
  | _ => failure

/-- Blanks and line ends, as far as they go. -/
def skipSpace : List Char → List Char
  | '\n' :: r => skipSpace r
  | '\r' :: '\n' :: r => skipSpace r
  | c :: r => if isBlank c then skipSpace r else c :: r
  | [] => []

/-- Behind a backslash at the end of a line: all blank space up to the next text is left out. -/
def joined : Reader Unit := do
  blanks
  newline
  modify skipSpace

/-- The rest of a text in double quotes on one line; `fuel` bounds its length. -/
def basicRest : (fuel : Nat) → Reader (List Char)
  | 0 => failure
  | fuel + 1 => do
    match ← one isPrintable with
    | '"' => return []
    | '\\' =>
      let c ← escaped
      return c :: (← basicRest fuel)
    | c => return c :: (← basicRest fuel)

/-- A run of quotes inside a text in three quotes of its own kind: the quotes that belong to the
text, and whether the text ends. Up to two may stand before the three that end it. -/
def quoteRun (q : Char) : Reader (List Char × Bool) := fun s =>
  let n := (s.takeWhile (· == q)).length
  if n < 3 then some ((List.replicate n q, false), s.drop n)
  else
    let own := min (n - 3) 2
    some ((List.replicate own q, true), s.drop (own + 3))

/-- The rest of a text in three double quotes; `fuel` bounds its length. -/
def basicBlockRest : (fuel : Nat) → Reader (List Char)
  | 0 => failure
  | fuel + 1 => do
    match ← peek with
    | some '"' =>
      let (own, ends) ← quoteRun '"'
      if ends then return own
      return own ++ (← basicBlockRest fuel)
    | some '\\' =>
      char '\\'
      match ← maybe joined with
      | some () => basicBlockRest fuel
      | none =>
        let c ← escaped
        return c :: (← basicBlockRest fuel)
    | _ =>
      match ← maybe newline with
      | some () => return '\n' :: (← basicBlockRest fuel)
      | none =>
        let c ← one isPrintable
        return c :: (← basicBlockRest fuel)

/-- The rest of a text in three single quotes; `fuel` bounds its length. -/
def literalBlockRest : (fuel : Nat) → Reader (List Char)
  | 0 => failure
  | fuel + 1 => do
    match ← peek with
    | some '\'' =>
      let (own, ends) ← quoteRun '\''
      if ends then return own
      return own ++ (← literalBlockRest fuel)
    | _ =>
      match ← maybe newline with
      | some () => return '\n' :: (← literalBlockRest fuel)
      | none =>
        let c ← one isPrintable
        return c :: (← literalBlockRest fuel)

/-- As much fuel as there are characters left, and one. -/
def enough : Reader Nat := fun s => some (s.length + 1, s)

/-- A text in double quotes, on one line. -/
def basic : Reader String := do
  char '"'
  return String.ofList (← basicRest (← enough))

/-- A text in single quotes, on one line, where nothing is escaped. -/
def literal : Reader String := do
  char '\''
  let l ← many fun c => isPrintable c && c != '\''
  char '\''
  return String.ofList l

/-- A text in three quotes; a line end right behind them is left out. -/
def block (quote : Char) (rest : Nat → Reader (List Char)) : Reader String := do
  chars [quote, quote, quote]
  let _ ← maybe newline
  return String.ofList (← rest (← enough))

/-- A text of any kind. -/
def text : Reader String := do
  if ← sees ['"', '"', '"'] then block '"' basicBlockRest
  else if ← sees ['\'', '\'', '\''] then block '\'' literalBlockRest
  else basic <|> literal

end SessionMux.Toml
