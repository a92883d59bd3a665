import SessionMux.Toml.Draft
import SessionMux.Toml.Scalar

/-!
# TOML documents

A document is a list of lines: keys with values, headers and comments. Values may stand in one
another, and names may be chained by dots, up to a fixed depth.

`Table.ofText?` reads a whole document; there is no result where it breaks a rule of TOML 1.0.
-/

namespace SessionMux.Toml

open Reader

/-- So many arrays and inline tables may stand in one another, and so many names in a chain. -/
def depthLimit : Nat := 79

/-! ## Space between the parts -/

/-- Blanks, line ends and comments up to the next part; a comment must end with its line. -/
def gap : (fuel : Nat) → Reader Unit
  | 0 => failure
  | fuel + 1 => do
    blanks
    match ← peek with
    | some '#' => comment; newline; gap fuel
    | some '\n' => newline; gap fuel
    | some '\r' => newline; gap fuel
    | _ => return ()

/-- The end of a line, or of the document. -/
def lineEnd : Reader Unit := do
  if (← peek).isSome then newline

/-- What may follow on a line that says something: blanks and a comment. -/
def restOfLine : Reader Unit := do
  blanks
  let _ ← maybe comment
  lineEnd

/-! ## Names -/

/-- A character of a name that is not quoted. -/
def isBare (c : Char) : Bool := c.isAlphanum || c == '-' || c == '_'

/-- A name: letters, digits, dashes and underscores, or a quoted text. -/
def name : Reader String := do
  match ← peek with
  | some '"' => basic
  | some '\'' => literal
  | _ => return String.ofList ((← one isBare) :: (← many isBare))

/-- The names after the first, each behind a dot; `fuel` bounds their number. -/
def furtherNames : (fuel : Nat) → Reader (List String)
  | 0 => failure
  | fuel + 1 => do
    blanks
    match ← peek with
    | some '.' =>
      char '.'
      blanks
      let n ← name
      return n :: (← furtherNames fuel)
    | _ => return []

/-- Names with dots and blanks between them: the path, and the name at its end. -/
def key : Reader (List String × String) := do
  blanks
  let first ← name
  let names := first :: (← furtherNames depthLimit)
  return (names.dropLast, names.getLastD first)

/-! ## Values -/

/-- A value that contains no others. -/
def scalar : Reader Value := do
  match ← peek with
  | some '"' => return .string (← text)
  | some '\'' => return .string (← text)
  | some 't' => chars ['t', 'r', 'u', 'e']; return .boolean true
  | some 'f' => chars ['f', 'a', 'l', 's', 'e']; return .boolean false
  | _ => moment <|> float <|> integer

/-- The elements of an array and the bracket that closes it; a comma may follow the last one. -/
def elements (element : Reader Value) : (fuel : Nat) → Reader (List Value)
  | 0 => failure
  | fuel + 1 => do
    gap (← enough)
    match ← peek with
    | some ']' => char ']'; return []
    | _ =>
      let v ← element
      gap (← enough)
      match ← peek with
      | some ',' => char ','; return v :: (← elements element fuel)
      | _ => char ']'; return [v]

/-- A key with a value. -/
def pair (element : Reader Value) : Reader ((List String × String) × Value) := do
  let k ← key
  char '='
  blanks
  return (k, ← element)

/-- The pairs of an inline table after those in `entries`, and the brace that closes it. -/
def pairs (element : Reader Value) : (fuel : Nat) → Entries → Reader Entries
  | 0, _ => failure
  | fuel + 1, entries => do
    let ((path, name), v) ← pair element
    let entries ← Draft.assign path name v .declared entries
    blanks
    match ← peek with
    | some ',' => char ','; pairs element fuel entries
    | _ => char '\x7d'; return entries

/-- A value in which others stand at most `depth` deep. -/
def value : (depth : Nat) → Reader Value
  | 0 => scalar
  | depth + 1 => do
    match ← peek with
    | some '[' =>
      char '['
      return .array (← elements (value depth) (← enough))
    | some '\x7b' =>
      char '\x7b'
      blanks
      match ← peek with
      | some '\x7d' => char '\x7d'; return .table []
      | _ => return .table (Draft.finishAll (← pairs (value depth) (← enough) []))
    | _ => scalar

/-! ## Lines -/

/-- A document so far: its entries, and the header under which it stands. -/
structure Page where
  entries : Entries := []
  header : List String := []

/-- A header, with one pair of brackets or two. -/
def heading (page : Page) : Reader Page := do
  char '['
  let many ← sees ['[']
  if many then char '['
  let (path, name) ← key
  char ']'
  if many then char ']'
  restOfLine
  let entries ←
    if many then Draft.append path name page.entries else Draft.declare path name page.entries
  return ⟨entries, path ++ [name]⟩

/-- A key with a value, which goes to the table of the header above. -/
def assignment (page : Page) : Reader Page := do
  let ((path, name), v) ← pair (value depthLimit)
  restOfLine
  let entries ← Draft.within false (Draft.assign path name v) page.header .declared page.entries
  return { page with entries }

/-- The lines that are left; `fuel` bounds their number. -/
def lines : (fuel : Nat) → Page → Reader Page
  | 0, _ => failure
  | fuel + 1, page => do
    blanks
    match ← peek with
    | none => return page
    | some '#' => comment; lineEnd; lines fuel page
    | some '\n' => newline; lines fuel page
    | some '\r' => newline; lines fuel page
    | some '[' => lines fuel (← heading page)
    | _ => lines fuel (← assignment page)

/-- Reads a document. A byte order mark may stand in front of it. -/
def Table.ofText? (s : String) : Option Table :=
  let l := match s.toList with
    | '\uFEFF' :: r => r
    | l => l
  (lines (l.length + 1) {} l).map fun p => Draft.finishAll p.1.entries

end SessionMux.Toml
