/-!
# Log filters

A filter is a list of directives with commas between them. A directive is a level, a target, or a
target with a level; between target and level, brackets may hold the name of a span and, in braces,
names of fields.

What is logged belongs to a target, and the directive with the longest target that begins the name
of that target decides: whatever is as urgent as its level, or more so, is let through.

* `Directive.parse` reads one directive.
* `LogFilter.admits` decides about one occurrence.
-/

namespace SessionMux

/-! ## White space -/

namespace Text

/-- White space of any script: the blanks and line ends of ASCII, the no-break space, and the blanks
and separators beyond. -/
def isSpace (c : Char) : Bool :=
  let n := c.toNat
  (9 ≤ n && n ≤ 13) || n == 32 || n == 0x85 || n == 0xA0 || n == 0x1680 ||
    (0x2000 ≤ n && n ≤ 0x200A) || n == 0x2028 || n == 0x2029 || n == 0x202F || n == 0x205F ||
    n == 0x3000

/-- Without white space at either end. -/
def trim (l : List Char) : List Char :=
  ((l.dropWhile isSpace).reverse.dropWhile isSpace).reverse

end Text

/-! ## Levels -/

/-- How urgent an occurrence is, the most urgent first. -/
inductive LogLevel where
  | error
  | warn
  | info
  | debug
  | trace
deriving DecidableEq

/-- The place of a level in the order of urgency, from 1. -/
def LogLevel.rank : LogLevel → Nat
  | .error => 1
  | .warn => 2
  | .info => 3
  | .debug => 4
  | .trace => 5

/-- The least urgent level that is let through, if any is. -/
abbrev LevelBound : Type := Option LogLevel

/-- A level is as urgent as a bound asks, or more so. -/
def LogLevel.within (l : LogLevel) : LevelBound → Bool
  | none => false
  | some bound => l.rank ≤ bound.rank

/-- Why a filter cannot be read. -/
inductive FilterFault where
  /-- What stands for a level is none. -/
  | level
  /-- The parts of a directive are not in order. -/
  | shape
deriving DecidableEq

/-- The wording of a fault. -/
def FilterFault.text : FilterFault → String
  | .level => "error parsing level filter: expected one of \"off\", \"error\", \"warn\", " ++
      "\"info\", \"debug\", \"trace\", or a number 0-5"
  | .shape => "invalid filter directive"

/-! ## Levels -/

/-- A number in decimal digits, with a plus before them or without. -/
def plainNumber? (l : List Char) : Option Nat :=
  let ds := match l with
    | '+' :: r => r
    | l => l
  if ds.isEmpty || !ds.all Char.isDigit then none
  else some (ds.foldl (fun n c => 10 * n + (c.toNat - '0'.toNat)) 0)

/-- A bound by its number or by its name in letters of any case. No text at all means errors. -/
def levelBound? (l : List Char) : Option LevelBound :=
  match plainNumber? l with
  | some 0 => some none
  | some 1 => some (some .error)
  | some 2 => some (some .warn)
  | some 3 => some (some .info)
  | some 4 => some (some .debug)
  | some 5 => some (some .trace)
  | _ =>
    match String.ofList (l.map Char.toLower) with
    | "" => some (some .error)
    | "error" => some (some .error)
    | "warn" => some (some .warn)
    | "info" => some (some .info)
    | "debug" => some (some .debug)
    | "trace" => some (some .trace)
    | "off" => some none
    | _ => none

/-! ## Directives -/

/-- One rule of a filter. -/
structure Directive where
  bound : LevelBound := some .trace
  target : Option (List Char) := none
  span : Option (List Char) := none
  fields : List (List Char) := []
deriving DecidableEq

namespace Directive

/-- Where the reading of a directive stands; the numbers are the places where a part began. -/
inductive Stage where
  | start
  | word (start : Nat)
  | span (start : Nat)
  | field (start : Nat)
  | fieldsDone
  | spanDone
  | level (start : Nat)

/-- A character that a directive may begin with: a letter or digit of any script, a dash, a colon or
an underscore. Beyond ASCII, whatever is not in a block of punctuation, symbols or private use counts
as a letter. -/
def mayBegin (c : Char) : Bool :=
  let n := c.toNat
  if n < 0x80 then c.isAlphanum || c == '-' || c == ':' || c == '_'
  else !((n ≤ 0xBF && n != 0xAA && n != 0xB2 && n != 0xB3 && n != 0xB5 && n != 0xB9 && n != 0xBA &&
      n != 0xBC && n != 0xBD && n != 0xBE) || n == 0xD7 || n == 0xF7 ||
    (0x2000 ≤ n && n ≤ 0x206F) || (0x20A0 ≤ n && n ≤ 0x20FF) || (0x2190 ≤ n && n ≤ 0x245F) ||
    (0x2500 ≤ n && n ≤ 0x2775) || (0x2794 ≤ n && n ≤ 0x2BFF) || (0x3000 ≤ n && n ≤ 0x3004) ||
    (0x3008 ≤ n && n ≤ 0x3020) || (0xE000 ≤ n && n ≤ 0xF8FF) || (0x1F000 ≤ n && n ≤ 0x1F0FF) ||
    0x1F200 ≤ n && n ≤ 0x1FAFF)

/-- The characters of a text from one place up to another. -/
def cut (l : List Char) (start stop : Nat) : List Char := (l.take stop).drop start

/-- The bound that stands for a level; nothing means that everything is let through. -/
def boundOf (l : List Char) : Except FilterFault LevelBound :=
  if l.isEmpty then .ok (some .trace)
  else match levelBound? l with
    | some b => .ok b
    | none => .error .level

/-- What one character at a place does. The parts are cut out of the whole text `l`. -/
def read (l : List Char) (i : Nat) (c : Char) (d : Directive) (s : Stage) :
    Except FilterFault (Directive × Stage) :=
  match s with
  | .start =>
    if c == '[' then .ok (d, .span (i + 1))
    else if mayBegin c then .ok (d, .word i)
    else .error .shape
  | .word start =>
    if c == '=' then .ok ({ d with target := some (cut l start i) }, .level (i + 1))
    else if c == '[' then .ok ({ d with target := some (cut l start i) }, .span (i + 1))
    else .ok (d, s)
  | .span start =>
    if c == ']' then .ok ({ d with span := some (cut l start i) }, .spanDone)
    else if c == '\x7b' then
      let name := cut l start i
      .ok ({ d with span := if name.isEmpty then none else some name }, .field (i + 1))
    else .ok (d, s)
  | .field start =>
    if c == '\x7d' then
      let name := cut l start i
      if name.isEmpty then .error .shape
      else .ok ({ d with fields := d.fields ++ [name] }, .fieldsDone)
    else .ok (d, s)
  | .fieldsDone => if c == ']' then .ok (d, .spanDone) else .error .shape
  | .spanDone => if c == '=' then .ok (d, .level (i + 1)) else .error .shape
  | .level _ => .ok (d, s)

/-- Reads the characters from a place on. -/
def readAll (l : List Char) : Nat → List Char → Directive → Stage →
    Except FilterFault (Directive × Stage)
  | _, [], d, s => .ok (d, s)
  | i, c :: rest, d, s =>
    match read l i c d s with
    | .ok (d, s) => readAll l (i + 1) rest d s
    | .error f => .error f

/-- What the end of the text means. A single word is a level if it can be one. -/
def finish (l : List Char) (d : Directive) : Stage → Except FilterFault Directive
  | .word start =>
    let word := l.drop start
    match levelBound? word with
    | some b => .ok { d with bound := b, target := none }
    | none => .ok { d with bound := some .trace, target := some word }
  | .level start => (boundOf (l.drop start)).map fun b => { d with bound := b }
  | .spanDone => .ok d
  | _ => .error .shape

/-- Reads a directive. White space at the ends is passed over, but the places of the parts are
counted without it, so that it shifts every part. -/
def parse (l : List Char) : Except FilterFault Directive :=
  match readAll l 0 (Text.trim l) {} .start with
  | .ok (d, s) => finish l d s
  | .error f => .error f

/-- The directive speaks about occurrences of a target. One that names fields speaks only about
events that have them all, and about every span. A directive for what happens inside a span, or for
values of fields, speaks about nothing else. -/
def covers (target : List Char) (fields : Option (List (List Char))) (d : Directive) : Bool :=
  d.span.isNone && d.fields.all (fun f => !f.contains '=') &&
    (d.target.getD []).isPrefixOf target && fields.all fun l => d.fields.all l.contains

/-- How special a directive is: by the length of its target and the number of its fields. -/
def isAsSpecial (a b : Directive) : Bool :=
  let size := fun (d : Directive) => (d.target.map fun t => t.length + 1).getD 0
  size b < size a || (size a == size b && b.fields.length ≤ a.fields.length)

end Directive

/-! ## Filters -/

/-- The directives of a filter. -/
abbrev LogFilter : Type := List Directive

namespace LogFilter

/-- Reads the directives between commas; empty ones are passed over, and the first that cannot be
read makes the whole filter useless. -/
def parse (s : String) : Except FilterFault LogFilter :=
  ((s.splitOn ",").filter (· ≠ "")).mapM fun part => Directive.parse part.toList

/-- The bound of the most special directive that speaks about a target: about its events with the
given fields or, where none are given, about its spans. Of two directives about the same, the later
counts. -/
def bound (f : LogFilter) (target : List Char) (fields : Option (List (List Char))) : LevelBound :=
  let best := (f.filter (Directive.covers target fields)).foldl (fun best d =>
    match best with
    | none => some d
    | some b => if d.isAsSpecial b then some d else some b) (none : Option Directive)
  best.bind Directive.bound

/-- An occurrence of a level is let through. -/
def admits (f : LogFilter) (target : List Char) (fields : Option (List (List Char)))
    (l : LogLevel) : Bool :=
  l.within (f.bound target fields)

end LogFilter

end SessionMux
