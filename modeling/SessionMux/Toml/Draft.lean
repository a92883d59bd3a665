/-!
# TOML values, and tables in the making

A TOML document is a table: names with values, in no order that means anything. Numbers with a
fraction or an exponent, and dates and times, are only recognised; nothing here uses what they
stand for.

A document may come back to a table to add to it, but not to one that it has closed. Whether it may
depends on how the table came to be, so a draft keeps that beside the entries.

* `Value`, `Table` — what a document comes to.
* `Draft.within` — follows a path of names, makes the tables that are missing, and changes the one at
  its end.
* `Draft.assign` — what a line `a.b.c = v` does to the table it stands in.
* `Draft.declare`, `Draft.append` — what the headers `[a.b]` and `[[a.b]]` do to the document.
-/

namespace SessionMux.Toml

/-- A value of a document. -/
inductive Value where
  | string (s : String)
  | integer (n : Int)
  | float
  | boolean (b : Bool)
  | moment
  | array (items : List Value)
  | table (entries : List (String × Value))

/-- A table of values. -/
abbrev Table : Type := List (String × Value)

/-- How a table came to be. -/
inductive Origin where
  /-- By a header of its own or by braces. The table of a whole document is of this kind too. -/
  | declared
  /-- On the way of a longer header. -/
  | implied
  /-- On the way of a dotted key. -/
  | dotted
  deriving DecidableEq

/-- A value, or a table that the document may still come back to. -/
inductive Draft where
  | value (v : Value)
  | table (origin : Origin) (entries : List (String × Draft))
  /-- An array of tables; only the last one may change. -/
  | tables (earlier : List Value) (last : List (String × Draft))

/-- The entries of a table in the making, in the order in which they were first named. -/
abbrev Entries : Type := List (String × Draft)

namespace Draft

mutual

/-- The value that a draft has come to. -/
def finish : Draft → Value
  | .value v => v
  | .table _ entries => .table (finishAll entries)
  | .tables earlier last => .array (earlier ++ [.table (finishAll last)])

/-- The table that entries have come to. -/
def finishAll : Entries → Table
  | [] => []
  | (name, d) :: rest => (name, d.finish) :: finishAll rest

end

/-- Puts a draft under a name, in place of what was there. -/
def put (name : String) (d : Draft) : Entries → Entries
  | [] => [(name, d)]
  | e :: rest => if e.1 == name then (name, d) :: rest else e :: put name d rest

/-- Changes the table at the end of a path that starts in a table of the given origin. What is
missing on the way is made. A dotted key may not enter a table that was declared, and no path leads
through a value. -/
def within (dotted : Bool) (change : Origin → Entries → Option Entries) :
    List String → Origin → Entries → Option Entries
  | [], origin, entries => change origin entries
  | name :: path, _, entries =>
    match entries.lookup name with
    | none => do
      let origin := if dotted then .dotted else .implied
      return put name (.table origin (← within dotted change path origin [])) entries
    | some (.value _) => none
    | some (.table origin inner) =>
      if dotted && origin == .declared then none
      else do return put name (.table origin (← within dotted change path origin inner)) entries
    | some (.tables earlier last) => do
      return put name (.tables earlier (← within dotted change path .declared last)) entries

/-- Gives a value to a name that has none yet, at the end of a dotted path. The table there must
have been made by dotted keys exactly if the path is not empty. -/
def assign (path : List String) (name : String) (v : Value) (origin : Origin) (entries : Entries) :
    Option Entries :=
  within true (fun origin entries =>
    if (origin == .dotted) == path.isEmpty || (entries.lookup name).isSome then none
    else some (put name (.value v) entries)) path origin entries

/-- Opens the table of a header: a new one, or one that only longer headers have named. -/
def declare (path : List String) (name : String) (entries : Entries) : Option Entries :=
  within false (fun _ entries =>
    match entries.lookup name with
    | none => some (put name (.table .declared []) entries)
    | some (.table .implied inner) => some (put name (.table .declared inner) entries)
    | some _ => none) path .declared entries

/-- Opens one more table of an array of tables. -/
def append (path : List String) (name : String) (entries : Entries) : Option Entries :=
  within false (fun _ entries =>
    match entries.lookup name with
    | none => some (put name (.tables [] []) entries)
    | some (.tables earlier last) =>
      some (put name (.tables (earlier ++ [.table (finishAll last)]) []) entries)
    | some _ => none) path .declared entries

end Draft

end SessionMux.Toml
