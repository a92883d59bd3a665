import SessionMux.CommandLine.Reading

/-!
# The command line of the program

The program has four commands, and options that may stand before a command or behind it. What is
given behind the command counts more, and the environment counts where the words say nothing.

* `Invocation.parse` reads a command line.
-/

namespace SessionMux

open CommandLine

/-- What the program is asked to do. -/
inductive ProgramCommand where
  /-- Print hook events until the host goes away. -/
  | watch (noLiveness : Bool)
  /-- Insert text into the command line of a session. -/
  | insertText (session text : String) (immediate : Bool)
  /-- Replace the command line of a session. -/
  | setBuffer (session text : String) (cursor : Option UInt64)
  /-- Run a process in the surroundings of a session, and print how it ends. -/
  | run (session executable : String) (arguments : List String) (workingDirectory : Option String)
deriving DecidableEq

/-- A command line that can be carried out. -/
structure Invocation where
  url : Option String
  config : Option String
  verbosity : Nat
  command : ProgramCommand
deriving DecidableEq

namespace Invocation

/-! ## Values -/

/-- Any value will do. -/
def anyText (_ : String) : Except UsageFault Unit := .ok ()

/-- A value that is not empty. -/
def someText (s : String) : Except UsageFault Unit := if s.isEmpty then .error .missingValue else .ok ()

/-- A number of 64 bits in decimal digits, with a plus before them or without. -/
def number? (s : String) : Option UInt64 :=
  let ds := match s.toList with
    | '+' :: l => l
    | l => l
  let n := ds.foldl (fun n c => 10 * n + (c.toNat - '0'.toNat)) 0
  if ds.isEmpty || !ds.all Char.isDigit || Nat.pow 2 64 ≤ n then none else some n.toUInt64

/-- A value that is such a number. -/
def numberText (s : String) : Except UsageFault Unit :=
  if (number? s).isSome then .ok () else .error .badValue

/-! ## Forms -/

/-- The options that may stand before a command and behind it, and those for help. -/
def commonOptions : List OptionForm :=
  [{ long := "url", kind := .value anyText }, { long := "config", kind := .value someText },
    { long := "verbose", short := some 'v', kind := .count },
    { long := "help", short := some 'h', kind := .help }]

/-- The option for the session that a command is about. -/
def sessionOption : OptionForm :=
  { long := "session", short := some 's', kind := .value anyText, required := true }

/-- The forms of the commands. -/
def commandForms : List (String × Form) :=
  [("watch", { options := { long := "no-liveness", kind := .flag } :: commonOptions }),
    ("insert-text", {
      options := sessionOption :: { long := "immediate", kind := .flag } :: commonOptions
      positionals := [{ name := "text" }] }),
    ("set-buffer", {
      options := sessionOption :: { long := "cursor", kind := .value numberText } :: commonOptions
      positionals := [{ name := "text" }] }),
    ("run", {
      options := sessionOption :: { long := "cwd", kind := .value anyText } :: commonOptions
      positionals := [{ name := "executable" },
        { name := "args", required := false, takesRest := true }] })]

/-- The names that may stand for a command. -/
def commandNames : List String := commandForms.map (·.1) ++ ["help"]

/-- The form of what stands before the command. -/
def programForm : Form where
  options := { long := "version", short := some 'V', kind := .version } :: commonOptions
  subcommands := commandNames

/-! ## Commands -/

/-- What the words behind the name of a command give. -/
def commandOf (name : String) (g : Given) : ProgramCommand :=
  let text (k : String) : String := (g.value? k).getD ""
  match name with
  | "insert-text" => .insertText (text "session") (text "text") (g.flags.contains "immediate")
  | "set-buffer" => .setBuffer (text "session") (text "text") ((g.value? "cursor").bind number?)
  | "run" => .run (text "session") (text "executable") g.rest (g.value? "cwd")
  | _ => .watch (g.flags.contains "no-liveness")

/-- The words behind `help`: the name of a command, or none. -/
def helpFault : List String → UsageFault
  | [] => .help
  | [name] => if commandNames.contains name then .help else .unknownSubcommand
  | _ => .unknownSubcommand

/-- The words behind the name of a command. -/
def parseCommand (name : String) (words : List String) : Except UsageFault Given := do
  if name = "help" then throw (helpFault words)
  match commandForms.lookup name with
  | none => throw .unknownSubcommand
  | some form =>
    let (p, _) ← form.read words {}
    let p ← p.settle
    if !form.isComplete p.given then throw .missingArgument
    return p.given

/-- Reads a command line; the environment may name the host. What is wrong behind the name of the
command is reported before what is still unsettled in front of it. -/
def parse (environmentUrl : Option String) (words : List String) : Except UsageFault Invocation := do
  let (p, rest) ← programForm.read words {}
  match rest with
  | none =>
    let p ← p.settle
    throw (if p.given.isEmpty && environmentUrl.isNone then .nothingGiven else .noSubcommand)
  | some (name, words) =>
    let own ← parseCommand name words
    let common := (← p.settle).given
    return {
      url := own.value? "url" <|> common.value? "url" <|> environmentUrl
      config := own.value? "config" <|> common.value? "config"
      verbosity := (own.count? "verbose" <|> common.count? "verbose").getD 0
      command := commandOf name own }

end Invocation

end SessionMux
