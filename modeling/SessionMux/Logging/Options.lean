import SessionMux.Logging.Filter

/-!
# How to log

Where the log goes, what it shows and what it leaves out, with the choices made for the uses of the
library. A filter that the environment names counts in some of them.
-/

namespace SessionMux

/-- Where the log goes. -/
inductive LogOutput where
  | stderr
  | file
  | both
deriving DecidableEq

/-- How to log. -/
structure LogOptions where
  output : LogOutput := .stderr
  filter : String := "info"
  /-- Spans are shown when they are entered and left. -/
  spanEvents : Bool := false
  /-- The place in the program is shown. -/
  location : Bool := false
  /-- The name of the log file, if it is not the usual one. -/
  fileName : Option String := none
deriving DecidableEq

namespace LogOptions

/-- For the command line program, whose output is on the standard output. -/
def commandLine (environment : Option String) : LogOptions :=
  { filter := environment.getD "warn" }

/-- For programs that run long, and log to a file. -/
def service (environment : Option String) : LogOptions where
  output := .file
  filter := environment.getD "info"
  spanEvents := true
  location := true

/-- For development: everything that helps to find faults. -/
def development : LogOptions where
  filter := "debug"
  spanEvents := true
  location := true

/-- More is shown the higher the verbosity. A filter from the environment wins over any verbosity. -/
def withVerbosity (environment : Option String) (verbosity : Nat) (o : LogOptions) : LogOptions :=
  if verbosity = 0 ∨ environment.isSome then o
  else match verbosity with
    | 1 => { o with filter := "info" }
    | 2 => { o with filter := "debug" }
    | _ => { o with filter := "trace" }

end LogOptions

end SessionMux
