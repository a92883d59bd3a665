import SessionMux.CommandLine.Reading
import SessionMux.Json.Value
import SessionMux.MuxFault

/-!
# What a run leaves behind

A run of the program ends with an exit code, after it has printed its results, and said what went
wrong if something did.
-/

namespace SessionMux

open CommandLine

/-- What a run of the program leaves behind. -/
structure RunReport where
  exitCode : Nat
  /-- What was printed on the standard output. -/
  output : String := ""
  /-- What was said about a command line that was not carried out. -/
  notice : Option String := none
  /-- The first line of the report of an error. -/
  errorLine : Option String := none
deriving DecidableEq

namespace RunReport

/-- The text up to the end of its first line. -/
def firstLine (s : String) : String := String.ofList (s.toList.takeWhile (· != '\n'))

/-- The program fails at its work. -/
def failed (f : MuxFault) : RunReport := { exitCode := 1, errorLine := some (firstLine f.text) }

/-- The program fails before its work, with the kind of the fault and the quoted reason. -/
def failedEarly (reason : String) : RunReport where
  exitCode := 1
  errorLine := some ("Internal(" ++ String.ofList (Json.quote reason) ++ ")")

/-- What is printed for the version. -/
def versionLine : String := "hostmux-client 0.1.0\n"

/-- What is printed for help. -/
def helpText : String :=
  "Session mux backend and command line client for hostmux\n\n" ++
  "Usage: hostmux-client [OPTIONS] <COMMAND>\n\n" ++
  "Commands:\n" ++
  "  watch        Print inbound hook events as JSON lines until the host goes away\n" ++
  "  insert-text  Insert text into a session's command line\n" ++
  "  set-buffer   Replace a session's command line\n" ++
  "  run          Run a process in a session's environment and print its result\n" ++
  "  help         Print this message or the help of the given subcommand(s)\n\n" ++
  "Options:\n" ++
  "      --url <URL>        WebSocket URL of the host\n" ++
  "      --config <CONFIG>  Config file to use instead of the default location\n" ++
  "  -v, --verbose...       Increase log verbosity (-v info, -vv debug, -vvv trace)\n" ++
  "  -h, --help             Print help\n" ++
  "  -V, --version          Print version\n"

/-- A command line that is not carried out. -/
def refused (f : UsageFault) : RunReport :=
  match f with
  | .help => { exitCode := f.exitCode, output := helpText }
  | .version => { exitCode := f.exitCode, output := versionLine }
  | .nothingGiven => { exitCode := f.exitCode, notice := some helpText }
  | f => { exitCode := f.exitCode, notice := some ("error: " ++ f.text) }

/-- The program has come to the end of its work, having printed some texts. -/
def finished (printed : List String) (r : Except MuxFault Unit) : RunReport :=
  let output := String.join (printed.map (· ++ "\n"))
  match r with
  | .ok () => { exitCode := 0, output }
  | .error f => { failed f with output }

end RunReport

end SessionMux
