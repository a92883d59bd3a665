import SessionMux.Files.Locations
import SessionMux.Program.Startup
import SessionMux.Transport.Isolated

/-!
# The command line program

Asks the environment for what the start of the program needs, and prints what a run leaves behind.
There is no transport here, so that no host can be reached.
-/

open SessionMux

/-- The content of a file, as far as it can be had. -/
def contentAt (path : String) : IO (Except SystemError ByteArray) := do
  try
    return .ok (← IO.FS.readBinFile path)
  catch
    | .noFileOrDirectory .. => return .error .noSuchEntry
    | .inappropriateType .. => return .error .isADirectory
    | _ => return .error .notADirectory

/-- What the environment says, with the files that the command line and the environment name. -/
def surroundings (words : List String) : IO ProgramSurroundings := do
  let places : Files.Surroundings := {
    home := ← IO.getEnv "HOME", configBase := ← IO.getEnv "XDG_CONFIG_HOME" }
  let url ← IO.getEnv "HOSTMUX_URL"
  let usual := places.configFile
  let named := match Invocation.parse url words with
    | .ok i => i.config.toList
    | .error _ => []
  let files ← (usual :: named).mapM fun path => return (path, ← contentAt path)
  return {
    url, logFilter := ← IO.getEnv "HOSTMUX_LOG", configFile := usual
    contentOf := fun path => (files.lookup path).getD (.error .noSuchEntry) }

/-- Runs the program as far as it goes. -/
def runOf (s : ProgramSurroundings) (words : List String) : RunReport :=
  match prepare s words with
  | .error r => r
  | .ok plan =>
    match plan.connect fun _ => isolated with
    | .error r => r
    | .ok impossible => impossible.elim

def main (words : List String) : IO UInt32 := do
  let r := runOf (← surroundings words) words
  IO.print r.output
  if let some notice := r.notice then IO.eprintln notice
  if let some line := r.errorLine then IO.eprintln ("Error: " ++ line)
  return r.exitCode.toUInt32
