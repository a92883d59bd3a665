/-!
# Where the program keeps its files

Settings and state have directories of their own, each under a base directory that the environment
may name, and otherwise under the home directory. A base directory that is not absolute counts as
not named.
-/

namespace SessionMux.Files

/-- What the environment says about directories. -/
structure Surroundings where
  home : Option String := none
  configBase : Option String := none
  stateBase : Option String := none
  /-- The home directory of the account that runs the program. -/
  accountHome : Option String := none

/-- A path continued by another, which replaces it if it is absolute. -/
def joinPath (base rest : String) : String :=
  if rest.startsWith "/" then rest
  else if base.isEmpty || base.endsWith "/" then base ++ rest
  else base ++ "/" ++ rest

namespace Surroundings

/-- The home directory: an empty name for it counts as none. -/
def userHome? (s : Surroundings) : Option String :=
  match s.home with
  | some h => if h.isEmpty then s.accountHome else some h
  | none => s.accountHome

/-- A directory of the program: under the named base if that is absolute, and otherwise under a
place in the home directory, or in one for everybody where there is no home. -/
def directory (s : Surroundings) (base : Option String) (place : String) : String :=
  let root := match s.userHome? with
    | some home =>
      match base.filter (·.startsWith "/") with
      | some b => b
      | none => joinPath home place
    | none => joinPath (s.home.getD "/tmp") place
  joinPath root "hostmux"

/-- The directory of the settings. -/
def configDirectory (s : Surroundings) : String := s.directory s.configBase ".config"

/-- The settings file. -/
def configFile (s : Surroundings) : String := joinPath s.configDirectory "config.toml"

/-- The directory of what the program keeps between runs. -/
def stateDirectory (s : Surroundings) : String := s.directory s.stateBase ".local/state"

/-- The directory of the log files. -/
def logDirectory (s : Surroundings) : String := joinPath s.stateDirectory "log"

end Surroundings

end SessionMux.Files
