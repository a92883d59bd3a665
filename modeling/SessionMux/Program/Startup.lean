import SessionMux.CommandLine.Invocation
import SessionMux.Logging.Setup
import SessionMux.Program.RunReport
import SessionMux.Settings.Source
import SessionMux.Transport.Retry

/-!
# The start of the program

Before the program does what it was asked to, it reads its command line, sets up its log, reads its
settings and connects to the host. Whatever fails first ends it.

* `prepare` goes as far as the settings.
* `Plan.connect` dials the host.
-/

namespace SessionMux

/-- What the program finds around it. -/
structure ProgramSurroundings where
  /-- The host that the environment names. -/
  url : Option String := none
  /-- The log filter that the environment names. -/
  logFilter : Option String := none
  /-- Where the settings are unless the command line says so. -/
  configFile : String
  contentOf : String → Except SystemError ByteArray

/-- What is left to do once everything has been read. -/
structure Plan where
  url : String
  settings : Settings
  command : ProgramCommand

/-- The settings of a run: those of the file that the command line names, which must be good, or
those in the usual place. -/
def ProgramSurroundings.settings (s : ProgramSurroundings) :
    Option String → Except MuxFault Settings
  | some path => Settings.read path (s.contentOf path)
  | none => .ok (Settings.readOrDefault s.configFile (s.contentOf s.configFile))

/-- Reads the command line, the log filter and the settings, in this order. -/
def prepare (s : ProgramSurroundings) (words : List String) : Except RunReport Plan :=
  match Invocation.parse s.url words with
  | .error f => .error (.refused f)
  | .ok i =>
    let log := (LogOptions.commandLine s.logFilter).withVerbosity s.logFilter i.verbosity
    match LogFilter.parse log.filter with
    | .error f => .error (.failedEarly (LogState.badFilterReason f))
    | .ok _ =>
      match s.settings i.config with
      | .error f => .error (.failed f)
      | .ok settings => .ok ⟨i.url.getD settings.connection.url, settings, i.command⟩

/-- Dials the host as often as the settings say. -/
def Plan.connect {α : Type} (p : Plan) (network : Nat → Address → Except IoFault α) :
    Except RunReport α :=
  let c := p.settings.connection
  match (connectWithRetry c.attempts c.retryDelay fun k => dial (network k) p.url).1 with
  | .ok a => .ok a
  | .error f => .error (.failed f)

end SessionMux
