import SessionMux.Files.Directory
import SessionMux.Files.Locations
import SessionMux.Logging.Options
import SessionMux.MuxFault

/-!
# Setting up the log

A log can be set up once in the life of a process. It goes to one or two sinks: the standard error
output, a file that is written at its end, or both. With both, the file shows neither spans nor
places.

* `LogState.setUp` — what an attempt answers and leaves. The filter is read first, the file is opened
  next, and only then it shows whether there is a log already.
* `Log.shows` — whether a sink shows an occurrence.
-/

namespace SessionMux

/-- What may be logged. -/
inductive Occurrence where
  | event (level : LogLevel)
  | enter
  | leave
deriving DecidableEq

/-- What a line of the log says of an occurrence. -/
def Occurrence.text : Occurrence → String
  | .event .error => "ERROR"
  | .event .warn => "WARN"
  | .event .info => "INFO"
  | .event .debug => "DEBUG"
  | .event .trace => "TRACE"
  | .enter => "enter"
  | .leave => "exit"

/-- Where the lines of a log go. -/
inductive LogPlace where
  | stderr
  | file (path : String)
deriving DecidableEq

/-- One destination of a log, and what its lines show. -/
structure LogSink where
  place : LogPlace
  spanEvents : Bool
  location : Bool
  colours : Bool
deriving DecidableEq

/-- A log that has been set up. -/
structure Log where
  filter : LogFilter
  sinks : List LogSink

/-- A sink shows an occurrence of a target: if the filter lets it through and, when a span is entered
or left, if the sink shows spans. Events have a message, and spans are of the level for information. -/
def Log.shows (log : Log) (sink : LogSink) (target : String) : Occurrence → Bool
  | .event level => log.filter.admits target.toList (some ["message".toList]) level
  | .enter | .leave => sink.spanEvents && log.filter.admits target.toList none .info

/-- What a sink shows, in the order in which it happens. -/
def Log.lines (log : Log) (sink : LogSink) (l : List (String × Occurrence)) :
    List (String × Occurrence) :=
  l.filter fun o => log.shows sink o.1 o.2

/-- The files and the log of a process. -/
structure LogState where
  files : Files.Node
  log : Option Log := none

/-- The usual name of a log file. -/
def usualLogFile : String := "hostmux.log"

namespace LogOptions

/-- The sinks of a log, where the file is at a path. -/
def sinks (o : LogOptions) (path : String) : List LogSink :=
  let stderr : LogSink := ⟨.stderr, o.spanEvents, o.location, true⟩
  match o.output with
  | .stderr => [stderr]
  | .file => [⟨.file path, o.spanEvents, o.location, false⟩]
  | .both => [stderr, ⟨.file path, false, false, false⟩]

end LogOptions

/-- Opens the log file of a name in a directory, which is made if it is missing. -/
def openLogFile (directory name : String) (files : Files.Node) :
    Except MuxFault Unit × Files.Node :=
  match Files.ensureDirectory files (.ofString directory) with
  | (.error e, files) => (.error (.fileWrite directory e), files)
  | (.ok (), files) =>
    let path := Files.joinPath directory name
    match files.openFile (.ofString path) with
    | .error e => (.error (.fileWrite path e), files)
    | .ok files => (.ok (), files)

namespace LogState

/-- What is said of a filter that cannot be read. -/
def badFilterReason (f : FilterFault) : String := "Invalid log filter: " ++ f.text

/-- The fault of a filter that cannot be read. -/
def badFilter (f : FilterFault) : MuxFault := .internal (badFilterReason f)

/-- What is said of a second log. -/
def alreadySetUp : MuxFault :=
  .internal "Failed to init logging: a global default trace dispatcher has already been set"

/-- Makes a log the log of the process, if there is none yet. -/
def adopt (log : Log) (s : LogState) : Except MuxFault Unit × LogState :=
  match s.log with
  | some _ => (.error alreadySetUp, s)
  | none => (.ok (), { s with log := some log })

/-- Sets up the log, whose file is in the given directory. -/
def setUp (directory : String) (o : LogOptions) (s : LogState) : Except MuxFault Unit × LogState :=
  match LogFilter.parse o.filter with
  | .error f => (.error (badFilter f), s)
  | .ok filter =>
    let name := o.fileName.getD usualLogFile
    let log : Log := ⟨filter, o.sinks (Files.joinPath directory name)⟩
    if o.output = .stderr then s.adopt log
    else match openLogFile directory name s.files with
      | (.error f, files) => (.error f, { s with files })
      | (.ok (), files) => { s with files }.adopt log

end LogState

end SessionMux
