import SessionMux.CommandLine.Invocation
import SessionMux.Hub.Basic
import SessionMux.Hub.Monitor
import SessionMux.Message.Report
import SessionMux.Program.RunReport
import SessionMux.Settings.Basic

/-!
# The program at work

Once it is connected, the program does the one thing it was asked to, closes the connection, and
waits a while for the inbound task to end, so that what it sent still goes out.

Four parties take their turns in any order: the pump, the inbound task, the monitor and the program
itself. While it watches, the program waits for two things, and when both have come it may go on with
either.

* `Session.start` is the program right after it has connected.
* `Session.step?` is one turn of one party.
-/

namespace SessionMux

/-- What the program waits for. -/
inductive Errand where
  /-- The end of the connection, or a report of the monitor. -/
  | watching
  /-- The end of a process. -/
  | calling (c : Call)
  /-- The end of the inbound task, up to the moment `deadline`. -/
  | closing (result : Except MuxFault Unit) (deadline : Nat)
  | done (result : Except MuxFault Unit)

/-- The program, connected to a host. What it has printed is kept by its hub. -/
structure Session where
  hub : Hub (List String)
  fromHost : Pipe := {}
  toHost : Pipe := {}
  monitor : Option Monitor := none
  /-- Reports that the program has not looked at, the oldest first. -/
  reports : List DisconnectReason := []
  errand : Errand

/-- What ends a watch. -/
inductive WatchEnd where
  | hostGone
  | unresponsive
deriving DecidableEq

/-- Whose turn it is. -/
inductive SessionTurn where
  | pump (t : Turn)
  | inbound
  | monitor
  /-- The program; while it watches, it looks at one of the two things it waits for. -/
  | program (looksFor : WatchEnd)
deriving DecidableEq

/-- How long the program waits for the inbound task to end, in milliseconds. -/
def shutdownGrace : Nat := 2000

/-- The line that is printed for a hook. -/
def HookEvent.line (e : HookEvent) : String := e.toJson.line

/-- What is printed for the end of a process. -/
def ProcessResult.pages (r : ProcessResult) : String := r.toJson.pages

/-- Prints each hook that it is called for. -/
def printHook : HubCallback (List String) :=
  fun e => .act (.own fun printed => printed ++ [e.line]) fun _ => .done

/-- All kinds of hooks. -/
def HookKind.all : List HookKind := [.editBuffer, .prompt, .preExec, .postExec, .interceptedKey]

/-- Subscribes the printer to every kind of hook. -/
def Hub.printAll (h : Hub (List String)) : Hub (List String) :=
  HookKind.all.foldl (fun h kind => (h.subscribe kind printHook).2) h

/-- The fault that a report of the monitor makes. -/
def DisconnectReason.fault (r : DisconnectReason) : MuxFault :=
  .connection ("host unresponsive: " ++ r.text)

/-- For a watch, the end of the connection is a good end. -/
def watchResult : Except MuxFault Unit → Except MuxFault Unit
  | .error f => if f.isClosed then .ok () else .error f
  | r => r

namespace Session

/-- Closes the connection and waits for the inbound task. -/
def leave (s : Session) (now : Nat) (result : Except MuxFault Unit) : Session :=
  { s with hub := s.hub.close, errand := .closing result (now + shutdownGrace) }

/-- Ends at once, because a request failed. -/
def fail (s : Session) (f : MuxFault) : Session :=
  { s with hub := s.hub.close, errand := .done (.error f) }

/-- Ends a watch: the monitor is given up, and then the connection is closed. -/
def endWatch (s : Session) (now : Nat) (result : Except MuxFault Unit) : Session :=
  let outbox := match s.monitor with
    | some m => m.drop s.hub.outbox
    | none => s.hub.outbox
  { s with hub := { s.hub with outbox := outbox }, monitor := none }.leave now (watchResult result)

/-- Sends a request that expects no reply, and leaves. -/
def deliver (s : Session) (now : Nat) (session : String) (r : Request) : Session :=
  let (a, outbox) := s.hub.outbox.send session r
  let s := { s with hub := { s.hub with outbox := outbox } }
  match a with
  | .ok _ => s.leave now (.ok ())
  | .error f => s.fail f

/-- The program right after it has connected, at the moment `now`. -/
def start (settings : Settings) (command : ProgramCommand) (now : Nat) : Session :=
  let s : Session := { hub := .start settings.hub [], errand := .watching }
  match command with
  | .watch noLiveness =>
    { s with
      hub := s.hub.printAll
      monitor := if noLiveness then none else some { heartbeat := .start settings.liveness now } }
  | .insertText session text immediate =>
    let r : InsertText := { insertion := some text, immediate := some immediate }
    s.deliver now session (.insertText r)
  | .setBuffer session text cursor => s.deliver now session (.setBuffer ⟨text, cursor⟩)
  | .run session executable arguments workingDirectory =>
    match s.hub.outbox.runProcess session ⟨executable, arguments, workingDirectory, []⟩ now with
    | (.ok c, outbox) => { s with hub := { s.hub with outbox := outbox }, errand := .calling c }
    | (.error f, outbox) => { s with hub := { s.hub with outbox := outbox } }.fail f

/-- Prints a text. -/
def print (s : Session) (text : String) : Session :=
  let outbox := { s.hub.outbox with own := s.hub.outbox.own ++ [text] }
  { s with hub := { s.hub with outbox := outbox } }

/-- The turn of the program. -/
def goOn? (s : Session) (now : Nat) (looksFor : WatchEnd) : Option Session :=
  match s.errand with
  | .watching =>
    match looksFor, s.reports with
    | .hostGone, _ => if s.hub.isClosed then some (s.endWatch now (.error .connectionClosed)) else none
    | .unresponsive, r :: reports => some ({ s with reports }.endWatch now (.error r.fault))
    | .unresponsive, [] => none
  | .calling c =>
    match s.hub.outbox.finish? now c with
    | none => none
    | some (r, outbox) =>
      let s := { s with hub := { s.hub with outbox := outbox } }
      match r with
      | .ok (.process r) => some ((s.print r.pages).leave now (.ok ()))
      | .ok .pong => some (s.leave now (.ok ()))
      | .error f => some (s.fail f)
  | .closing result deadline =>
    if s.hub.isClosed || deadline ≤ now then some { s with errand := .done result } else none
  | .done _ => none

/-- One turn at the moment `now`; none when that party has to wait. -/
def step? (s : Session) (turn : SessionTurn) (now : Nat) : Option Session :=
  match turn with
  | .pump t =>
    match s.hub.outbox.link.pump t s.fromHost s.toHost with
    | some (link, fromHost, toHost) =>
      some { s with hub := { s.hub with outbox := { s.hub.outbox with link } }, fromHost, toHost }
    | none => none
  | .inbound =>
    match s.hub.step? now with
    | some (_, hub) => some { s with hub }
    | none => none
  | .monitor =>
    match s.monitor with
    | none => none
    | some m =>
      match m.step? s.hub.outbox now with
      | some (report, m, outbox) =>
        some { s with
          hub := { s.hub with outbox }
          monitor := some m
          reports := s.reports ++ report.toList }
      | none => none
  | .program looksFor => s.goOn? now looksFor

/-- What has been printed. -/
def printed (s : Session) : List String := s.hub.outbox.own

/-- How the program has ended, if it has. -/
def result? (s : Session) : Option (Except MuxFault Unit) :=
  match s.errand with
  | .done r => some r
  | _ => none

/-- What the run leaves behind, once the program has ended. -/
def report? (s : Session) : Option RunReport := s.result?.map (RunReport.finished s.printed)

end Session

end SessionMux
