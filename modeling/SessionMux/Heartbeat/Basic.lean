import SessionMux.MuxFault

/-!
# Heartbeat

The host is pinged at fixed intervals. A ping that fails, or that is not answered in time, counts
as a failed check; the heartbeat goes on after it. Failed checks are reported, all of them or only
the first of each run of failures, as the options say.

The interval runs from the end of one check to the beginning of the next. Times are in
milliseconds.

* `Heartbeat.judge` is what the outcome of one check does; `Heartbeat.judgeAll` goes through a list
  of outcomes.
-/

namespace SessionMux

/-- Which failed checks are reported. -/
inductive ReportPolicy where
  /-- The first after a good one, or after the start. -/
  | onTransition
  | everyFailure
deriving DecidableEq

/-- How a heartbeat is timed and reported. -/
structure HeartbeatOptions where
  interval : Nat := 1000
  timeout : Nat := 10000
  report : ReportPolicy := .onTransition
deriving DecidableEq

/-- Why the host counts as gone. -/
inductive DisconnectReason where
  | timedOut (milliseconds : Nat)
  | rejected (fault : MuxFault)
deriving DecidableEq

/-- The wording of a reason. -/
def DisconnectReason.text : DisconnectReason → String
  | .timedOut milliseconds => s!"ping timed out after {milliseconds}ms"
  | .rejected fault => "ping failed: " ++ fault.text

/-- The outcome of a check. -/
inductive CheckOutcome where
  | answered
  | failed (fault : MuxFault)
  | timedOut
deriving DecidableEq

/-- The reason that an outcome gives, if the check has failed. -/
def CheckOutcome.reason? (timeout : Nat) : CheckOutcome → Option DisconnectReason
  | .answered => none
  | .failed fault => some (.rejected fault)
  | .timedOut => some (.timedOut timeout)

/-- What a heartbeat is doing. -/
inductive HeartbeatPhase where
  /-- The next check begins at this moment. -/
  | resting (wake : Nat)
  /-- A ping is out; the time is up at this moment. -/
  | checking (deadline : Nat)
  | stopped
deriving DecidableEq

/-- A heartbeat. -/
structure Heartbeat where
  options : HeartbeatOptions
  phase : HeartbeatPhase
  /-- The last check has failed. -/
  failing : Bool := false
deriving DecidableEq

namespace Heartbeat

/-- A heartbeat that starts at the moment `now`. -/
def start (options : HeartbeatOptions) (now : Nat) : Heartbeat where
  options := options
  phase := .resting (now + options.interval)

/-- It has not been stopped. -/
def isRunning (b : Heartbeat) : Bool := b.phase != .stopped

/-- Stops the heartbeat; a ping that is out is forgotten. -/
def stop (b : Heartbeat) : Heartbeat := { b with phase := .stopped }

/-- What the outcome of a check does: a report, and what is remembered. -/
def judge (policy : ReportPolicy) (timeout : Nat) (failing : Bool) (o : CheckOutcome) :
    Option DisconnectReason × Bool :=
  match o.reason? timeout with
  | none => (none, false)
  | some r =>
    match policy with
    | .everyFailure => (some r, true)
    | .onTransition => (if failing then none else some r, true)

/-- What a list of outcomes does, one check after another. -/
def judgeAll (policy : ReportPolicy) (timeout : Nat) (failing : Bool) :
    List CheckOutcome → List (Option DisconnectReason)
  | [] => []
  | o :: rest =>
    let (r, failing) := judge policy timeout failing o
    r :: judgeAll policy timeout failing rest

/-- A check begins at the moment `now`. -/
def check (b : Heartbeat) (now : Nat) : Heartbeat :=
  { b with phase := .checking (now + b.options.timeout) }

/-- The check ends at the moment `now`. -/
def conclude (b : Heartbeat) (now : Nat) (o : CheckOutcome) :
    Option DisconnectReason × Heartbeat :=
  let (r, failing) := judge b.options.report b.options.timeout b.failing o
  (r, { b with phase := .resting (now + b.options.interval), failing := failing })

end Heartbeat

end SessionMux
