import SessionMux.Heartbeat.Basic
import SessionMux.Hub.Outbox

/-!
# Monitors

A monitor is a heartbeat whose pings are calls through a hub. The reply to a ping, or the end of the
call, comes before the end of the time of the check; a ping that is out when the time is up is given
up.
-/

namespace SessionMux

/-- A heartbeat that pings through a hub. -/
structure Monitor where
  heartbeat : Heartbeat
  /-- The ping that is out. -/
  ping : Option Call := none

namespace Monitor

variable {τ : Type}

/-- What the end of a ping means for a check. -/
def outcome : Except MuxFault CallResult → CheckOutcome
  | .ok _ => .answered
  | .error f => .failed f

/-- A check ends. -/
def conclude (m : Monitor) (now : Nat) (o : CheckOutcome) : Option DisconnectReason × Monitor :=
  let (report, h) := m.heartbeat.conclude now o
  (report, { heartbeat := h })

/-- One step of the monitor at the moment `now`: a check begins, or ends with a report or without.
There is none when it has to wait. -/
def step? (m : Monitor) (b : Outbox τ) (now : Nat) :
    Option (Option DisconnectReason × Monitor × Outbox τ) :=
  match m.heartbeat.phase, m.ping with
  | .resting wake, _ =>
    if wake ≤ now then
      match b.ping now with
      | (.ok call, b) => some (none, { heartbeat := m.heartbeat.check now, ping := some call }, b)
      | (.error f, b) =>
        let (report, m) := m.conclude now (.failed f)
        some (report, m, b)
    else none
  | .checking deadline, some call =>
    match b.finish? now call with
    | some (r, b) =>
      let (report, m) := m.conclude now (outcome r)
      some (report, m, b)
    | none =>
      if deadline ≤ now then
        let (report, m) := m.conclude now .timedOut
        some (report, m, b.abandon call)
      else none
  | _, _ => none

/-- The next time at which the monitor does something even if nothing happens. -/
def wake? (m : Monitor) : Option Nat :=
  match m.heartbeat.phase, m.ping with
  | .resting wake, _ => some wake
  | .checking deadline, some call => some (min deadline call.wait.deadline)
  | _, _ => none

/-- What giving up the monitor leaves: a ping that is out is given up too. -/
def drop (m : Monitor) (b : Outbox τ) : Outbox τ :=
  match m.ping with
  | some call => b.abandon call
  | none => b

end Monitor

end SessionMux
