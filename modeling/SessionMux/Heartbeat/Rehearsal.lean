import SessionMux.Heartbeat.Basic

/-!
# Rehearsals of a heartbeat

A heartbeat against a host that answers by a script, under a clock that moves only when it is told
to. Everything that is due up to and including the new time happens, in the order of time; an
answer that comes at the very moment when the time is up still counts.
-/

namespace SessionMux

/-- What the host does about one ping. -/
structure PingScript where
  /-- How long it takes to answer; it may never answer. -/
  delay : Option Nat
  outcome : CheckOutcome

/-- A heartbeat with its script. -/
structure Rehearsal where
  heartbeat : Heartbeat
  /-- What the host does about the pings to come; the last entry holds for ever. -/
  script : List PingScript
  now : Nat := 0
  /-- Pings begun. -/
  calls : Nat := 0
  /-- Pings that the host has answered. -/
  answered : Nat := 0
  /-- When the answer to the ping that is out will come, and what it is. -/
  coming : Option (Nat × CheckOutcome) := none

/-- A report and its time. -/
abbrev TimedReport : Type := Nat × DisconnectReason

namespace Rehearsal

/-- The rehearsal of a script from the moment 0 on. Without a script every ping is answered at
once. -/
def start (options : HeartbeatOptions) (script : List PingScript) : Rehearsal where
  heartbeat := .start options 0
  script := if script.isEmpty then [⟨some 0, .answered⟩] else script

/-- A ping begins at the moment `t`. -/
def ping (r : Rehearsal) (t : Nat) : Rehearsal :=
  let (p, script) : PingScript × List PingScript := match r.script with
    | [] => (⟨some 0, .answered⟩, [])
    | [p] => (p, [p])
    | p :: rest => (p, rest)
  { r with
    heartbeat := r.heartbeat.check t
    script := script
    now := t
    calls := r.calls + 1
    coming := p.delay.map fun d => (t + d, p.outcome) }

/-- The check ends at the moment `t`. -/
def conclude (r : Rehearsal) (t : Nat) (o : CheckOutcome) : List TimedReport × Rehearsal :=
  let (reason, h) := r.heartbeat.conclude t o
  ((reason.map fun x => (t, x)).toList, { r with heartbeat := h, now := t, coming := none })

/-- The next thing that happens, if it is due up to the moment `target`. -/
def step? (r : Rehearsal) (target : Nat) : Option (List TimedReport × Rehearsal) :=
  match r.heartbeat.phase with
  | .stopped => none
  | .resting t => if t ≤ target then some ([], r.ping t) else none
  | .checking deadline =>
    match r.coming with
    | some (t, o) =>
      if t ≤ deadline then
        if t ≤ target then
          let (reports, r) := r.conclude t o
          some (reports, { r with answered := r.answered + 1 })
        else none
      else if deadline ≤ target then some (r.conclude deadline .timedOut) else none
    | none => if deadline ≤ target then some (r.conclude deadline .timedOut) else none

/-- At most `fuel` things that happen up to the moment `target`; `made` holds the reports made
before, the last one first. -/
def runFor (target : Nat) : (fuel : Nat) → (made : List TimedReport) → Rehearsal →
    List TimedReport × Rehearsal
  | 0, made, r => (made.reverse, r)
  | fuel + 1, made, r =>
    match r.step? target with
    | none => (made.reverse, r)
    | some (reports, r) => runFor target fuel (reports ++ made) r

/-- Lets time pass. In a millisecond at most one check begins and one ends. -/
def advance (r : Rehearsal) (milliseconds : Nat) : List TimedReport × Rehearsal :=
  let target := r.now + milliseconds
  let (reports, r) := runFor target (2 * milliseconds + 2) [] r
  (reports, { r with now := target })

/-- Stops the heartbeat. -/
def stop (r : Rehearsal) : Rehearsal := { r with heartbeat := r.heartbeat.stop }

end Rehearsal

end SessionMux
