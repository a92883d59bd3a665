import SessionMux.Hub.Inbound
import SessionMux.Hub.Monitor

/-!
# Loopbacks

A hub and a host wired to each other in memory, under a clock that moves only when it is told to.
Whatever is done, everything that can go on then goes on until all of it waits.

What waits for a time has an alarm. When time passes, the alarms that are due go off in the order
of their times, and at one time in the order in which they were set; a call whose reply has come in
by then has it, even if its time is up as well.

The host takes every envelope that reaches it, until it closes its end or learns that there will be
none any more.
-/

namespace SessionMux

/-- A call that waits for its reply: its number, its place in the order of alarms. -/
structure RunningCall where
  number : Nat
  set : Nat
  call : Call

/-- A heartbeat with its place in the order of alarms. -/
structure RunningMonitor where
  monitor : Monitor
  set : Nat

/-- What has been seen of a loopback since it was looked at last. -/
structure Sightings where
  /-- What the envelopes decoded to, also where the message was not delivered. -/
  decoded : List (Except WireFault InboundMessage) := []
  /-- The calls that have ended, by number. -/
  ended : List (Nat × Except MuxFault CallResult) := []
  /-- What the host has received. -/
  received : List Envelope := []
  /-- What the heartbeat has reported. -/
  reports : List DisconnectReason := []

/-- A hub and a host. -/
structure Loopback (τ : Type) where
  hub : Hub τ
  host : Channel := {}
  /-- The host has neither closed its end nor seen the end. -/
  hostReading : Bool := true
  toHost : Pipe := {}
  toHub : Pipe := {}
  now : Nat := 0
  /-- So many alarms have been set. -/
  alarms : Nat := 0
  /-- The place of the decoding in the order of alarms. -/
  decodingSet : Nat := 0
  /-- So many calls have begun. -/
  begun : Nat := 0
  calls : List RunningCall := []
  monitor : Option RunningMonitor := none
  seen : Sightings := {}

/-- What an alarm wakes. -/
inductive Sleeper where
  | inbound
  | call (c : RunningCall)
  | monitor

namespace Loopback

variable {τ : Type}

/-! ## What can go on -/

/-- The pump of the host's end. -/
def pumpHost (w : Loopback τ) : Loopback τ :=
  let (l, i, o) := w.host.link.run w.toHost w.toHub
  { w with host := { w.host with link := l }, toHost := i, toHub := o }

/-- The pump of the hub's end. -/
def pumpHub (w : Loopback τ) : Loopback τ :=
  let (l, i, o) := w.hub.outbox.link.run w.toHub w.toHost
  { w with hub := { w.hub with outbox := { w.hub.outbox with link := l } }, toHub := i, toHost := o }

/-- The inbound task of the hub. -/
def runInbound (w : Loopback τ) : Loopback τ :=
  match w.hub.step? w.now with
  | none => w
  | some _ =>
    let (notices, hub) := w.hub.run w.now
    let decoded := notices.filterMap fun n => match n with
      | .decoded r => some r
      | .delivered .. => none
    { w with
      hub := hub
      decodingSet := w.alarms
      alarms := w.alarms + 1
      seen := { w.seen with decoded := w.seen.decoded ++ decoded } }

/-- One call. -/
def runCall (w : Loopback τ) (c : RunningCall) : Loopback τ :=
  match w.hub.outbox.finish? w.now c.call with
  | none => w
  | some (r, outbox) =>
    { w with
      hub := { w.hub with outbox := outbox }
      calls := w.calls.filter fun d => d.number != c.number
      seen := { w.seen with ended := w.seen.ended ++ [(c.number, r)] } }

/-- All calls. -/
def runCalls (w : Loopback τ) : Loopback τ := w.calls.foldl runCall w

/-- The heartbeat. -/
def runMonitor (w : Loopback τ) : Loopback τ :=
  match w.monitor with
  | none => w
  | some m =>
    match m.monitor.step? w.hub.outbox w.now with
    | none => w
    | some (report, monitor, outbox) =>
      { w with
        hub := { w.hub with outbox := outbox }
        monitor := some ⟨monitor, w.alarms⟩
        alarms := w.alarms + 1
        seen := { w.seen with reports := w.seen.reports ++ report.toList } }

/-- The host takes what has reached it. -/
def readHost (w : Loopback τ) : Loopback τ :=
  if w.hostReading then
    let (es, ended, host) := w.host.takeAll []
    { w with
      host := host
      hostReading := !ended
      seen := { w.seen with received := w.seen.received ++ es } }
  else w

/-- Everyone who waits for something other than the time looks whether it has come. -/
def runAll (w : Loopback τ) : Loopback τ := w.pumpHub.runInbound.runCalls.runMonitor

/-- Lets everything go on until all of it waits. What the host has sent goes through the hub first;
what that makes the hub send goes to the host; and if an end has stopped, the other one follows. -/
def settle (w : Loopback τ) : Loopback τ :=
  w.pumpHost.runAll.pumpHub.pumpHost.runAll.pumpHub.pumpHost.readHost

/-! ## Time -/

/-- Everyone who waits for a time: when, the place in the order of alarms, and who. -/
def sleepers (w : Loopback τ) : List (Nat × Nat × Sleeper) :=
  let inbound := match w.hub.phase with
    | .decoding _ ready => [(ready, w.decodingSet, Sleeper.inbound)]
    | _ => []
  let calls := w.calls.map fun c => (c.call.wait.deadline, c.set, Sleeper.call c)
  let monitor := match w.monitor.bind fun m => m.monitor.wake?.map fun t => (t, m.set) with
    | some (t, set) => [(t, set, Sleeper.monitor)]
    | none => []
  inbound ++ calls ++ monitor

/-- Wakes someone. -/
def wake (w : Loopback τ) : Sleeper → Loopback τ
  | .inbound => w.runInbound
  | .call c => w.runCall c
  | .monitor => w.runMonitor

/-- The alarms that are due go off in order, and everything goes on. -/
def ring (w : Loopback τ) : Loopback τ :=
  let due := w.sleepers.filter fun s => s.1 ≤ w.now
  let due := due.mergeSort fun a b => a.2.1 ≤ b.2.1
  (due.foldl (fun w s => w.wake s.2.2) w).settle

/-- Goes from one time at which an alarm is due to the next, up to the moment `target`, at most
`fuel` times. -/
def ringUntil (target : Nat) : (fuel : Nat) → Loopback τ → Loopback τ
  | 0, w => w
  | fuel + 1, w =>
    match (w.sleepers.map fun s => s.1).min? with
    | some t => if t ≤ target then ringUntil target fuel { w with now := max w.now t }.ring else w
    | none => w

/-- Lets time pass; alarms go off at most twice in a millisecond. -/
def advance (w : Loopback τ) (milliseconds : Nat) : Loopback τ :=
  let target := w.now + milliseconds
  { ringUntil target (2 * milliseconds + 2) w with now := target }

/-! ## What is done from outside -/

/-- A hub that has just been connected to a host. -/
def start (hub : Hub τ) : Loopback τ := settle { hub := hub }

/-- Does something to the hub. -/
def withHub {α : Type} (w : Loopback τ) (f : Hub τ → α × Hub τ) : α × Loopback τ :=
  let (a, hub) := f w.hub
  (a, { w with hub := hub }.settle)

/-- Begins a call; answers with its number. -/
def call (w : Loopback τ) (f : Outbox τ → Nat → Except MuxFault Call × Outbox τ) :
    Nat × Loopback τ :=
  let (r, outbox) := f w.hub.outbox w.now
  let number := w.begun
  let w := { w with hub := { w.hub with outbox := outbox }, begun := number + 1 }
  let w : Loopback τ := match r with
    | .ok c => { w with calls := w.calls ++ [⟨number, w.alarms, c⟩], alarms := w.alarms + 1 }
    | .error f => { w with seen := { w.seen with ended := w.seen.ended ++ [(number, .error f)] } }
  (number, w.settle)

/-- Stops the heartbeat, if there is one. -/
def stopMonitor (w : Loopback τ) : Loopback τ :=
  match w.monitor with
  | none => w
  | some m =>
    { w with monitor := none, hub := { w.hub with outbox := m.monitor.drop w.hub.outbox } }.settle

/-- Starts a heartbeat in place of the one there is. -/
def startMonitor (w : Loopback τ) (options : HeartbeatOptions) : Loopback τ :=
  let w := w.stopMonitor
  let m : Monitor := { heartbeat := .start options w.now }
  { w with monitor := some ⟨m, w.alarms⟩, alarms := w.alarms + 1 }.settle

/-- Does something to the host's end. -/
def withHost (w : Loopback τ) (f : Channel → Except WireFault Channel) :
    Except WireFault (Loopback τ) := do
  return { w with host := ← f w.host }.settle

/-- The host closes its end. -/
def closeHost (w : Loopback τ) : Loopback τ := { w with host := w.host.close }.settle

/-- What has been seen; it is not seen again. -/
def look (w : Loopback τ) : Sightings × Loopback τ := (w.seen, { w with seen := {} })

end Loopback

end SessionMux
