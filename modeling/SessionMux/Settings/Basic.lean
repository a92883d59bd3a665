import SessionMux.Heartbeat.Basic
import SessionMux.Hub.Outbox

/-!
# Settings

Where the host is, how packets are written and read, how long answers may take, and how the host is
watched. Every field has a default.
-/

namespace SessionMux

/-- Where to connect, and how often to try. -/
structure ConnectionSettings where
  url : String := "ws://127.0.0.1:9090"
  /-- How often to try before giving up. -/
  attempts : UInt32 := 3
  /-- The pause between two attempts, in milliseconds. -/
  retryDelay : Nat := 200
deriving DecidableEq

/-- How packets are written and read. -/
structure PacketSettings where
  gzip : Bool := false
  malformedLines : MalformedLines := .skip
deriving DecidableEq

/-- How long a request may wait for its reply, in milliseconds. -/
structure RequestSettings where
  timeout : Nat := 10000
deriving DecidableEq

/-- The settings of the program. -/
structure Settings where
  connection : ConnectionSettings := {}
  packets : PacketSettings := {}
  requests : RequestSettings := {}
  liveness : HeartbeatOptions := {}
deriving DecidableEq

namespace Settings

/-- What makes settings useless. -/
inductive Flaw where
  | emptyUrl
  | noAttempt
  | zeroTimeout
  | zeroInterval
deriving DecidableEq

/-- The wording of a flaw. -/
def Flaw.text : Flaw → String
  | .emptyUrl => "connection.url must not be empty"
  | .noAttempt => "connection.attempts must be at least 1"
  | .zeroTimeout => "requests.timeout_ms must be positive"
  | .zeroInterval => "liveness intervals must be positive"

/-- The first flaw of settings, in the order of the sections. -/
def flaw? (s : Settings) : Option Flaw :=
  if s.connection.url = "" then some .emptyUrl
  else if s.connection.attempts = 0 then some .noAttempt
  else if s.requests.timeout = 0 then some .zeroTimeout
  else if s.liveness.interval = 0 ∨ s.liveness.timeout = 0 then some .zeroInterval
  else none

/-- How a hub under these settings speaks. -/
def hub (s : Settings) : HubOptions where
  compression := if s.packets.gzip then .gzip else .none
  requestTimeout := s.requests.timeout
  malformedLines := s.packets.malformedLines

theorem flaw?_eq_none_iff (s : Settings) :
    s.flaw? = none ↔ s.connection.url ≠ "" ∧ s.connection.attempts ≠ 0 ∧
      s.requests.timeout ≠ 0 ∧ s.liveness.interval ≠ 0 ∧ s.liveness.timeout ≠ 0 := by
  unfold flaw?
  split
  · simp_all
  · split
    · simp_all
    · split
      · simp_all
      · split
        · rename_i h
          rcases h with h | h <;> simp [h]
        · simp_all

theorem flaw?_default : ({} : Settings).flaw? = none := by decide

end Settings

end SessionMux
