import SessionMux.Message.Basic
import SessionMux.Wire.Fault

/-!
# Faults of the multiplexer

What the hub, the program and its set-up report: the cause of a fault, its wording, whether it is
worth another attempt, and how a fault of the wire shows here.
-/

namespace SessionMux

/-- A fault that a caller of the multiplexer meets. -/
inductive MuxFault where
  | io (fault : IoFault)
  | fileRead (path : String) (fault : IoFault)
  | fileWrite (path : String) (fault : IoFault)
  /-- The host cannot be reached, or does not answer. -/
  | connection (reason : String)
  /-- The connection has ended. -/
  | connectionClosed
  | protocol (reason : String)
  | protocolVersion (expected found : UInt32)
  /-- The request of this label got no answer within so many milliseconds. -/
  | requestTimeout (label : String) (milliseconds : UInt64)
  /-- The request of this label was answered by an event of another kind. -/
  | unexpectedReply (label reply : String)
  | settingsInvalid (path reason : String)
  | settingsNotFound (path : String)
  | internal (reason : String)
deriving DecidableEq

namespace MuxFault

/-- The wording of a fault. -/
def text : MuxFault → String
  | .io fault => "IO error: " ++ fault.text
  | .fileRead path fault => "Failed to read file " ++ path ++ ": " ++ fault.text
  | .fileWrite path fault => "Failed to write file " ++ path ++ ": " ++ fault.text
  | .connection reason => "Connection failed: " ++ reason
  | .connectionClosed => "Connection closed"
  | .protocol reason => "Protocol error: " ++ reason
  | .protocolVersion expected found =>
    s!"Protocol version mismatch: expected {expected.toNat}, found {found.toNat}"
  | .requestTimeout label milliseconds =>
    s!"Request {label} timed out after {milliseconds.toNat}ms"
  | .unexpectedReply label reply => s!"Unexpected reply to {label}: {reply}"
  | .settingsInvalid path reason => s!"Invalid configuration at {path}: {reason}"
  | .settingsNotFound path => "Configuration file not found: " ++ path
  | .internal reason => "Internal error: " ++ reason

/-- Another attempt may succeed. -/
def isRetryable : MuxFault → Bool
  | .connection _ | .requestTimeout .. => true
  | _ => false

/-- The connection is gone for good. -/
def isClosed : MuxFault → Bool
  | .connectionClosed => true
  | _ => false

/-- No answer within a time given in nanoseconds: whole milliseconds count, as many as fit into 64
bits. -/
def timedOut (label : String) (nanoseconds : Nat) : MuxFault :=
  .requestTimeout label (min (nanoseconds / 1000000) (Nat.pow 2 64 - 1)).toUInt64

/-- A fault of the wire as a caller meets it. -/
def ofWire : WireFault → MuxFault
  | .closed => .connectionClosed
  | .version expected found => .protocolVersion expected found
  | .io fault => .io fault
  | fault => .protocol fault.text

end MuxFault

end SessionMux
