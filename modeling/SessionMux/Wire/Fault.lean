import SessionMux.Base64
import SessionMux.Record.Basic
import SessionMux.SystemFault

/-!
# Faults of the wire

Everything that can go wrong between a message and the wire, as a cause, and the one wording of
each cause.
-/

namespace SessionMux

/-- What can go wrong between a message and the wire. -/
inductive WireFault where
  /-- Input or output failed. -/
  | io (fault : IoFault)
  /-- An envelope of another version of the protocol. -/
  | version (expected found : UInt32)
  /-- An envelope with an unknown compression. -/
  | unknownCompression (code : UInt32)
  /-- A line that is no base64. -/
  | line (fault : Base64.Fault)
  /-- A line whose bytes are no envelope. -/
  | envelope (fault : Record.Fault)
  /-- An envelope whose bytes are no message. -/
  | message (fault : Record.Fault)
  /-- Inner bytes that cannot be compressed or inflated. -/
  | compression (fault : IoFault)
  /-- A line above the limit, on the way in. -/
  | lineTooLong (limit : Nat)
  /-- A line above the limit, on the way out. -/
  | messageTooLarge (size limit : Nat)
  /-- The link is closed. -/
  | closed
deriving DecidableEq

/-- The wording of a fault. -/
def WireFault.text : WireFault → String
  | .io fault => "IO error: " ++ fault.text
  | .version expected found =>
    s!"Protocol version mismatch: expected {expected.toNat}, found {found.toNat}"
  | .unknownCompression code => s!"Unsupported compression: {code.toNat}"
  | .line fault => "Malformed base64 line: " ++ fault.message
  | .envelope fault => "Malformed packet envelope: " ++ fault.message
  | .message fault => "Failed to decode message: " ++ fault.message
  | .compression fault => "Compression error: " ++ fault.text
  | .lineTooLong limit => s!"Line too long: exceeds {limit} bytes"
  | .messageTooLarge size limit => s!"Message too large: {size} bytes (max {limit})"
  | .closed => "Socket closed"

/-- The fault lies in one line, and the next line may be good. -/
def WireFault.isMalformedLine : WireFault → Bool
  | .line _ | .envelope _ => true
  | _ => false

end SessionMux
