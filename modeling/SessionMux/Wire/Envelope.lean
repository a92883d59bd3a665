import SessionMux.Gzip.Member
import SessionMux.Message.Basic
import SessionMux.Wire.Fault

/-!
# Envelopes

An envelope carries one message: the version of the protocol, the compression of the inner bytes
as a number, a nonce that makes every envelope fresh, and the inner bytes. The number of an
unknown compression survives in the envelope and is refused only when the envelope is opened.

* `Envelope.pack` puts a message into an envelope, `Envelope.unpack` takes it out again.
* `Envelope.toLine` and `Envelope.ofLine` go between an envelope and its line of base64.
-/

namespace SessionMux

/-- How the inner bytes of an envelope are compressed. -/
inductive Compression where
  | none
  | gzip
deriving DecidableEq

/-- The number of a compression in an envelope. -/
def Compression.code : Compression → UInt32
  | .none => 0
  | .gzip => 1

/-- The compression of a number. -/
def Compression.ofCode? (n : UInt32) : Option Compression :=
  if n = 0 then some .none else if n = 1 then some .gzip else Option.none

/-- The version of the protocol spoken here. -/
def protocolVersion : UInt32 := 0

/-- The envelope of a message. -/
structure Envelope where
  version : UInt32
  compression : UInt32
  nonce : ByteArray
  inner : ByteArray

namespace Record

instance : Record Envelope where
  write v := write v.version ++ write v.compression ++ write v.nonce ++ write v.inner
  read := return {
    version := ← read, compression := ← read, nonce := ← read, inner := ← read }

end Record

/-- What makes an envelope fresh: 9 to 16 bytes that mean nothing. -/
structure Nonce where
  bytes : ByteArray
  nine_le : 9 ≤ bytes.size
  le_sixteen : bytes.size ≤ 16

/-- The nonce of nine zeros. -/
def Nonce.zero : Nonce := ⟨Octets.ofList (List.replicate 9 0), by decide, by decide⟩

namespace Envelope

/-- A gzip fault as a fault of input. -/
def gzipFault (f : Gzip.Fault) : WireFault :=
  .compression (.said (match f with | .unexpectedEnd => .unexpectedEof | _ => .invalidInput) f.message)

/-- Puts a message into an envelope, its bytes compressed by a writer of gzip members. Any writer
will do: the wire format asks for a member, not for a certain one. -/
def packWith (gzip : ByteArray → ByteArray) {α : Type} [Record α] (c : Compression)
    (nonce : ByteArray) (message : α) : Envelope :=
  let plain := Record.write message
  { version := protocolVersion
    compression := c.code
    nonce := nonce
    inner := match c with
      | .none => plain
      | .gzip => gzip plain }

/-- Puts a message into an envelope. -/
def pack {α : Type} [Record α] (c : Compression) (nonce : Nonce) (message : α) : Envelope :=
  packWith Gzip.encode c nonce.bytes message

/-- The inner bytes, inflated. The version is checked first, then the compression. -/
def plain (e : Envelope) : Except WireFault ByteArray :=
  if e.version ≠ protocolVersion then .error (.version protocolVersion e.version)
  else
    match Compression.ofCode? e.compression with
    | some .none => .ok e.inner
    | some .gzip =>
      match Gzip.decode e.inner with
      | .ok b => .ok b
      | .error f => .error (gzipFault f)
    | none => .error (.unknownCompression e.compression)

/-- Takes the message out of an envelope. -/
def unpack (α : Type) [Record α] (e : Envelope) : Except WireFault α := do
  let b ← e.plain
  match Record.decode α b with
  | .ok m => .ok m
  | .error f => .error (.message f)

/-- The line of an envelope, without terminator. -/
def toLine (e : Envelope) : String := Base64.encode (Record.write e)

/-- The envelope of a line, without terminator. Bytes after the envelope are ignored. -/
def ofLine (line : ByteArray) : Except WireFault Envelope :=
  match Base64.decode line with
  | .error f => .error (.line f)
  | .ok b =>
    match Record.decode Envelope b with
    | .error f => .error (.envelope f)
    | .ok e => .ok e

/-- A line by itself is never too long; that is for the framing to say. -/
theorem ofLine_ne_lineTooLong {line : ByteArray} {f : WireFault} (h : ofLine line = .error f)
    (n : Nat) : f ≠ .lineTooLong n := by
  unfold ofLine at h
  split at h
  · cases h; simp
  · split at h <;> cases h
    simp

end Envelope

end SessionMux
