import SessionMux.Octets.Buffer
import SessionMux.Wire.Envelope

/-!
# Line framing

On the wire every envelope is a line of base64 that a line feed ends, or a carriage return and a
line feed. A line has at most `limit` bytes before its line feed. The framer takes envelopes from
the front of a buffer that is filled in arbitrary pieces.

* A line above the limit is reported once, as soon as it is known to be too long, and dropped up to
  its line feed, wherever that comes.
* A line that is no envelope is dropped under the policy `skip`. Under `stall` it is reported, stays
  at the front of the buffer and is reported at every further attempt.
* `scanned` remembers how much of the buffer is known to hold no line feed, so that no byte is
  looked at twice.

**`decode_decreases`** — every answer but "nothing" brings the buffer and the framer nearer to the
end of the input, which is why reading until there is nothing comes to an end.
-/

namespace SessionMux

/-- What is done with a line that is no envelope. -/
inductive MalformedLines where
  /-- Drop it and go on with the next line. -/
  | skip
  /-- Keep it at the front of the buffer and report it at every attempt. -/
  | stall
deriving DecidableEq

/-- The most bytes of a line before its line feed, unless told otherwise: 16 MiB. -/
def defaultLineLimit : Nat := 16 * 1024 * 1024

/-- Takes envelopes from a buffer line by line. -/
structure Framer where
  /-- The most bytes of a line before its line feed. -/
  limit : Nat := defaultLineLimit
  policy : MalformedLines := .skip
  /-- So many bytes at the front of the buffer are known to hold no line feed. -/
  scanned : Nat := 0
  /-- A line that is too long is being dropped. -/
  discarding : Bool := false
deriving DecidableEq

/-- What an attempt to take an envelope comes to. -/
inductive Framed where
  | envelope (e : Envelope)
  /-- No complete line is left. -/
  | nothing
  | fault (f : WireFault)

/-- The line feed. -/
def lineFeed : UInt8 := 10

/-- The carriage return. -/
def carriageReturn : UInt8 := 13

/-- A line without the carriage return that may stand before its line feed. -/
def stripReturn (b : ByteArray) : ByteArray :=
  if h : 0 < b.size then
    if b[b.size - 1] = carriageReturn then b.extract 0 (b.size - 1) else b
  else b

namespace Framer

/-- Takes the next envelope from the front of the buffer. -/
def decode (f : Framer) (b : Buffer) : Framed × Framer × Buffer :=
  let stop := min (f.limit + 1) b.size
  match _h : b.indexOf? lineFeed f.scanned stop with
  | some k =>
    if f.discarding then
      decode { f with scanned := 0, discarding := false } (b.drop (k + 1))
    else
      match Envelope.ofLine (stripReturn (b.take k)) with
      | .ok e => (.envelope e, { f with scanned := 0 }, b.drop (k + 1))
      | .error e =>
        match f.policy with
        | .skip => decode { f with scanned := 0 } (b.drop (k + 1))
        | .stall => (.fault e, { f with scanned := 0 }, b)
  | none =>
    if f.discarding then
      if b.size ≤ stop then (.nothing, { f with scanned := 0 }, b.drop stop)
      else decode { f with scanned := 0 } (b.drop stop)
    else if f.limit < b.size then
      (.fault (.lineTooLong f.limit), { f with scanned := 0, discarding := true }, b)
    else (.nothing, { f with scanned := stop }, b)
termination_by b.size
decreasing_by
  · have := Buffer.lt_of_indexOf? _h
    rw [Buffer.size_drop]; omega
  · have := Buffer.lt_of_indexOf? _h
    rw [Buffer.size_drop]; omega
  · rw [Buffer.size_drop]; omega

/-- The line of an envelope with its line feed, if the line is within the limit. -/
def encode (f : Framer) (e : Envelope) : Except WireFault String :=
  let line := e.toLine
  if f.limit < line.utf8ByteSize then .error (.messageTooLarge line.utf8ByteSize f.limit)
  else .ok (line.push '\n')

/-- Writes the line of an envelope behind what is in a buffer. Above the limit it is refused, and the
buffer stays as it is. -/
def encodeTo (f : Framer) (e : Envelope) (b : Buffer) : Except WireFault Unit × Buffer :=
  match f.encode e with
  | .ok line => (.ok (), b.append line.toUTF8)
  | .error fault => (.error fault, b)

/-- Takes an envelope from a buffer that will not be filled any more: bytes that are left when
there is no further line are a fault. -/
def decodeLast (f : Framer) (b : Buffer) : Framed × Framer × Buffer :=
  match f.decode b with
  | (.nothing, f, b) =>
    if b.size = 0 then (.nothing, f, b)
    else (.fault (.io (.said .other "bytes remaining on stream")), f, b)
  | r => r

/-- What is left to do: two for each byte in the buffer, and one if a line may still turn out too
long. -/
def toDo (f : Framer) (b : Buffer) : Nat := 2 * b.size + if f.discarding then 0 else 1

/-- Taking an envelope uses up its line, and reporting a line as too long happens once for the
line. -/
theorem decode_decreases (f : Framer) (b : Buffer) :
    match f.decode b with
    | (.envelope _, f', b') => toDo f' b' < toDo f b
    | (.fault (.lineTooLong _), f', b') => toDo f' b' < toDo f b
    | _ => True := by
  fun_induction decode f b with
  | case1 f b stop k h hd ih =>
    have := Buffer.lt_of_indexOf? h
    have hs := Buffer.size_drop b (k + 1)
    split at ih <;> simp_all only [toDo, Bool.false_eq_true, if_false, if_true] <;> omega
  | case2 f b stop k h hd e he =>
    have := Buffer.lt_of_indexOf? h
    have hs := Buffer.size_drop b (k + 1)
    simp only [toDo]; split <;> omega
  | case3 f b stop k h hd e he hp ih =>
    have := Buffer.lt_of_indexOf? h
    have hs := Buffer.size_drop b (k + 1)
    split at ih <;> simp_all only [toDo] <;> grind
  | case4 f b stop k h hd e he hp =>
    have := Envelope.ofLine_ne_lineTooLong he
    grind
  | case5 f b stop h hd hs => trivial
  | case6 f b stop h hd hs ih =>
    have hs := Buffer.size_drop b stop
    split at ih <;> simp_all only [toDo] <;> grind
  | case7 f b stop h hd hl => simp_all [toDo]
  | case8 f b stop h hd hl => trivial

end Framer

end SessionMux
