import SessionMux.Text.Utf8

/-!
# Pipes

A pipe carries deliveries one way, in order. Its writer may finish it and its reader may leave it;
what is put into a pipe that its reader has left is refused.

A transport that works in frames delivers each as text or as bytes. Bytes stand for the text that
they spell; what spells nothing is replaced.
-/

namespace SessionMux

/-- One frame of a transport. -/
inductive Frame where
  | text (s : String)
  | binary (b : ByteArray)

/-- The text of a frame. -/
def Frame.toText : Frame → String
  | .text s => s
  | .binary b => Utf8.decodeLossy b

/-- What comes out of a transport: a frame, or a fault of the transport. -/
inductive Delivery where
  | frame (f : Frame)
  | failure (reason : String)

/-- One direction of a transport. -/
structure Pipe where
  /-- Put in and not yet taken out, the oldest first. -/
  items : List Delivery := []
  /-- The writer has not finished. -/
  writing : Bool := true
  /-- The reader has not left. -/
  reading : Bool := true

namespace Pipe

/-- A delivery put into the pipe would reach a reader. -/
def isOpen (p : Pipe) : Bool := p.writing && p.reading

/-- Puts in a delivery at the back. -/
def put (p : Pipe) (d : Delivery) : Pipe := { p with items := p.items ++ [d] }

/-- The writer finishes; what is in the pipe stays. -/
def finish (p : Pipe) : Pipe := { p with writing := false }

/-- The reader leaves; what is in the pipe is lost. -/
def abandon (p : Pipe) : Pipe := { p with reading := false, items := [] }

/-- Puts in a delivery if it would reach a reader, and says whether. -/
def offer (p : Pipe) (d : Delivery) : Bool × Pipe :=
  if p.isOpen then (true, p.put d) else (false, p)

end Pipe

end SessionMux
