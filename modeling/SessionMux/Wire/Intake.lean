import SessionMux.Wire.Framing

/-!
# Intake

Text arrives in chunks that are cut anywhere; the intake hands out the envelopes whose lines are
complete. Under the policy `stall` a line that is no envelope stops it for good: the line stays at
the front of the buffer, nothing is handed out any more, and of what still arrives only as much is
kept as the limit of a line leaves room for.
-/

namespace SessionMux

/-- Collects chunks of text and hands out envelopes. -/
structure Intake where
  framer : Framer := {}
  buffer : Buffer := {}
  stalled : Bool := false

namespace Intake

/-- Takes envelopes from the buffer until there is nothing, or a line stalls the intake; `taken`
holds those taken before, the last one first. -/
def drain (r : Intake) (taken : List Envelope) : List Envelope × Intake :=
  match _h : r.framer.decode r.buffer with
  | (.envelope e, f, b) => drain { r with framer := f, buffer := b } (e :: taken)
  | (.nothing, f, b) => (taken.reverse, { r with framer := f, buffer := b })
  | (.fault (.lineTooLong _), f, b) => drain { r with framer := f, buffer := b } taken
  | (.fault e, f, b) =>
    (taken.reverse,
      { r with framer := f, buffer := b, stalled := r.stalled || e.isMalformedLine })
termination_by r.framer.toDo r.buffer
decreasing_by
  all_goals
    have := Framer.decode_decreases r.framer r.buffer
    rw [_h] at this
    exact this

/-- Takes in a chunk; returns the envelopes whose lines it completes, in order. -/
def feed (r : Intake) (chunk : ByteArray) : List Envelope × Intake :=
  if r.stalled then
    let room := r.framer.limit - r.buffer.size
    ([], { r with buffer := r.buffer.append (chunk.extract 0 room) })
  else drain { r with buffer := r.buffer.append chunk } []

/-- Takes in one chunk after another. -/
def feedAll (r : Intake) : List ByteArray → List Envelope × Intake
  | [] => ([], r)
  | chunk :: rest =>
    let (es, r) := r.feed chunk
    let (es', r) := r.feedAll rest
    (es ++ es', r)

end Intake

end SessionMux
