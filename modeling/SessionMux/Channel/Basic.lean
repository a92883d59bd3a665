import SessionMux.Link.Basic
import SessionMux.Wire.Intake

/-!
# Channels

A channel sends and receives envelopes over a link. What arrives may be cut anywhere; complete
envelopes wait in order until they are taken, also when the link has been closed meanwhile.
-/

namespace SessionMux

/-- What has arrived: the text of incomplete lines, and envelopes that nobody has taken yet. -/
structure Inlet where
  intake : Intake := {}
  ready : List Envelope := []

/-- Takes in a text; the envelopes that it completes queue up behind those that wait. -/
def Inlet.feed (i : Inlet) (text : String) : Inlet :=
  let (es, intake) := i.intake.feed text.toUTF8
  { intake := intake, ready := i.ready ++ es }

/-- Queues the line of an envelope on a link. -/
def Link.write (l : Link) (e : Envelope) : Except WireFault Link :=
  match ({} : Framer).encode e with
  | .error f => .error f
  | .ok line =>
    match l.send line with
    | some l => .ok l
    | none => .error .closed

/-- Writing takes no event. -/
theorem Link.events_write {l l' : Link} {e : Envelope} (h : l.write e = .ok l') :
    l'.events = l.events := by
  unfold Link.write at h
  split at h
  · cases h
  · split at h
    · rename_i hs
      cases h
      exact Link.events_send hs
    · cases h

/-- Envelopes over a link. -/
structure Channel where
  link : Link := {}
  inlet : Inlet := {}

/-- What taking an envelope comes to. -/
inductive Taken where
  | envelope (e : Envelope)
  /-- There will be none any more. -/
  | ended
  /-- There is none yet. -/
  | pending

namespace Channel

/-- The next envelope, in the order of the wire, without waiting for one. -/
def next (c : Channel) : Taken × Channel :=
  match c.inlet.ready with
  | e :: rest => (.envelope e, { c with inlet := { c.inlet with ready := rest } })
  | [] =>
    match _h : c.link.poll with
    | (.event (.message text), l) => next { link := l, inlet := c.inlet.feed text }
    | (.event .closed, l) => (.ended, { c with link := l })
    | (.ended, l) => (.ended, { c with link := l })
    | (.pending, l) => (.pending, { c with link := l })
termination_by c.link.events.length
decreasing_by exact Link.length_poll _h

/-- Takes every envelope there is, without waiting, and says whether there will be no more; `taken`
holds those taken before. -/
def takeAll (c : Channel) (taken : List Envelope) : List Envelope × Bool × Channel :=
  let taken := taken ++ c.inlet.ready
  let inlet := { c.inlet with ready := [] }
  match _h : c.link.poll with
  | (.event (.message text), l) => takeAll { link := l, inlet := inlet.feed text } taken
  | (.event .closed, l) => (taken, true, { link := l, inlet := inlet })
  | (.ended, l) => (taken, true, { link := l, inlet := inlet })
  | (.pending, l) => (taken, false, { link := l, inlet := inlet })
termination_by c.link.events.length
decreasing_by exact Link.length_poll _h

/-- Queues an envelope for the other end. -/
def write (c : Channel) (e : Envelope) : Except WireFault Channel := do
  return { c with link := ← c.link.write e }

/-- Queues text for the other end as it is. -/
def writeText (c : Channel) (text : String) : Except WireFault Channel :=
  match c.link.send text with
  | some l => .ok { c with link := l }
  | none => .error .closed

/-- Closes this end. -/
def close (c : Channel) : Channel := { c with link := c.link.close }

end Channel

/-! ## Two channels wired to each other -/

/-- Two channels wired to each other in memory. -/
structure Pair where
  left : Channel := {}
  right : Channel := {}
  toRight : Pipe := {}
  toLeft : Pipe := {}

namespace Pair

/-- Lets the pump of the left end run. -/
def runLeft (p : Pair) : Pair :=
  let (l, i, o) := p.left.link.run p.toLeft p.toRight
  { p with left := { p.left with link := l }, toLeft := i, toRight := o }

/-- Lets the pump of the right end run. -/
def runRight (p : Pair) : Pair :=
  let (l, i, o) := p.right.link.run p.toRight p.toLeft
  { p with right := { p.right with link := l }, toRight := i, toLeft := o }

/-- Lets both pumps run until neither has anything to do. An end that stops makes the other one
stop, and that one nobody any more. -/
def settle (p : Pair) : Pair := p.runLeft.runRight.runLeft

/-- The two ends. -/
inductive End where
  | left
  | right
deriving DecidableEq

/-- The channel of an end. -/
def channel (p : Pair) : End → Channel
  | .left => p.left
  | .right => p.right

/-- Replaces the channel of an end. -/
def set (p : Pair) (e : End) (c : Channel) : Pair :=
  match e with
  | .left => { p with left := c }
  | .right => { p with right := c }

/-- The next envelope at an end, without waiting for one. -/
def next (p : Pair) (e : End) : Taken × Pair :=
  let (t, c) := (p.channel e).next
  (t, (p.set e c).settle)

/-- Queues an envelope at an end and lets it through. -/
def write (p : Pair) (e : End) (v : Envelope) : Except WireFault Pair := do
  return (p.set e (← (p.channel e).write v)).settle

/-- Queues text at an end and lets it through. -/
def writeText (p : Pair) (e : End) (text : String) : Except WireFault Pair := do
  return (p.set e (← (p.channel e).writeText text)).settle

/-- Closes an end. -/
def close (p : Pair) (e : End) : Pair := (p.set e (p.channel e).close).settle

end Pair

end SessionMux
