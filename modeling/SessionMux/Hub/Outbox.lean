import SessionMux.Channel.Basic
import SessionMux.Replies.Waiting

/-!
# The sending side of a hub

What callers and callbacks of a hub share: the link, the table of replies and the counter of
request ids. A request that expects no reply is sent; one that expects a reply is a call, which
registers before it is sent, so that no reply can come too early, and leaves its slot when sending
fails or when it ends.

Every request takes an id, also one that fails.
-/

namespace SessionMux

/-- How a hub speaks. -/
structure HubOptions where
  compression : Compression := .none
  /-- How long a call waits for its reply, in milliseconds. -/
  requestTimeout : Nat := 10000
  malformedLines : MalformedLines := .skip
  /-- The nonce of the envelope of each request. -/
  nonce : RequestId → Nonce := fun _ => .zero
  /-- The writer of gzip members; any writer will do. -/
  gzip : ByteArray → ByteArray := Gzip.encode

/-- What callers and callbacks of a hub share; `own` is what the program around the hub keeps. -/
structure Outbox (τ : Type) where
  options : HubOptions := {}
  link : Link := {}
  replies : Replies := {}
  /-- So many requests have taken an id. -/
  issued : Nat := 0
  own : τ

/-- What a call is made for. -/
inductive CallKind where
  | process
  | ping
deriving DecidableEq

/-- The good end of a call. -/
inductive CallResult where
  | process (r : ProcessResult)
  | pong
deriving DecidableEq

/-- A call that waits for its reply. -/
structure Call where
  kind : CallKind
  wait : Wait
deriving DecidableEq

/-- What the end of a wait means for a call: an event of another kind than the call asks for is no
answer. -/
def CallKind.result (k : CallKind) (label : String) :
    Except MuxFault Event → Except MuxFault CallResult
  | .error f => .error f
  | .ok e =>
    match k, e with
    | .process, .processResult r => .ok (.process r)
    | .ping, .pong => .ok .pong
    | _, e => .error (.unexpectedReply label e.name)

namespace Outbox

variable {τ : Type}

/-- The id of the next request, counted from 1 in 64 bits. -/
def nextId (b : Outbox τ) : RequestId := ⟨UInt64.ofNat (b.issued + 1)⟩

/-- Takes the next request id. -/
def issue (b : Outbox τ) : RequestId × Outbox τ := (b.nextId, { b with issued := b.issued + 1 })

/-- The envelope of a message. -/
def envelope (b : Outbox τ) (m : OutboundMessage) : Envelope :=
  Envelope.packWith b.options.gzip b.options.compression (b.options.nonce m.id).bytes m

/-- Queues a message on the link. -/
def transmit (b : Outbox τ) (m : OutboundMessage) : Except MuxFault (Outbox τ) :=
  if b.link.active then
    match b.link.write (b.envelope m) with
    | .ok link => .ok { b with link := link }
    | .error f => .error (.ofWire f)
  else .error .connectionClosed

/-- Transmitting takes no event of the link. -/
theorem events_transmit {b b' : Outbox τ} {m : OutboundMessage} (h : b.transmit m = .ok b') :
    b'.link.events = b.link.events := by
  unfold transmit at h
  split at h
  · split at h
    · rename_i hw
      cases h
      exact Link.events_write hw
    · cases h
  · cases h

/-- Sends a request to a session, without expecting a reply. -/
def send (b : Outbox τ) (session : String) (r : Request) : Except MuxFault RequestId × Outbox τ :=
  let (id, b) := b.issue
  match b.transmit ⟨id, some session, r⟩ with
  | .ok b => (.ok id, b)
  | .error f => (.error f, b)

/-- Sending takes no event of the link. -/
theorem events_send (b : Outbox τ) (session : String) (r : Request) :
    (b.send session r).2.link.events = b.link.events := by
  unfold send
  split
  rename_i id b' hb
  cases hb
  split
  · rename_i ht
    exact (events_transmit ht :)
  · rfl

/-- A call registers at the moment `now`. -/
def enlist (b : Outbox τ) (kind : CallKind) (m : OutboundMessage) (now : Nat) :
    Except MuxFault Call × Outbox τ :=
  match b.replies.register m.id with
  | .ok (slot, replies) =>
    (.ok ⟨kind, ⟨slot, m.label, b.options.requestTimeout, now⟩⟩, { b with replies := replies })
  | .error f => (.error f, b)

/-- Gives up a call. -/
def abandon (b : Outbox τ) (c : Call) : Outbox τ :=
  { b with replies := (b.replies.leave c.wait.slot).2 }

/-- A call that has registered sends its request, or gives up. -/
def proceed (b : Outbox τ) (m : OutboundMessage) (c : Call) : Except MuxFault Call × Outbox τ :=
  match b.transmit m with
  | .ok b => (.ok c, b)
  | .error f => (.error f, b.abandon c)

/-- Calls: the request takes its id, registers and is sent. -/
def call (b : Outbox τ) (kind : CallKind) (session : Option String) (r : Request) (now : Nat) :
    Except MuxFault Call × Outbox τ :=
  let (id, b) := b.issue
  let m : OutboundMessage := ⟨id, session, r⟩
  match b.enlist kind m now with
  | (.ok c, b) => b.proceed m c
  | (.error f, b) => (.error f, b)

/-- Runs a process in a session. -/
def runProcess (b : Outbox τ) (session : String) (r : RunProcess) (now : Nat) :
    Except MuxFault Call × Outbox τ :=
  b.call .process (some session) (.runProcess r) now

/-- Pings the host. -/
def ping (b : Outbox τ) (now : Nat) : Except MuxFault Call × Outbox τ :=
  b.call .ping none .ping now

/-- The end of a call that has come to its end at the moment `now`. -/
def outcome? (b : Outbox τ) (now : Nat) (c : Call) : Option (Except MuxFault CallResult) :=
  (b.replies.outcome? now c.wait).map (c.kind.result c.wait.label)

/-- Ends a call at the moment `now`, if it has come to its end. -/
def finish? (b : Outbox τ) (now : Nat) (c : Call) :
    Option (Except MuxFault CallResult × Outbox τ) :=
  (b.outcome? now c).map fun r => (r, b.abandon c)

/-- Closes the link: nothing can be sent any more. -/
def closeLink (b : Outbox τ) : Outbox τ := { b with link := b.link.close }

/-- Closes the table of replies: every call fails. -/
def closeReplies (b : Outbox τ) : Outbox τ := { b with replies := b.replies.closeAll }

/-- Closes the connection. A second time changes nothing. -/
def close (b : Outbox τ) : Outbox τ := b.closeLink.closeReplies

end Outbox

end SessionMux
