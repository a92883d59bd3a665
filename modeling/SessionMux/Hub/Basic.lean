import SessionMux.Hub.Outbox
import SessionMux.Subscribers.Reaction

/-!
# Hubs

A hub multiplexes one connection to the host between the subscribers of hooks and the callers of
requests. A task of its own, the inbound task, takes the envelopes that arrive, decodes each one
and delivers its message before it takes the next, however long the decoding takes.

* `Hub.deliver` gives a message to the call that it answers, or else to the subscribers of its
  kind of hook, or else to nobody.
* `Hub.step?` is one step of the inbound task, and `Hub.run` its steps until it has to wait.
* A message that is decoded after a local close is not delivered.
-/

namespace SessionMux

/-- What a callback can do to a hub besides subscribing. -/
inductive HubAct (τ : Type) where
  | close
  | send (session : String) (r : Request)
  /-- Change what the program around the hub keeps. -/
  | own (f : τ → τ)

/-- The answer to such an act. -/
inductive HubAnswer (τ : Type) where
  | closed
  | sent (r : Except MuxFault RequestId)
  | own (t : τ)

/-- Does an act. -/
def Outbox.perform {τ : Type} : HubAct τ → Outbox τ → HubAnswer τ × Outbox τ
  | .close, b => (.closed, b.close)
  | .send session r, b =>
    let (a, b) := b.send session r
    (.sent a, b)
  | .own f, b => (.own (f b.own), { b with own := f b.own })

/-- What a callback of a hub does; it cannot dispatch. -/
abbrev HubReaction (τ : Type) : Type :=
  Reaction HookKind HookEvent (HubAct τ) (HubAnswer τ) Empty

/-- A callback of a hub. -/
abbrev HubCallback (τ : Type) : Type :=
  Callback HookKind HookEvent (HubAct τ) (HubAnswer τ) Empty

/-- Where the inbound task is. -/
inductive InboundPhase where
  /-- It is about to take the next envelope. -/
  | fetching
  /-- It waits for the link. -/
  | receiving
  /-- It decodes an envelope, until the moment `ready`. -/
  | decoding (e : Envelope) (ready : Nat)
  /-- It holds the message of an envelope, or why there is none. -/
  | holding (r : Except WireFault InboundMessage)
  /-- There is nothing to take any more. -/
  | leaving
  /-- It has failed the calls that waited. -/
  | closing
  | ended

/-- A hub. -/
structure Hub (τ : Type) where
  outbox : Outbox τ
  topics : Topics HookKind (HubCallback τ) := .empty
  inlet : Inlet := {}
  phase : InboundPhase := .fetching
  /-- How long it takes to decode the envelopes to come, in milliseconds; nothing where there is no
  entry. -/
  latencies : List Nat := []

/-- What can be seen of the inbound task. -/
inductive Notice where
  /-- An envelope has been decoded. -/
  | decoded (r : Except WireFault InboundMessage)
  /-- A message has been delivered; the callbacks that were called, in order. -/
  | delivered (m : InboundMessage) (calls : List (HookKind × SubscriptionId))

namespace Hub

variable {τ : Type}

/-- A hub on a fresh link. -/
def start (options : HubOptions) (own : τ) : Hub τ where
  outbox := { options := options, own := own }
  inlet := { intake := { framer := { policy := options.malformedLines } } }

/-- It has not been closed from this side. -/
def isActive (h : Hub τ) : Bool := h.outbox.link.active

/-- The inbound task has ended. -/
def isClosed (h : Hub τ) : Bool := h.phase matches .ended

/-- Subscribes a callback to a kind of hooks. -/
def subscribe (h : Hub τ) (kind : HookKind) (callback : HubCallback τ) :
    SubscriptionId × Hub τ :=
  let (id, list) := (h.topics kind).subscribe callback
  (id, { h with topics := h.topics.set kind list })

/-- Takes out a subscription, and says whether it was there. -/
def unsubscribe (h : Hub τ) (kind : HookKind) (id : SubscriptionId) : Bool × Hub τ :=
  let (found, list) := (h.topics kind).unsubscribe id
  (found, { h with topics := h.topics.set kind list })

/-- Calls the subscribers of the kind of a hook. -/
def publish (h : Hub τ) (e : HookEvent) : List (HookKind × SubscriptionId) × Hub τ :=
  let (_, scene) := Scene.dispatch Outbox.perform (fun d _ => d.elim) e.hook.kind e
    { topics := h.topics, surroundings := h.outbox }
  (scene.calls, { h with topics := scene.topics, outbox := scene.surroundings })

/-- What a message is for, when no call takes it: the hook of a session, or nobody. -/
def hookOf? (m : InboundMessage) : Option HookEvent :=
  match m.event, m.session with
  | .hook k, some s => some ⟨s, k⟩
  | _, _ => none

/-- Gives a message to the call that it answers, or else to the subscribers of its hook, or else to
nobody. -/
def deliver (h : Hub τ) (m : InboundMessage) : List (HookKind × SubscriptionId) × Hub τ :=
  let (taken, replies) : Bool × Replies := match m.inReplyTo with
    | some id => h.outbox.replies.resolve id m.event
    | none => (false, h.outbox.replies)
  let h := { h with outbox := { h.outbox with replies := replies } }
  if taken then ([], h)
  else
    match hookOf? m with
    | some e => h.publish e
    | none => ([], h)

/-- One step of the inbound task at the moment `now`; none when it has to wait. -/
def step? (h : Hub τ) (now : Nat) : Option (List Notice × Hub τ) :=
  match h.phase with
  | .fetching =>
    match h.inlet.ready with
    | e :: rest =>
      some ([], { h with
        inlet := { h.inlet with ready := rest }
        phase := .decoding e (now + h.latencies.headD 0)
        latencies := h.latencies.tail })
    | [] => some ([], { h with phase := if h.isActive then .receiving else .leaving })
  | .receiving =>
    match h.outbox.link.resume with
    | (.event (.message text), link) =>
      some ([], { h with
        outbox := { h.outbox with link := link }
        inlet := h.inlet.feed text
        phase := .fetching })
    | (.event .closed, link) =>
      some ([], { h with outbox := { h.outbox with link := link }, phase := .leaving })
    | (.ended, link) =>
      some ([], { h with outbox := { h.outbox with link := link }, phase := .leaving })
    | (.pending, _) => none
  | .decoding e ready =>
    if ready ≤ now then
      let r := e.unpack InboundMessage
      some ([.decoded r], { h with phase := .holding r })
    else none
  | .holding (.error _) => some ([], { h with phase := .fetching })
  | .holding (.ok m) =>
    if h.isActive then
      let (calls, h) := h.deliver m
      some ([.delivered m calls], { h with phase := .fetching })
    else some ([], { h with phase := .leaving })
  | .leaving =>
    some ([], { h with outbox := h.outbox.closeReplies, phase := .closing })
  | .closing => some ([], { h with phase := .ended })
  | .ended => none

/-- Closes the hub: nothing is delivered any more, and every call fails. -/
def close (h : Hub τ) : Hub τ := { h with outbox := h.outbox.close }

end Hub

end SessionMux
