import Mathlib.Control.Monad.Basic
import SessionMux.Proofs.Hub.Moves

/-!
# A hub among callers, pump and host

Everybody who acts on a hub, one act at a time and in any order: callers, whose calls are taken apart
into the steps between which others can act; whoever sends, subscribes or closes; the inbound task;
the pump; the host at the far end of both pipes; and the clock. An act that is not possible leaves
the world as it is, so every list of acts is an interleaving, and what holds after every list of acts
holds whatever the schedule.

A call goes through its stages. It draws its id, registers, sends its request, waits, ends, and after
that leaves its slot; it can be abandoned while it waits. Closing is taken apart too: first the link,
and the table of replies after it.

The world keeps a history of what has happened, the latest last. Nothing is decided by it.

* `Inquiry`, `Stage`, `Caller` — what a call is for, and where it is.
* `Happening` — what the history holds.
* `World`, `Act`, `World.act`, `World.run` — the state, the acts, one of them, and a run.
-/

namespace SessionMux

/-- What a call is for. -/
inductive Inquiry where
  | process (session : String) (r : RunProcess)
  | ping

namespace Inquiry

/-- The kind of a call. -/
def kind : Inquiry → CallKind
  | process .. => .process
  | ping => .ping

/-- The request of a call. -/
def message (id : RequestId) : Inquiry → OutboundMessage
  | process session r => ⟨id, some session, .runProcess r⟩
  | ping => ⟨id, none, .ping⟩

end Inquiry

/-- Where a call is. -/
inductive Stage where
  /-- It has its id. -/
  | drawn
  /-- It has registered. -/
  | registered (c : Call)
  /-- Its request is queued. -/
  | waiting (c : Call)
  /-- It has ended, but not yet left its slot. -/
  | departing (c : Call)

/-- A call under way. -/
structure Caller where
  inquiry : Inquiry
  stage : Stage

/-- What the history of a world holds. -/
inductive Happening where
  /-- A call has registered. -/
  | registered (id : RequestId) (kind : CallKind)
  /-- The request of a call could not be sent. -/
  | unsent (id : RequestId) (f : MuxFault)
  /-- A message has been delivered. -/
  | delivered (m : InboundMessage)
  /-- The table of replies has been closed. -/
  | closed
  /-- The transport has refused a text. -/
  | refused
  /-- A call has ended. -/
  | ended (id : RequestId) (r : Except MuxFault CallResult)
  /-- A call has been abandoned. -/
  | abandoned (id : RequestId)
deriving DecidableEq

/-- A hub, its pipes, and the calls under way. -/
structure World (τ : Type) where
  hub : Hub τ
  toHub : Pipe := {}
  toHost : Pipe := {}
  now : Nat := 0
  callers : List (RequestId × Caller) := []
  history : List Happening := []

/-- What can be done. -/
inductive Act (τ : Type) where
  /-- A call draws its id. -/
  | draw (q : Inquiry)
  | register (id : RequestId)
  /-- A call sends its request. -/
  | send (id : RequestId)
  /-- A call that waits ends. -/
  | conclude (id : RequestId)
  /-- A call that waits is abandoned. -/
  | abandon (id : RequestId)
  /-- A call that has ended leaves its slot. -/
  | leave (id : RequestId)
  /-- A request is sent that expects no reply. -/
  | tell (session : String) (r : Request)
  | subscribe (kind : HookKind) (callback : HubCallback τ)
  | unsubscribe (kind : HookKind) (id : SubscriptionId)
  | closeLink
  /-- Whoever has closed the link closes the table of replies. -/
  | closeReplies
  /-- The inbound task takes a step. -/
  | inbound
  /-- The pump takes a step. -/
  | pump (t : Turn)
  /-- Milliseconds pass. -/
  | elapse (milliseconds : Nat)
  /-- The host puts something in. -/
  | arrive (d : Delivery)
  /-- The host puts in nothing more. -/
  | hostFinish
  /-- The host takes out nothing more. -/
  | hostLeave

/-- What is seen of the inbound task, as a happening. -/
def Notice.happening? : Notice → Option Happening
  | .decoded _ => none
  | .delivered m _ => some (.delivered m)

/-- The pump has a text that the transport would refuse. -/
def Link.isRefused (l : Link) (outbound : Pipe) : Bool :=
  match l.commands with
  | .send _ :: _ => !outbound.reading
  | _ => false

namespace World

variable {τ : Type}

/-- The world at the start: a hub on a fresh link, decoding as fast as `latencies` say. -/
def start (options : HubOptions) (own : τ) (latencies : List Nat) : World τ where
  hub := { Hub.start options own with latencies := latencies }

/-- The table of replies. -/
def replies (w : World τ) : Replies := w.hub.outbox.replies

/-- So many requests have taken an id. -/
def issued (w : World τ) : Nat := w.hub.outbox.issued

/-- Replaces what callers and callbacks share. -/
def withOutbox (w : World τ) (b : Outbox τ) : World τ := { w with hub := { w.hub with outbox := b } }

/-- A call goes on to a stage. -/
def goOn (w : World τ) (id : RequestId) (stage : Stage) : World τ :=
  { w with callers := w.callers.map fun p => if p.1 = id then (p.1, { p.2 with stage := stage }) else p }

/-- A call is over. -/
def dismiss (w : World τ) (id : RequestId) : World τ :=
  { w with callers := w.callers.filter fun p => p.1 != id }

/-- Something has happened. -/
def record (w : World τ) (l : List Happening) : World τ := { w with history := w.history ++ l }

/-- A call draws its id. -/
def draw (w : World τ) (q : Inquiry) : World τ :=
  let (id, b) := w.hub.outbox.issue
  { w.withOutbox b with callers := w.callers ++ [(id, ⟨q, .drawn⟩)] }

/-- A call registers, or ends because nobody can. -/
def register (w : World τ) (id : RequestId) : World τ :=
  match w.callers.lookup id with
  | some ⟨q, .drawn⟩ =>
    match w.hub.outbox.enlist q.kind (q.message id) w.now with
    | (.ok c, b) => ((w.withOutbox b).goOn id (.registered c)).record [.registered id q.kind]
    | (.error f, b) => ((w.withOutbox b).dismiss id).record [.ended id (.error f)]
  | _ => w

/-- A call sends its request, or ends because that fails. -/
def send (w : World τ) (id : RequestId) : World τ :=
  match w.callers.lookup id with
  | some ⟨q, .registered c⟩ =>
    match w.hub.outbox.transmit (q.message id) with
    | .ok b => (w.withOutbox b).goOn id (.waiting c)
    | .error f => (w.goOn id (.departing c)).record [.unsent id f, .ended id (.error f)]
  | _ => w

/-- A call that waits ends, if the time has come. -/
def conclude (w : World τ) (id : RequestId) : World τ :=
  match w.callers.lookup id with
  | some ⟨_, .waiting c⟩ =>
    match w.hub.outbox.outcome? w.now c with
    | some r => (w.goOn id (.departing c)).record [.ended id r]
    | none => w
  | _ => w

/-- A call that waits is abandoned. -/
def abandon (w : World τ) (id : RequestId) : World τ :=
  match w.callers.lookup id with
  | some ⟨_, .waiting c⟩ => (w.goOn id (.departing c)).record [.abandoned id]
  | _ => w

/-- A call that has ended leaves its slot. -/
def leave (w : World τ) (id : RequestId) : World τ :=
  match w.callers.lookup id with
  | some ⟨_, .departing c⟩ => (w.withOutbox (w.hub.outbox.abandon c)).dismiss id
  | _ => w

/-- The inbound task takes a step, unless it has to wait. -/
def inbound (w : World τ) : World τ :=
  match w.hub.step? w.now with
  | some (notices, hub) => { w with hub := hub }.record (notices.filterMap Notice.happening?)
  | none => w

/-- The pump takes a step, unless it has nothing to do. -/
def pump (w : World τ) (t : Turn) : World τ :=
  match w.hub.outbox.link.pump t w.toHub w.toHost with
  | some (l, i, o) =>
    let w' : World τ :=
      { w.withOutbox { w.hub.outbox with link := l } with toHub := i, toHost := o }
    if t = .outgoing ∧ w.hub.outbox.link.isRefused w.toHost then w'.record [.refused] else w'
  | none => w

/-- The host puts something in, if there is a reader. -/
def arrive (w : World τ) (d : Delivery) : World τ := { w with toHub := (w.toHub.offer d).2 }

/-- Does an act, but for the note that the table of replies has been closed. -/
def perform (w : World τ) : Act τ → World τ
  | .draw q => w.draw q
  | .register id => w.register id
  | .send id => w.send id
  | .conclude id => w.conclude id
  | .abandon id => w.abandon id
  | .leave id => w.leave id
  | .tell session r => w.withOutbox (w.hub.outbox.send session r).2
  | .subscribe kind callback => { w with hub := (w.hub.subscribe kind callback).2 }
  | .unsubscribe kind id => { w with hub := (w.hub.unsubscribe kind id).2 }
  | .closeLink => w.withOutbox w.hub.outbox.closeLink
  | .closeReplies => if w.hub.isActive then w else w.withOutbox w.hub.outbox.closeReplies
  | .inbound => w.inbound
  | .pump t => w.pump t
  | .elapse milliseconds => { w with now := w.now + milliseconds }
  | .arrive d => w.arrive d
  | .hostFinish => { w with toHub := w.toHub.finish }
  | .hostLeave => { w with toHost := w.toHost.abandon }

/-- Does an act. That the table of replies has been closed is noted once, behind what else the act
makes happen. -/
def act (w : World τ) (a : Act τ) : World τ :=
  let w' := w.perform a
  if w'.replies.closed && !w.replies.closed then w'.record [.closed] else w'

/-- Does one act after another. -/
def run (w : World τ) (acts : List (Act τ)) : World τ := acts.foldl act w

theorem run_append (w : World τ) (acts more : List (Act τ)) :
    w.run (acts ++ more) = (w.run acts).run more := List.foldl_append

theorem run_concat (w : World τ) (acts : List (Act τ)) (a : Act τ) :
    w.run (acts ++ [a]) = (w.run acts).act a := run_append w acts [a]

/-- **What every act keeps, every run keeps.** -/
theorem run_induction {P : World τ → Prop} (hact : ∀ w a, P w → P (w.act a)) (w : World τ)
    (hw : P w) (acts : List (Act τ)) : P (w.run acts) := by
  induction acts generalizing w with
  | nil => exact hw
  | cons a acts ih => exact ih (w.act a) (hact w a hw)

end World

end SessionMux
