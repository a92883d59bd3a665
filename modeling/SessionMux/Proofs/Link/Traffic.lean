import SessionMux.Proofs.Link.Moves

/-!
# A link among callers, pump and transport

Everybody who acts on a link, one act at a time and in any order: the callers, through as many handles
as there are; whoever takes events; the pump; and the transport, from which texts, a failure or the end
may come, and which may stop taking texts. An act that is not possible leaves everything as it is, so
every list of acts is an interleaving.

A call is taken apart where another thread can come between. Whoever sends or closes first looks at the
flag, and after that queues a command; whoever takes an event first looks at the flag, then takes what
has been queued or goes on waiting, and looks at the flag again before handing it out.

What is seen of the link from outside is kept as a history, the latest last. Nothing is decided by it.

* `HalfCall`, `Sight`, `Traffic`, `TrafficAct` — half a call, what is seen, the state, and the acts.
* `Traffic.act`, `Traffic.run` — one act, and a run.
* `send_in_one`, `close_in_one`, `poll_in_one` — the halves of a call, one right after the other, are
  the call.
-/

namespace SessionMux

namespace Link

/-! ## Halves of calls -/

/-- The flag goes down. -/
def lower (l : Link) : Link := { l with active := false }

/-- Queues a command, if the pump is there to take it. -/
def queue (l : Link) (c : Command) : Option Link :=
  if l.pumping then some { l with commands := l.commands ++ [c] } else none

theorem send_eq (l : Link) (text : String) :
    l.send text = if l.active then l.queue (.send text) else none := by
  rw [send, queue]
  cases l.active with
  | true => rfl
  | false => rfl

theorem close_eq (l : Link) :
    l.close = if l.active then (l.lower.queue .close).getD l.lower else l := by
  rw [close, queue]
  split
  · show _ = Option.getD (if l.pumping then _ else _) l.lower
    split <;> rfl
  · rfl

end Link

/-- A call through a handle that has looked at the flag and has its command still to queue. -/
inductive HalfCall where
  | send (text : String)
  | close
deriving DecidableEq

/-- The command of a call. -/
def HalfCall.command : HalfCall → Command
  | send text => .send text
  | close => .close

/-- What is seen of a link. -/
inductive Sight where
  /-- The link is closed for the first time. -/
  | closing
  /-- A send has found the link open. -/
  | admitted (text : String)
  /-- A send has ended well. -/
  | sent (text : String)
  /-- A send has been told that the link is closed. -/
  | refused (text : String)
  /-- An event has been handed out. -/
  | received (e : LinkEvent)
  /-- Whoever takes events has been told that there will be none. -/
  | nothing
  /-- The transport has been given a text. -/
  | wrote (text : String)
  /-- The transport has been told that no more texts will come. -/
  | finished
deriving DecidableEq

/-- What is seen of the end of a call, whose command was queued or not. -/
def HalfCall.sights : HalfCall → (queued : Bool) → List Sight
  | send text, true => [.sent text]
  | send text, false => [.refused text]
  | close, _ => []

/-- What is seen of the end of a wait for an event. -/
def Received.sights : Received → List Sight
  | event e => [.received e]
  | ended => [.nothing]
  | pending => []

/-- There is no event yet, so that whoever waits for one goes on waiting. -/
def Received.isPending : Received → Bool
  | pending => true
  | _ => false

/-- The text that a delivery stands for on its way out. -/
def Delivery.sight? : Delivery → Option Sight
  | .frame (.text text) => some (.wrote text)
  | _ => none

/-- What is seen of a step of the pump after which the link is `l` and the way out `o`, where it was
`before`: what has been put in, or that the way out has been left. -/
def Link.sights (l : Link) (before o : Pipe) : List Sight :=
  if l.pumping then (o.items.drop before.items.length).filterMap Delivery.sight? else [.finished]

/-- A link at its transport, with the calls that are half done. -/
structure Traffic where
  link : Link := {}
  inbound : Pipe := {}
  outbound : Pipe := {}
  halves : List HalfCall := []
  /-- Somebody waits for an event. -/
  waiting : Bool := false
  history : List Sight := []

/-- What can be done. -/
inductive TrafficAct where
  /-- Somebody begins to send. -/
  | send (text : String)
  /-- Somebody begins to close. -/
  | close
  /-- The call `k` of those half done queues its command. -/
  | queue (k : Nat)
  /-- The last handle is gone. -/
  | release
  /-- Somebody begins to take an event. -/
  | poll
  /-- Whoever waits for an event looks for one. -/
  | resume
  /-- The pump takes a step. -/
  | pump (t : Turn)
  /-- The transport brings something. -/
  | arrive (d : Delivery)
  /-- The transport brings nothing more. -/
  | hostFinish
  /-- The transport takes no more texts. -/
  | hostLeave

namespace Traffic

/-- Something has been seen. -/
def record (w : Traffic) (l : List Sight) : Traffic := { w with history := w.history ++ l }

/-- Somebody begins to send, and is admitted if the link is open. -/
def send (w : Traffic) (text : String) : Traffic :=
  if w.link.active then { w with halves := w.halves ++ [HalfCall.send text] }.record [.admitted text]
  else w.record [.refused text]

/-- Somebody begins to close: the flag goes down, and whoever has lowered it has the command to
queue. -/
def close (w : Traffic) : Traffic :=
  if w.link.active then
    { w with link := w.link.lower, halves := w.halves ++ [HalfCall.close] }.record [.closing]
  else w

/-- A call that is half done queues its command, and ends. -/
def queue (w : Traffic) (k : Nat) : Traffic :=
  match w.halves[k]? with
  | none => w
  | some c =>
    let w := { w with halves := w.halves.eraseIdx k }
    match w.link.queue c.command with
    | some l => { w with link := l }.record (c.sights true)
    | none => w.record (c.sights false)

/-- Somebody begins to take an event, and waits for it if the link is open. -/
def poll (w : Traffic) : Traffic :=
  if w.link.active then { w with waiting := true } else w.record Received.ended.sights

/-- Whoever waits for an event looks for one. -/
def resume (w : Traffic) : Traffic :=
  if w.waiting then
    let (r, l) := w.link.resume
    { w with link := l, waiting := r.isPending }.record r.sights
  else w

/-- The pump takes a step, unless it has nothing to do. -/
def pump (w : Traffic) (t : Turn) : Traffic :=
  match w.link.pump t w.inbound w.outbound with
  | some (l, i, o) =>
    { w with link := l, inbound := i, outbound := o }.record (l.sights w.outbound o)
  | none => w

/-- Does an act. -/
def act (w : Traffic) : TrafficAct → Traffic
  | .send text => w.send text
  | .close => w.close
  | .queue k => w.queue k
  | .release => { w with link := w.link.release }
  | .poll => w.poll
  | .resume => w.resume
  | .pump t => w.pump t
  | .arrive d => { w with inbound := (w.inbound.offer d).2 }
  | .hostFinish => { w with inbound := w.inbound.finish }
  | .hostLeave => { w with outbound := w.outbound.abandon }

/-- Does one act after another. -/
def run (w : Traffic) (acts : List TrafficAct) : Traffic := acts.foldl act w

/-- **What every act keeps, every run keeps.** -/
theorem run_induction {P : Traffic → Prop} (hact : ∀ w a, P w → P (w.act a)) (w : Traffic)
    (hw : P w) (acts : List TrafficAct) : P (w.run acts) := by
  induction acts generalizing w with
  | nil => exact hw
  | cons a acts ih => exact ih (w.act a) (hact w a hw)

/-! ## Calls in one go -/

section InOne

variable (w : Traffic)

/-- A call that is half done goes on. -/
theorem queue_last (w : Traffic) (c : HalfCall) (hs : List HalfCall) (h : w.halves = hs ++ [c]) :
    w.queue hs.length = match w.link.queue c.command with
      | some l => { w with halves := hs, link := l }.record (c.sights true)
      | none => { w with halves := hs }.record (c.sights false) := by
  have hlast : w.halves[hs.length]? = some c := by
    rw [h]
    exact List.getElem?_concat_length
  have herase : w.halves.eraseIdx hs.length = hs := by
    rw [h, List.eraseIdx_append_of_length_le (Nat.le_refl _), Nat.sub_self]
    exact List.append_nil _
  rw [queue]
  simp only [hlast, herase]

/-- Nobody is at this place among the calls that are half done. -/
theorem queue_none (w : Traffic) : w.queue w.halves.length = w := by
  have hnone : w.halves[w.halves.length]? = none := List.getElem?_eq_none (Nat.le_refl _)
  rw [queue]
  simp only [hnone]

/-- **A send in one go** is the send of the link. -/
theorem send_in_one (text : String) :
    (w.act (.send text)).act (.queue w.halves.length) =
      { w with link := (w.link.send text).getD w.link }.record
        ((if w.link.active then [Sight.admitted text] else []) ++
          HalfCall.sights (.send text) (w.link.send text).isSome) := by
  show (w.send text).queue w.halves.length = _
  rw [send, Link.send_eq]
  split
  · rw [queue_last _ (.send text) w.halves rfl]
    show (match w.link.queue (.send text) with | some l => _ | none => _) = _
    split <;> rename_i hq <;>
      simp only [record, hq, Option.getD, Option.isSome, List.append_assoc]
  · exact queue_none (w.record [.refused text])

/-- **A close in one go** is the close of the link. -/
theorem close_in_one :
    (w.act .close).act (.queue w.halves.length) =
      { w with link := w.link.close }.record (if w.link.active then [Sight.closing] else []) := by
  show w.close.queue w.halves.length = _
  rw [close, Link.close_eq]
  split
  · rw [queue_last _ .close w.halves rfl]
    show (match w.link.lower.queue .close with | some l => _ | none => _) = _
    split <;> rename_i hq <;>
      simp only [record, hq, Option.getD, HalfCall.sights, List.append_nil]
  · rw [queue_none]
    exact (congrArg (fun h => { w with history := h }) (List.append_nil w.history)).symm

/-- **Taking an event in one go** is the poll of the link. -/
theorem poll_in_one (h : w.waiting = false) :
    (w.act .poll).act .resume =
      { w with link := w.link.poll.2, waiting := w.link.poll.1.isPending }.record
        w.link.poll.1.sights := by
  show w.poll.resume = _
  rw [poll, Link.poll]
  split
  · rfl
  · have hwait : ¬ (w.record Received.ended.sights).waiting = true := by
      show ¬ w.waiting = true
      rw [h]
      exact Bool.false_ne_true
    rw [resume, if_neg hwait]
    exact congrArg (fun b => { w with waiting := b }.record Received.ended.sights) h

end InOne

end Traffic

end SessionMux
