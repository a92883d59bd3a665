import SessionMux.Link.Pipe

/-!
# Links

A link is what callers hold of a transport: they send text, close the link, and take what arrives
as text. Between them and the transport stands the pump, a task of its own. Callers and pump share
a flag and two queues: callers put commands into the one, the pump puts what arrives into the
other.

* `Link.send`, `Link.close`, `Link.release` are the callers' steps; each happens at once.
* `Link.pump` is one step of the pump. Where a command waits and something has arrived, either may
  come first; the `Turn` says which one does. The pump waits for nothing between its look at the flag
  and what it then queues, so the two are one step and no close comes between them.
* `Link.poll` and `Link.resume` take an event: the first begins to wait for one, the second goes on
  waiting.

After a local close nothing more is handed out, even what had arrived before. The end of the
transport is announced once, behind everything that arrived.
-/

namespace SessionMux

/-- What callers ask of the pump. -/
inductive Command where
  | send (text : String)
  | close
deriving DecidableEq

/-- What the pump tells the callers. -/
inductive LinkEvent where
  | message (text : String)
  /-- The transport has ended or failed. -/
  | closed
deriving DecidableEq

/-- A link as its callers and its pump share it. -/
structure Link where
  /-- It has not been closed from this side. -/
  active : Bool := true
  /-- Some caller can still send. -/
  held : Bool := true
  /-- Commands that the pump has not taken yet, the oldest first. -/
  commands : List Command := []
  /-- The pump has not ended. -/
  pumping : Bool := true
  /-- Events that no caller has taken yet, the oldest first. -/
  events : List LinkEvent := []
deriving DecidableEq

/-- Which side the pump turns to. -/
inductive Turn where
  | outgoing
  | incoming
deriving DecidableEq

/-- What waiting for an event comes to. -/
inductive Received where
  | event (e : LinkEvent)
  /-- There will be no event any more. -/
  | ended
  /-- There is no event yet. -/
  | pending
deriving DecidableEq

namespace Link

/-! ## The callers' steps -/

/-- Queues a text for the transport. Fails when the link has been closed or the pump has ended. -/
def send (l : Link) (text : String) : Option Link :=
  if l.active && l.pumping then some { l with commands := l.commands ++ [.send text] } else none

/-- Closes the link; a second time changes nothing. -/
def close (l : Link) : Link :=
  if l.active then
    if l.pumping then { l with active := false, commands := l.commands ++ [.close] }
    else { l with active := false }
  else l

/-- The last caller that could send is gone. -/
def release (l : Link) : Link := { l with held := false }

/-- Goes on waiting for an event. An event that is taken after a local close is suppressed. -/
def resume (l : Link) : Received × Link :=
  match l.events with
  | e :: rest => (if l.active then .event e else .ended, { l with events := rest })
  | [] => (if l.pumping then .pending else .ended, l)

/-- Begins to wait for an event; after a local close there is none. -/
def poll (l : Link) : Received × Link := if l.active then l.resume else (.ended, l)

/-- Sending takes no event. -/
theorem events_send {l l' : Link} {text : String} (h : l.send text = some l') :
    l'.events = l.events := by
  unfold send at h
  split at h <;> simp at h
  subst h
  rfl

/-- Closing takes no event. -/
theorem events_close (l : Link) : l.close.events = l.events := by
  unfold close
  split
  · split <;> rfl
  · rfl

/-! ## The pump's steps -/

/-- The pump announces the end of the transport, unless the link was closed from this side. It looks at
the flag and queues the announcement in one step. -/
def announce (l : Link) : Link :=
  if l.active then { l with events := l.events ++ [.closed] } else l

/-- The pump ends; commands that it has not taken are lost. -/
def stop (l : Link) : Link := { l with pumping := false, commands := [] }

/-- The pump takes in one text, unless the link was closed from this side. It looks at the flag and
queues the text in one step: a text that is queued was queued while the link was open. -/
def arrive (l : Link) (text : String) : Link :=
  if l.active then { l with events := l.events ++ [.message text] } else l

/-- A link at its transport: the link, what comes in and what goes out. -/
abbrev Wired : Type := Link × Pipe × Pipe

/-- One step of the pump on the side of the turn, if there is something to do: a text goes out, a
frame comes in, or the pump ends. It ends at a close, when no caller is left, when the transport
refuses a text, fails or ends; and it then leaves both directions. -/
def pump (t : Turn) (l : Link) (inbound outbound : Pipe) : Option Wired :=
  if l.pumping then
    match t with
    | .outgoing =>
      match l.commands with
      | .send text :: rest =>
        if outbound.reading then
          some ({ l with commands := rest }, inbound, outbound.put (.frame (.text text)))
        else some (l.announce.stop, inbound.abandon, outbound.finish)
      | .close :: _ => some (l.stop, inbound.abandon, outbound.finish)
      | [] => if l.held then none else some (l.stop, inbound.abandon, outbound.finish)
    | .incoming =>
      match inbound.items with
      | .frame f :: rest => some (l.arrive f.toText, { inbound with items := rest }, outbound)
      | .failure _ :: _ => some (l.announce.stop, inbound.abandon, outbound.finish)
      | [] =>
        if inbound.writing then none
        else some (l.announce.stop, inbound.abandon, outbound.finish)
  else none

/-- What is left for the pump to do. -/
def toDo (l : Link) (inbound : Pipe) : Nat :=
  l.commands.length + inbound.items.length + if l.pumping then 1 else 0

/-- Every step of the pump brings it nearer to its rest. -/
theorem pump_decreases {t : Turn} {l l' : Link} {i i' o o' : Pipe}
    (h : l.pump t i o = some (l', i', o')) : l'.toDo i' < l.toDo i := by
  unfold pump at h
  split at h
  case isFalse => simp at h
  case isTrue hp =>
    split at h
    · split at h
      · split at h
        · simp only [Option.some.injEq, Prod.mk.injEq] at h
          obtain ⟨rfl, rfl, -⟩ := h
          simp_all [toDo]
        · simp only [Option.some.injEq, Prod.mk.injEq] at h
          obtain ⟨rfl, rfl, -⟩ := h
          simp [toDo, stop, Pipe.abandon, hp]
      · simp only [Option.some.injEq, Prod.mk.injEq] at h
        obtain ⟨rfl, rfl, -⟩ := h
        simp [toDo, stop, Pipe.abandon, hp]
      · split at h
        · simp at h
        · simp only [Option.some.injEq, Prod.mk.injEq] at h
          obtain ⟨rfl, rfl, -⟩ := h
          simp [toDo, stop, Pipe.abandon, hp]
    · split at h
      · rename_i hi
        simp only [Option.some.injEq, Prod.mk.injEq] at h
        obtain ⟨rfl, rfl, -⟩ := h
        simp only [toDo, arrive, hi, List.length_cons]
        split <;> simp_all
      · simp only [Option.some.injEq, Prod.mk.injEq] at h
        obtain ⟨rfl, rfl, -⟩ := h
        simp [toDo, stop, Pipe.abandon, hp]
      · split at h
        · simp at h
        · simp only [Option.some.injEq, Prod.mk.injEq] at h
          obtain ⟨rfl, rfl, -⟩ := h
          simp [toDo, stop, Pipe.abandon, hp]

/-- Lets the pump run until it has nothing to do; where both sides wait, the outgoing one comes
first. -/
def run (l : Link) (inbound outbound : Pipe) : Wired :=
  match _h : l.pump .outgoing inbound outbound with
  | some (l', i', o') => run l' i' o'
  | none =>
    match _h' : l.pump .incoming inbound outbound with
    | some (l', i', o') => run l' i' o'
    | none => (l, inbound, outbound)
termination_by l.toDo inbound
decreasing_by
  · exact pump_decreases _h
  · exact pump_decreases _h'

/-- When a run of the pump is over, the pump is at rest. -/
theorem pump_run (l : Link) (inbound outbound : Pipe) (t : Turn) :
    (l.run inbound outbound).1.pump t (l.run inbound outbound).2.1
      (l.run inbound outbound).2.2 = none := by
  fun_induction run l inbound outbound with
  | case1 _ _ _ _ _ _ _ ih => exact ih
  | case2 _ _ _ _ _ _ _ _ ih => exact ih
  | case3 _ _ _ ho hi => cases t <;> assumption

/-- An event that is handed out is taken from the queue. -/
theorem length_resume {l l' : Link} {e : LinkEvent} (h : l.resume = (.event e, l')) :
    l'.events.length < l.events.length := by
  unfold resume at h
  split at h
  · rename_i he
    simp only [Prod.mk.injEq] at h
    obtain ⟨-, rfl⟩ := h
    simp [he]
  · split at h <;> simp at h

theorem length_poll {l l' : Link} {e : LinkEvent} (h : l.poll = (.event e, l')) :
    l'.events.length < l.events.length := by
  unfold poll at h
  split at h
  · exact length_resume h
  · simp at h

end Link

end SessionMux
