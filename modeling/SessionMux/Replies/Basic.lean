import SessionMux.MuxFault

/-!
# Replies

Requests that expect an answer register under their id and get a slot. A message that answers the
id puts its event into the slot that registered last under it; nobody else sees the event. Who
registered reads the slot and leaves it when it is done, in whichever way.

* `entries` says which slot is waiting under which id, at most one for an id.
* `slots` holds what each slot that has not been left contains.
* After `closeAll` nothing is waiting and nothing can register.
* Leaving a slot takes out whatever entry there is under the slot's id.
-/

namespace SessionMux

/-- Names one registration. -/
structure Slot where
  number : Nat
deriving DecidableEq

/-- What a slot contains. -/
inductive SlotContent where
  /-- Nothing yet. -/
  | empty
  | reply (e : Event)
  /-- There will never be a reply. -/
  | orphaned
deriving DecidableEq

/-- A slot that has not been left: the id that it was registered under, and its content. -/
structure SlotState where
  id : RequestId
  content : SlotContent
deriving DecidableEq

/-- The table of replies. -/
structure Replies where
  entries : List (RequestId × Slot) := []
  slots : List (Slot × SlotState) := []
  /-- So many slots have been given out. -/
  given : Nat := 0
  closed : Bool := false

namespace Replies

/-- The ids under which a reply is awaited. -/
def ids (t : Replies) : List RequestId := t.entries.map Prod.fst

/-- How many replies are awaited. -/
def size (t : Replies) : Nat := t.entries.length

/-- The slot that is waiting under an id. -/
def awaited? (t : Replies) (id : RequestId) : Option Slot := t.entries.lookup id

/-- The state of a slot that has not been left. -/
def slot? (t : Replies) (s : Slot) : Option SlotState := t.slots.lookup s

/-- Takes out the entry of an id. -/
def erase (t : Replies) (id : RequestId) : Replies :=
  { t with entries := t.entries.filter fun e => e.1 != id }

/-- Replaces the content of a slot that has not been left. -/
def fill (t : Replies) (s : Slot) (c : SlotContent) : Replies :=
  { t with slots := t.slots.map fun p => if p.1 = s then (p.1, { p.2 with content := c }) else p }

/-- Takes out the entry of an id; its slot will never have a reply. -/
def cancel (t : Replies) (id : RequestId) : Replies :=
  match t.awaited? id with
  | some s => (t.fill s .orphaned).erase id
  | none => t

/-- Begins to wait for the reply to an id. Whoever waited under this id before waits in vain from
now on. -/
def register (t : Replies) (id : RequestId) : Except MuxFault (Slot × Replies) :=
  if t.closed then .error .connectionClosed
  else
    let s : Slot := ⟨t.given⟩
    let t := t.cancel id
    .ok (s, { t with
      entries := t.entries ++ [(id, s)]
      slots := t.slots ++ [(s, ⟨id, .empty⟩)]
      given := t.given + 1 })

/-- Hands an event to whoever waits under an id; the answer says whether somebody took it. -/
def resolve (t : Replies) (id : RequestId) (e : Event) : Bool × Replies :=
  match t.awaited? id with
  | some s =>
    match t.slot? s with
    | some _ => (true, (t.erase id).fill s (.reply e))
    | none => (false, t.erase id)
  | none => (false, t)

/-- Nobody gets a reply any more, and nobody can register. -/
def closeAll (t : Replies) : Replies :=
  { t.entries.foldl (fun t e => t.fill e.2 .orphaned) t with entries := [], closed := true }

/-- Leaves a slot; the entry under its id goes with it. The answer says whether the slot had not
been left before. -/
def leave (t : Replies) (s : Slot) : Bool × Replies :=
  match t.slot? s with
  | some state =>
    let t := t.cancel state.id
    (true, { t with slots := t.slots.filter fun p => p.1 != s })
  | none => (false, t)

end Replies

end SessionMux
