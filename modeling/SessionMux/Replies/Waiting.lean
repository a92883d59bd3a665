import SessionMux.Replies.Basic

/-!
# Waiting for replies

Who waits for a reply waits for a limited time. A reply that is there counts even if the time is up
as well; otherwise the end of the table comes before the end of the time. However the wait ends,
its slot is left.

`ReplyDesk` is a table of replies together with everyone who waits, under a clock that moves only
when it is told to.
-/

namespace SessionMux

/-- Somebody who waits for a reply: the slot, how the request is named, and the time in
milliseconds, from the moment when the wait began. -/
structure Wait where
  slot : Slot
  label : String
  timeout : Nat
  since : Nat
deriving DecidableEq

/-- The moment when the time is up. -/
def Wait.deadline (w : Wait) : Nat := w.since + w.timeout

/-- What a wait that has come to its end at the moment `now` comes to. -/
def Replies.outcome? (t : Replies) (now : Nat) (w : Wait) : Option (Except MuxFault Event) :=
  match (t.slot? w.slot).map SlotState.content with
  | some (.reply e) => some (.ok e)
  | some .empty =>
    if w.deadline ≤ now then some (.error (.timedOut w.label (w.timeout * 1000000))) else none
  | _ => some (.error .connectionClosed)

/-- Ends a wait at the moment `now`, if it has come to its end. -/
def Replies.finish? (t : Replies) (now : Nat) (w : Wait) :
    Option (Except MuxFault Event × Replies) :=
  (t.outcome? now w).map fun r => (r, (t.leave w.slot).2)

/-- A table of replies with those who wait, in the order in which their waits began. -/
structure ReplyDesk where
  replies : Replies := {}
  /-- The label of every registration. -/
  labels : List (Slot × String) := []
  waits : List Wait := []
  now : Nat := 0

/-- The end of a wait. -/
abbrev Answered : Type := Slot × Except MuxFault Event

namespace ReplyDesk

/-- Ends the first wait that has come to its end. -/
def finishFirst? (d : ReplyDesk) : (waits : List Wait) → Option (Answered × Wait × Replies)
  | [] => none
  | w :: rest =>
    match d.replies.finish? d.now w with
    | some (r, t) => some ((w.slot, r), w, t)
    | none => d.finishFirst? rest

theorem mem_of_finishFirst? {d : ReplyDesk} {waits : List Wait} {a : Answered} {w : Wait}
    {t : Replies} (h : d.finishFirst? waits = some (a, w, t)) : w ∈ waits := by
  induction waits with
  | nil => simp [finishFirst?] at h
  | cons v rest ih =>
    unfold finishFirst? at h
    split at h
    · simp_all
    · exact List.mem_cons_of_mem _ (ih h)

/-- Ends every wait that has come to its end, one after another. -/
def settle (d : ReplyDesk) : List Answered × ReplyDesk :=
  match _h : d.finishFirst? d.waits with
  | some (a, w, t) =>
    let (rest, d) := settle { d with replies := t, waits := d.waits.erase w }
    (a :: rest, d)
  | none => ([], d)
termination_by d.waits.length
decreasing_by
  have hm := mem_of_finishFirst? _h
  have := List.length_pos_of_mem hm
  simp only [List.length_erase_of_mem hm]
  omega

/-- Registers a request. -/
def register (d : ReplyDesk) (id : RequestId) (label : String) :
    Except MuxFault (Slot × ReplyDesk) := do
  let (s, t) ← d.replies.register id
  return (s, { d with replies := t, labels := d.labels ++ [(s, label)] })

/-- Begins to wait on a slot. There is none if it has been left or somebody waits on it already. -/
def wait (d : ReplyDesk) (s : Slot) (timeout : Nat) : Option ReplyDesk :=
  match d.replies.slot? s with
  | some _ =>
    if d.waits.any (fun w => w.slot = s) then none
    else
      some { d with waits := d.waits ++ [⟨s, (d.labels.lookup s).getD "", timeout, d.now⟩] }
  | none => none

/-- Leaves a slot that nobody waits on, and says whether there was one. -/
def drop (d : ReplyDesk) (s : Slot) : Bool × ReplyDesk :=
  if d.waits.any (fun w => w.slot = s) then (false, d)
  else
    let (b, t) := d.replies.leave s
    (b, { d with replies := t })

/-- Lets time pass. -/
def advance (d : ReplyDesk) (milliseconds : Nat) : ReplyDesk :=
  { d with now := d.now + milliseconds }

end ReplyDesk

end SessionMux
