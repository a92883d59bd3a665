import SessionMux.Proofs.Hub.Moves
import SessionMux.Proofs.Wire.RoundTrip

/-!
# What a request does

Five kinds of requests are made of a hub. Three of them are told the id that they have taken; the other
two are calls, which register first and wait for their reply. What the making of a request can come to,
up to the moment when it is sent or has failed, is `Outbox.Asks`, one case for each way to go.

* `Ask`, `Asked`, `Outbox.ask` — the requests, what whoever asks has at once, and the making of one.
* `Outbox.Open`, `Outbox.Ready` — a message, and a request, can be sent.
* `transmit_open`, `transmit_shut` — a message is queued if it can be, and else nothing happens.
* **`asks_ask`** — every request comes to one of the cases.
* **`unpack_envelope`** — what is sent of a request gives the request back.
-/

namespace SessionMux

open Octets

/-- What can be asked of a hub. -/
inductive Ask where
  | insertText (session : String) (r : InsertText)
  | setBuffer (session : String) (r : SetBuffer)
  | intercept (session : String) (r : Intercept)
  | runProcess (session : String) (r : RunProcess)
  | ping

namespace Ask

/-- The session that is asked for; a ping is for the connection. -/
def session? : Ask → Option String
  | insertText session _ | setBuffer session _ | intercept session _ | runProcess session _ =>
    some session
  | ping => none

/-- The request itself. -/
def request : Ask → Request
  | insertText _ r => .insertText r
  | setBuffer _ r => .setBuffer r
  | intercept _ r => .intercept r
  | runProcess _ r => .runProcess r
  | ping => .ping

/-- What is called for, if a reply is expected. -/
def kind? : Ask → Option CallKind
  | insertText .. | setBuffer .. | intercept .. => none
  | runProcess .. => some .process
  | ping => some .ping

/-- The message of a request that has taken an id. -/
def message (id : RequestId) (a : Ask) : OutboundMessage := ⟨id, a.session?, a.request⟩

end Ask

/-- What whoever asks has at once. -/
inductive Asked where
  /-- The id of the request. -/
  | told (id : RequestId)
  /-- A call that waits for its reply. -/
  | waiting (c : Call)

namespace Outbox

variable {τ : Type} {b : Outbox τ}

/-- Makes a request. -/
def ask (b : Outbox τ) (now : Nat) : Ask → Except MuxFault Asked × Outbox τ
  | .insertText session r => (b.send session (.insertText r)).map (.map .told) id
  | .setBuffer session r => (b.send session (.setBuffer r)).map (.map .told) id
  | .intercept session r => (b.send session (.intercept r)).map (.map .told) id
  | .runProcess session r => (b.runProcess session r now).map (.map .waiting) id
  | .ping => (b.ping now).map (.map .waiting) id

/-! ## Sending a message -/

/-- The text of a message on the wire. -/
def text (b : Outbox τ) (m : OutboundMessage) : String := (b.envelope m).toLine.push '\n'

/-- The message can be sent: nobody has closed the link, the pump has not ended, and the line is not
too long. -/
structure Open (b : Outbox τ) (m : OutboundMessage) : Prop where
  active : b.link.active = true
  pumping : b.link.pumping = true
  fits : (b.envelope m).line.length ≤ defaultLineLimit

/-- The message behind all other commands of the link. -/
def queue (b : Outbox τ) (m : OutboundMessage) : Outbox τ :=
  { b with link := { b.link with commands := b.link.commands ++ [.send (b.text m)] } }

/-- Why a message that cannot be sent is refused: its line is too long for a link that is open, or the
connection is closed. -/
def refusal (b : Outbox τ) (m : OutboundMessage) : MuxFault :=
  if b.link.active ∧ defaultLineLimit < (b.envelope m).line.length then
    .ofWire (.messageTooLarge (b.envelope m).line.length defaultLineLimit)
  else .connectionClosed

theorem transmit_open {m : OutboundMessage} (h : b.Open m) : b.transmit m = .ok (b.queue m) := by
  have hline : ({} : Framer).encode (b.envelope m) = .ok (b.text m) :=
    if_neg (Nat.not_lt.mpr h.fits)
  have hsend : b.link.send (b.text m) = some (b.queue m).link :=
    if_pos (Bool.and_eq_true_iff.mpr ⟨h.active, h.pumping⟩)
  rw [transmit, if_pos h.active, Link.write, hline]
  simp only [hsend]
  rfl

theorem transmit_shut {m : OutboundMessage} (h : ¬ b.Open m) :
    b.transmit m = .error (b.refusal m) := by
  by_cases ha : b.link.active = true
  · rw [transmit, if_pos ha, Link.write]
    by_cases hfits : (b.envelope m).line.length ≤ defaultLineLimit
    · have hline : ({} : Framer).encode (b.envelope m) = .ok (b.text m) :=
        if_neg (Nat.not_lt.mpr hfits)
      have hsend : b.link.send (b.text m) = none :=
        if_neg fun hopen => h ⟨ha, (Bool.and_eq_true_iff.mp hopen).2, hfits⟩
      rw [hline, refusal, if_neg fun hlong => Nat.not_lt.mpr hfits hlong.2]
      simp only [hsend]
      rfl
    · have hlong := Nat.lt_of_not_le hfits
      have hline : ({} : Framer).encode (b.envelope m) =
          .error (.messageTooLarge (b.envelope m).line.length defaultLineLimit) := if_pos hlong
      rw [hline, refusal, if_pos ⟨ha, hlong⟩]
  · rw [transmit, if_neg ha, refusal, if_neg fun hlong => ha hlong.1]

/-- **What is sent of a message gives the message back**, whichever writer of gzip members is used. -/
theorem unpack_envelope (hgzip : ∀ x, Gzip.decode (b.options.gzip x) = .ok x) {m : OutboundMessage}
    (hfits : (b.envelope m).line.length ≤ defaultLineLimit) :
    (b.envelope m).unpack OutboundMessage = .ok m := by
  let l : Letter := ⟨.outbound m, b.options.compression, (b.options.nonce m.id).bytes⟩
  have hbytes : (Record.write m).size ≤ 2064 * (b.envelope m).line.length :=
    Letter.size_bytes_le hgzip l
  have hline : (b.envelope m).line.length ≤ 16777216 := hfits
  exact Envelope.unpack_packWith hgzip _ _ m (Record.fits_of_size m (by omega))

/-! ## Making a request -/

/-- The request can be sent: its message can, and if it is a call, the table of replies is open. -/
structure Ready (b : Outbox τ) (a : Ask) : Prop where
  opened : b.Open (a.message b.nextId)
  registers : a.kind? ≠ none → b.replies.closed = false

/-- **What the making of a request can come to**: what whoever asks has at once, and what is left
behind. -/
inductive Asks (b : Outbox τ) (a : Ask) : Except MuxFault Asked → Outbox τ → Prop
  /-- It is sent, and its id is told. -/
  | told (kind : a.kind? = none) (opened : b.Open (a.message b.nextId)) :
      Asks b a (.ok (.told b.nextId)) (b.issue.2.queue (a.message b.nextId))
  /-- It cannot be sent. -/
  | unsent (kind : a.kind? = none) (shut : ¬ b.Open (a.message b.nextId)) :
      Asks b a (.error (b.refusal (a.message b.nextId))) b.issue.2
  /-- It is a call, which registers and is sent. -/
  | waiting {k : CallKind} {c : Call} (kind : a.kind? = some k) (slot : c.wait.slot = ⟨b.replies.given⟩)
      (free : b.replies.closed = false) (opened : b.Open (a.message b.nextId)) :
      Asks b a (.ok (.waiting c))
        ({ b.issue.2 with replies := b.replies.registered b.nextId }.queue (a.message b.nextId))
  /-- It is a call, and nobody can register any more. -/
  | closed {k : CallKind} (kind : a.kind? = some k) (closed : b.replies.closed = true) :
      Asks b a (.error .connectionClosed) b.issue.2
  /-- It is a call, which registers and then cannot be sent, so that it is given up. -/
  | givenUp {k : CallKind} (kind : a.kind? = some k) (free : b.replies.closed = false)
      (shut : ¬ b.Open (a.message b.nextId)) :
      Asks b a (.error (b.refusal (a.message b.nextId)))
        { b.issue.2 with replies := ((b.replies.registered b.nextId).leave ⟨b.replies.given⟩).2 }

section Asks

variable {a : Ask} {r : Except MuxFault Asked} {b' : Outbox τ}

/-- Every request takes an id, also one that fails. -/
theorem Asks.issued_eq (h : b.Asks a r b') : b'.issued = b.issued + 1 := by cases h <;> rfl

theorem Asks.options_eq (h : b.Asks a r b') : b'.options = b.options := by cases h <;> rfl

end Asks

section Send

variable {a : Ask} {session : String} (hsession : a.session? = some session)

include hsession

theorem send_of_ok {b' : Outbox τ} (h : b.issue.2.transmit (a.message b.nextId) = .ok b') :
    b.send session a.request = (.ok b.nextId, b') := by
  rw [Ask.message, hsession] at h
  simp only [send, issue] at h ⊢
  rw [h]

theorem send_of_error {f : MuxFault} (h : b.issue.2.transmit (a.message b.nextId) = .error f) :
    b.send session a.request = (.error f, b.issue.2) := by
  rw [Ask.message, hsession] at h
  simp only [send, issue] at h ⊢
  rw [h]

/-- A request without a reply. -/
theorem asks_send (kind : a.kind? = none) :
    b.Asks a ((b.send session a.request).1.map .told) (b.send session a.request).2 := by
  by_cases h : b.Open (a.message b.nextId)
  · have hopen : b.issue.2.Open (a.message b.nextId) := ⟨h.active, h.pumping, h.fits⟩
    rw [send_of_ok hsession (transmit_open hopen)]
    exact .told kind h
  · have hshut : ¬ b.issue.2.Open (a.message b.nextId) := fun h' =>
      h ⟨h'.active, h'.pumping, h'.fits⟩
    rw [send_of_error hsession (transmit_shut hshut)]
    exact .unsent kind h

end Send

/-- A request with a reply. -/
theorem asks_call {a : Ask} {k : CallKind} (kind : a.kind? = some k) (now : Nat) :
    b.Asks a ((b.call k a.session? a.request now).1.map .waiting)
      (b.call k a.session? a.request now).2 := by
  cases hclosed : b.replies.closed with
  | true =>
    have hcall : b.call k a.session? a.request now = (.error .connectionClosed, b.issue.2) := by
      have hregister := Replies.register_closed b.nextId hclosed
      simp only [call, enlist, issue, hregister]
    rw [hcall]
    exact .closed kind hclosed
  | false =>
    let c : Call := ⟨k, ⟨⟨b.replies.given⟩, (a.message b.nextId).label, b.options.requestTimeout, now⟩⟩
    let b' : Outbox τ := { b.issue.2 with replies := b.replies.registered b.nextId }
    have hcall : b.call k a.session? a.request now = b'.proceed (a.message b.nextId) c := by
      have hregister := Replies.register_open b.nextId hclosed
      simp only [call, enlist, issue, hregister]
      rfl
    by_cases h : b.Open (a.message b.nextId)
    · have hopen : b'.Open (a.message b.nextId) := ⟨h.active, h.pumping, h.fits⟩
      rw [hcall, proceed, transmit_open hopen]
      exact .waiting (c := c) kind rfl hclosed h
    · have hshut : ¬ b'.Open (a.message b.nextId) := fun h' => h ⟨h'.active, h'.pumping, h'.fits⟩
      rw [hcall, proceed, transmit_shut hshut]
      exact .givenUp kind hclosed h

/-- **Every request comes to one of the cases.** -/
theorem asks_ask (b : Outbox τ) (now : Nat) (a : Ask) : b.Asks a (b.ask now a).1 (b.ask now a).2 := by
  cases a with
  | insertText session r => exact asks_send (a := .insertText session r) rfl rfl
  | setBuffer session r => exact asks_send (a := .setBuffer session r) rfl rfl
  | intercept session r => exact asks_send (a := .intercept session r) rfl rfl
  | runProcess session r => exact asks_call (a := .runProcess session r) rfl now
  | ping => exact asks_call (a := .ping) rfl now

end Outbox

end SessionMux
