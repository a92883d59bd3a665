import SessionMux.Proofs.Hub.WireOrder

/-!
# Requests that are out when a hub is closed

A request that has been accepted stands in the commands of the link until the pump hands its text to the
transport. A close queues its own command behind them, so that the pump, on a transport that neither
fails nor ends, ends with every text handed over. Whoever waits for the end of a closed hub waits for the
inbound task, though, and not for the pump. The two end in this order only if the inbound task was
waiting for the pump when the link was closed; in every other place it finds the link closed by itself.

* `World.handed`, `World.texts` — the texts that the transport has been given, and these with the ones
  that are queued.
* `Act.spares` — the transport neither fails nor ends.
* `Outward`, **`outward_act`** — what an act can come to, seen from the way out.
* `Attended`, `Draining` — the invariants before and behind the close of the link.
* `exists_ended` — a closed hub ends without the pump, unless it waits for it.
* **`flushes_iff`** — when the end of a hub tells that all its requests are out.
-/

namespace SessionMux

/-! ## Texts on their way out -/

/-- The text that a delivery brings. -/
def Delivery.text? : Delivery → Option String
  | .frame f => some f.toText
  | .failure _ => none

/-- The texts of all requests that have been accepted: those that the transport has been given, and
those that wait. -/
def Link.texts (l : Link) (outbound : Pipe) : List String :=
  outbound.items.filterMap Delivery.text? ++ l.queued

namespace Link

variable {l l' : Link}

/-! ### Before the link is closed -/

/-- The pump has its callers and its transport, and nobody has closed the link. -/
structure Attended (l : Link) (i o : Pipe) : Prop where
  pumping : l.pumping = true
  held : l.held = true
  commands_eq : ∃ texts : List String, l.commands = texts.map .send
  reading : o.reading = true
  accepts : i.accepts = true

section Moves

variable {i i' o o' : Pipe} {t : Turn} {T : List String}

/-- The pump takes back nothing that it has given to the transport. -/
theorem Pumps.items_eq (hm : l.Pumps i o t l' i' o') : ∃ more, o'.items = o.items ++ more := by
  cases hm with
  | @send text rest commands reading => exact ⟨[.frame (.text text)], rfl⟩
  | _ => exact ⟨[], (List.append_nil _).symm⟩

/-- A text that goes out has been waiting first. -/
theorem texts_put {text : String} {rest : List Command} (hcommands : l.commands = .send text :: rest) :
    { l with commands := rest }.texts (o.put (.frame (.text text))) = l.texts o := by
  show (o.items ++ [_]).filterMap Delivery.text? ++ rest.filterMap Command.text? = _
  rw [texts, queued, hcommands, List.filterMap_append, List.append_assoc]
  rfl

theorem accepts_take {f : Frame} {rest : List Delivery} (hitems : i.items = .frame f :: rest) :
    Pipe.accepts { i with items := rest } = i.accepts := by
  rw [Pipe.accepts, Pipe.accepts, hitems]
  rfl

/-- What accepts more texts has neither failed nor ended. -/
theorem not_failed (h : i.accepts = true) {reason : String} {rest : List Delivery} :
    i.items ≠ .failure reason :: rest := by
  intro hitems
  rw [Pipe.accepts, hitems, List.all_cons] at h
  simp [Delivery.isFrame] at h

theorem not_finished (h : i.accepts = true) : i.writing ≠ false := by
  intro hwriting
  rw [Pipe.accepts, Pipe.isOpen, hwriting] at h
  cases h

/-- **A move of the pump** hands over a text or takes one in. -/
theorem Attended.move (h : l.Attended i o) (hm : l.Pumps i o t l' i' o') :
    l'.Attended i' o' ∧ l'.texts o' = l.texts o := by
  obtain ⟨texts, htexts⟩ := h.commands_eq
  cases hm with
  | @send text rest commands reading =>
    obtain ⟨_, texts', -, -, hrest⟩ := List.map_eq_cons_iff.mp (htexts.symm.trans commands)
    exact ⟨⟨h.pumping, h.held, ⟨texts', hrest.symm⟩, h.reading, h.accepts⟩, texts_put commands⟩
  | refuse commands reading => exact absurd (reading.symm.trans h.reading) Bool.false_ne_true
  | close commands =>
    obtain ⟨_, _, -, hclose, -⟩ := List.map_eq_cons_iff.mp (htexts.symm.trans commands)
    cases hclose
  | release commands held => exact absurd (held.symm.trans h.held) Bool.false_ne_true
  | @arrive f rest items =>
    have haccepts := (accepts_take items).trans h.accepts
    rw [Link.arrive]
    split
    · exact ⟨⟨h.pumping, h.held, h.commands_eq, h.reading, haccepts⟩, rfl⟩
    · exact ⟨⟨h.pumping, h.held, h.commands_eq, h.reading, haccepts⟩, rfl⟩
  | fail items => exact absurd items (not_failed h.accepts)
  | finish items writing => exact absurd writing (not_finished h.accepts)

/-- What callers add goes behind all other texts, whatever events have been taken meanwhile. -/
theorem Attended.adds (h : l.Attended i o) {events : List LinkEvent}
    (hadds : Link.Adds { l with events := events } l') :
    l'.Attended i o ∧ l.texts o <+: l'.texts o := by
  obtain ⟨more, hmore⟩ := hadds.queued
  obtain ⟨texts, rfl⟩ := hadds
  obtain ⟨texts₀, hcommands⟩ := h.commands_eq
  refine ⟨⟨h.pumping, h.held, ⟨texts₀ ++ texts, ?_⟩, h.reading, h.accepts⟩, more, ?_⟩
  · rw [List.map_append, ← hcommands]
  · rw [Link.texts, Link.texts, hmore, List.append_assoc]
    rfl

/-! ### Behind the close of the link -/

/-- The link has been closed, and of the texts `T` those that the transport has not been given yet stand
before the command to close. -/
structure Draining (T : List String) (l : Link) (i o : Pipe) : Prop where
  inactive : l.active = false
  held : l.held = true
  reading : o.reading = true
  going : l.pumping = true →
    i.accepts = true ∧ ∃ texts : List String, l.commands = texts.map .send ++ [.close]
  stopped : l.pumping = false → l.commands = []
  texts_eq : l.texts o = T

theorem Attended.close (h : l.Attended i o) (ha : l.active = true) :
    l.close.Draining (l.texts o) i o := by
  obtain ⟨texts, htexts⟩ := h.commands_eq
  rw [Link.close, if_pos ha, if_pos h.pumping]
  refine ⟨rfl, h.held, h.reading, fun _ => ⟨h.accepts, texts, by rw [htexts]⟩, ?_, ?_⟩
  · exact fun hstopped => absurd (hstopped.symm.trans h.pumping) Bool.false_ne_true
  · show _ ++ (l.commands ++ [Command.close]).filterMap Command.text? = _
    rw [List.filterMap_append]
    exact congrArg (_ ++ ·) (List.append_nil _)

/-- **A move of the pump** hands over a text, or takes one in, or ends behind the last text. -/
theorem Draining.move (h : l.Draining T i o) (hp : l.pumping = true)
    (hm : l.Pumps i o t l' i' o') : l'.Draining T i' o' := by
  obtain ⟨haccepts, texts, htexts⟩ := h.going hp
  have hgoing : ∀ {P : Prop}, l.pumping = false → P := fun hstopped =>
    absurd (hstopped.symm.trans hp) Bool.false_ne_true
  cases hm with
  | @send text rest commands reading =>
    refine ⟨h.inactive, h.held, h.reading, fun _ => ⟨haccepts, ?_⟩, hgoing,
      (texts_put commands).trans h.texts_eq⟩
    cases texts with
    | nil => cases (List.cons.inj (commands.symm.trans htexts)).1
    | cons text' texts => exact ⟨texts, (List.cons.inj (commands.symm.trans htexts)).2⟩
  | refuse commands reading => exact absurd (reading.symm.trans h.reading) Bool.false_ne_true
  | @close rest commands =>
    have htext : l.texts o = l.stop.texts o.finish := by
      cases texts with
      | nil =>
        rw [Link.texts, Link.queued, htexts]
        rfl
      | cons text' texts => cases (List.cons.inj (commands.symm.trans htexts)).1
    exact ⟨h.inactive, h.held, h.reading, fun hs => absurd hs Bool.false_ne_true, fun _ => rfl,
      htext.symm.trans h.texts_eq⟩
  | release commands held => exact absurd (held.symm.trans h.held) Bool.false_ne_true
  | @arrive f rest items =>
    rw [arrive_of_inactive h.inactive]
    exact ⟨h.inactive, h.held, h.reading,
      fun _ => ⟨(accepts_take items).trans haccepts, texts, htexts⟩, h.stopped, h.texts_eq⟩
  | fail items => exact absurd items (not_failed haccepts)
  | finish items writing => exact absurd writing (not_finished haccepts)

/-- Behind the close of the link the pump puts in no event. -/
theorem Pumps.events_of_inactive (hm : l.Pumps i o t l' i' o') (ha : l.active = false) :
    l'.events = l.events := by
  have hannounce : l.announce.events = l.events := by rw [announce_of_inactive ha]
  cases hm with
  | refuse commands reading => exact hannounce
  | fail items => exact hannounce
  | finish items writing => exact hannounce
  | arrive items => rw [arrive_of_inactive ha]
  | _ => rfl

/-- When the pump has ended, every text has been handed over. -/
theorem Draining.handed_eq (h : l.Draining T i o) (hstopped : l.pumping = false) :
    o.items.filterMap Delivery.text? = T := by
  have htexts := h.texts_eq
  rw [Link.texts, Link.queued, h.stopped hstopped] at htexts
  exact (List.append_nil _).symm.trans htexts

end Moves

end Link

namespace Outbox

variable {τ : Type}

theorem adds_transmit {b b' : Outbox τ} {m : OutboundMessage} (h : b.transmit m = .ok b') :
    b.link.Adds b'.link := by
  obtain ⟨text, rfl⟩ := transmit_ok h
  exact ⟨[text], rfl⟩

theorem adds_send (b : Outbox τ) (session : String) (r : Request) :
    b.link.Adds (b.send session r).2.link := by
  rw [send]
  split
  rename_i id b₁ hissue
  cases hissue
  split
  · rename_i b₂ ht
    exact adds_transmit (b := b.issue.2) ht
  · exact .refl b.link

/-- A request that is accepted has its text queued behind all others. -/
theorem queued_send {b b' : Outbox τ} {session : String} {r : Request} {id : RequestId}
    (h : b.send session r = (.ok id, b')) : ∃ text, b'.link.queued = b.link.queued ++ [text] := by
  rw [send] at h
  split at h
  rename_i id b₁ hissue
  cases hissue
  split at h
  · rename_i b₂ ht
    cases h
    obtain ⟨text, rfl⟩ := transmit_ok ht
    exact ⟨text, List.filterMap_append⟩
  · cases h

/-- What callbacks do adds to the commands, as long as they do not close the link. -/
theorem adds_deliver (h : Hub τ) (m : InboundMessage) (ha : (h.deliver m).2.isActive = true) :
    h.outbox.link.Adds (h.deliver m).2.outbox.link := by
  have hperform : ∀ (a : HubAct τ) (b : Outbox τ),
      (b.link.active = true → h.outbox.link.Adds b.link) →
      (Outbox.perform a b).2.link.active = true →
      h.outbox.link.Adds (Outbox.perform a b).2.link := by
    intro a b hb hactive
    have hadds := hb ((Later.perform a b).active_of hactive)
    cases a with
    | close =>
      exact absurd ((Link.active_close b.link).symm.trans hactive) Bool.false_ne_true
    | send session r => exact hadds.trans (adds_send b session r)
    | own f => exact hadds
  revert ha
  rw [Hub.deliver]
  split
  rename_i taken replies _
  simp only
  split
  · exact fun _ => .refl _
  · split
    · rename_i e _
      exact Scene.surroundings_dispatch
        (fun b : Outbox τ => b.link.active = true → h.outbox.link.Adds b.link)
        (fun a b hb => hperform a b hb) (fun d => Empty.elim d) _ _ _ (fun _ => .refl _)
    · exact fun _ => .refl _

end Outbox

/-- A step of the inbound task takes an event, or lets callbacks add to the commands. -/
theorem Hub.Moves.adds {τ : Type} {h h' : Hub τ} {now : Nat} {n : List Notice}
    (hm : Hub.Moves now h n h') (ha : h'.isActive = true) :
    ∃ events, Link.Adds { h.outbox.link with events := events } h'.outbox.link := by
  cases hm with
  | @deliver m phase active => exact ⟨h.outbox.link.events, Outbox.adds_deliver h m ha⟩
  | @receive text rest phase events active => exact ⟨rest, .refl _⟩
  | @hear rest phase events active => exact ⟨rest, .refl _⟩
  | @suppress e rest phase events inactive => exact ⟨rest, .refl _⟩
  | _ => exact ⟨h.outbox.link.events, .refl _⟩

theorem InboundPhase.eq_receiving {p : InboundPhase} (h : p.rank = 3) : p = .receiving := by
  cases p with
  | receiving => rfl
  | _ => simp [InboundPhase.rank] at h

namespace Hub

variable {τ : Type} {h h' : Hub τ} {now : Nat} {n : List Notice}

/-- The inbound task waits for the link, with nothing to take. -/
def Waits (h : Hub τ) : Prop := h.phase = .receiving ∧ h.outbox.link.events = []

/-- Behind the close of the link the task takes events, and does nothing else to it. -/
theorem Moves.link_of_inactive (hm : Moves now h n h') (ha : h.isActive = false) :
    ∃ events, h'.outbox.link = { h.outbox.link with events := events } := by
  cases hm with
  | @receive text rest phase events active => exact ⟨rest, rfl⟩
  | @hear rest phase events active => exact ⟨rest, rfl⟩
  | @suppress e rest phase events inactive => exact ⟨rest, rfl⟩
  | deliver phase active => exact absurd (ha.symm.trans active) Bool.false_ne_true
  | _ => exact ⟨h.outbox.link.events, rfl⟩

/-- It does not begin to wait any more. -/
theorem Moves.not_waits_of_inactive (hm : Moves now h n h') (ha : h.isActive = false) :
    ¬ h'.Waits := by
  rintro ⟨hphase, -⟩
  cases hm with
  | await phase ready active => exact Bool.false_ne_true (ha.symm.trans active)
  | _ => cases hphase

/-- A task that waits goes on only when the pump has ended. -/
theorem Moves.stopped_of_waits (hm : Moves now h n h') (hw : h.Waits) :
    h.outbox.link.pumping = false := by
  obtain ⟨hphase, hevents⟩ := hw
  cases hm with
  | starve phase events stopped => exact stopped
  | receive phase events active => cases hevents.symm.trans events
  | hear phase events active => cases hevents.symm.trans events
  | suppress phase events inactive => cases hevents.symm.trans events
  | fetch phase ready => cases hphase.symm.trans phase
  | await phase ready active => cases hphase.symm.trans phase
  | resign phase ready inactive => cases hphase.symm.trans phase
  | decode phase due => cases hphase.symm.trans phase
  | drop phase => cases hphase.symm.trans phase
  | deliver phase active => cases hphase.symm.trans phase
  | discard phase inactive => cases hphase.symm.trans phase
  | shut phase => cases hphase.symm.trans phase
  | finish phase => cases hphase.symm.trans phase

end Hub

/-- The transport neither fails nor ends. -/
def Act.spares {τ : Type} : Act τ → Bool
  | .hostLeave => false
  | a => a.keepsOpen

namespace World

variable {τ : Type}

/-- The texts that the transport has been given, the oldest first. -/
def handed (w : World τ) : List String := w.toHost.items.filterMap Delivery.text?

/-- The texts of all requests that have been accepted, those first that the transport has been given. -/
def texts (w : World τ) : List String := w.hub.outbox.link.texts w.toHost

theorem handed_act (w : World τ) (a : Act τ) : (w.act a).handed = (w.perform a).handed := by
  rw [handed, toHost_act]
  rfl

theorem texts_act (w : World τ) (a : Act τ) : (w.act a).texts = (w.perform a).texts := by
  rw [texts, hub_act, toHost_act]
  rfl

/-! ## Acts, seen from the way out -/

/-- **What an act can come to** on a transport that neither fails nor ends. -/
inductive Outward (w w' : World τ) : Prop where
  /-- Callers act; they queue nothing behind a close. -/
  | call (adds : w.hub.outbox.link.Adds w'.hub.outbox.link)
      (still : w.hub.isActive = false → w'.hub.outbox.link = w.hub.outbox.link)
      (phase_eq : w'.hub.phase = w.hub.phase) (toHub_eq : w'.toHub = w.toHub)
      (toHost_eq : w'.toHost = w.toHost)
  /-- The link is closed. -/
  | close (link_eq : w'.hub.outbox.link = w.hub.outbox.link.close)
      (phase_eq : w'.hub.phase = w.hub.phase) (toHub_eq : w'.toHub = w.toHub)
      (toHost_eq : w'.toHost = w.toHost)
  /-- The inbound task takes a step. -/
  | inbound {n : List Notice} (moves : Hub.Moves w.now w.hub n w'.hub)
      (toHub_eq : w'.toHub = w.toHub) (toHost_eq : w'.toHost = w.toHost)
  /-- The pump takes a step. -/
  | pump {t : Turn} (pumping : w.hub.outbox.link.pumping = true)
      (pumps : w.hub.outbox.link.Pumps w.toHub w.toHost t w'.hub.outbox.link w'.toHub w'.toHost)
      (phase_eq : w'.hub.phase = w.hub.phase)
  /-- The host puts a frame in. -/
  | arrive {d : Delivery} (frame : d.isFrame = true) (hub_eq : w'.hub = w.hub)
      (toHub_eq : w'.toHub = (w.toHub.offer d).2) (toHost_eq : w'.toHost = w.toHost)

section Acts

variable {w w' : World τ}

/-- Nothing is to be seen from the way out. -/
theorem Outward.of_link (hlink : w'.hub.outbox.link = w.hub.outbox.link)
    (hphase : w'.hub.phase = w.hub.phase) (htoHub : w'.toHub = w.toHub)
    (htoHost : w'.toHost = w.toHost) : Outward w w' :=
  .call (by rw [hlink]; exact .refl _) (fun _ => hlink) hphase htoHub htoHost

theorem Outward.refl (w : World τ) : Outward w w := .of_link rfl rfl rfl rfl

/-- What is recorded is not seen from the way out. -/
theorem Outward.record (h : Outward w w') (l : List Happening) : Outward w (w'.record l) := by
  cases h with
  | call adds still phase_eq toHub_eq toHost_eq => exact .call adds still phase_eq toHub_eq toHost_eq
  | close link_eq phase_eq toHub_eq toHost_eq => exact .close link_eq phase_eq toHub_eq toHost_eq
  | inbound moves toHub_eq toHost_eq => exact .inbound moves toHub_eq toHost_eq
  | pump pumping pumps phase_eq => exact .pump pumping pumps phase_eq
  | arrive frame hub_eq toHub_eq toHost_eq => exact .arrive frame hub_eq toHub_eq toHost_eq

theorem outward_register (w : World τ) (id : RequestId) : Outward w (w.register id) := by
  have henlist : ∀ (b : Outbox τ) (kind : CallKind) (m : OutboundMessage) (now : Nat),
      (b.enlist kind m now).2.link = b.link := by
    intro b kind m now
    rw [Outbox.enlist]
    split <;> rfl
  rw [register]
  split
  · rename_i q _
    have hlink := henlist w.hub.outbox q.kind (q.message id) w.now
    split
    · rename_i c b hb
      rw [hb] at hlink
      exact .of_link hlink rfl rfl rfl
    · rename_i f b hb
      rw [hb] at hlink
      exact .of_link hlink rfl rfl rfl
  · exact .refl w

theorem outward_send (w : World τ) (id : RequestId) : Outward w (w.send id) := by
  rw [send]
  split
  · split
    · rename_i b hb
      refine .call (Outbox.adds_transmit hb) (fun ha => ?_) rfl rfl rfl
      rw [Outbox.transmit_of_inactive ha] at hb
      cases hb
    · exact .of_link rfl rfl rfl rfl
  · exact .refl w

theorem outward_conclude (w : World τ) (id : RequestId) : Outward w (w.conclude id) := by
  rw [conclude]
  split
  · split
    · exact .of_link rfl rfl rfl rfl
    · exact .refl w
  · exact .refl w

theorem outward_abandon (w : World τ) (id : RequestId) : Outward w (w.abandon id) := by
  rw [abandon]
  split
  · exact .of_link rfl rfl rfl rfl
  · exact .refl w

theorem outward_leave (w : World τ) (id : RequestId) : Outward w (w.leave id) := by
  rw [leave]
  split
  · exact .of_link rfl rfl rfl rfl
  · exact .refl w

theorem outward_inbound (w : World τ) : Outward w w.inbound := by
  rw [inbound]
  split
  · rename_i hs
    exact .inbound (Hub.moves_of_step? hs) rfl rfl
  · exact .refl w

theorem outward_pump (w : World τ) (t : Turn) : Outward w (w.pump t) := by
  rw [pump]
  split
  · rename_i l i o hpump
    obtain ⟨hpumping, hm⟩ := Link.pumps_of_pump hpump
    have hbase : Outward w
        { w.withOutbox { w.hub.outbox with link := l } with toHub := i, toHost := o } :=
      .pump hpumping hm rfl
    simp only
    split
    · exact hbase.record _
    · exact hbase
  · exact .refl w

theorem outward_perform {a : Act τ} (ha : a.spares = true) : Outward w (w.perform a) := by
  cases a with
  | register id => exact outward_register w id
  | send id => exact outward_send w id
  | conclude id => exact outward_conclude w id
  | abandon id => exact outward_abandon w id
  | leave id => exact outward_leave w id
  | tell session r =>
    refine .call (Outbox.adds_send w.hub.outbox session r) (fun hinactive => ?_) rfl rfl rfl
    show (w.hub.outbox.send session r).2.link = _
    rw [Outbox.send_of_inactive hinactive]
    rfl
  | closeLink => exact .close rfl rfl rfl rfl
  | closeReplies =>
    show Outward w (if w.hub.isActive then w else w.withOutbox w.hub.outbox.closeReplies)
    split
    · exact .refl w
    · exact .of_link rfl rfl rfl rfl
  | inbound => exact outward_inbound w
  | pump t => exact outward_pump w t
  | arrive d => exact .arrive ha rfl rfl rfl
  | hostFinish => cases ha
  | hostLeave => cases ha
  | _ => exact .of_link rfl rfl rfl rfl

/-- **Every act** on a transport that neither fails nor ends. -/
theorem outward_act {a : Act τ} (ha : a.spares = true) : Outward w (w.act a) := by
  rw [act]
  split
  · exact (outward_perform ha).record _
  · exact outward_perform ha

/-- The transport keeps what it has been given. -/
theorem Outward.handed_eq (h : Outward w w') : ∃ more, w'.handed = w.handed ++ more := by
  have hitems : ∃ more, w'.toHost.items = w.toHost.items ++ more := by
    cases h with
    | call adds still phase_eq toHub_eq toHost_eq => exact ⟨[], by rw [toHost_eq, List.append_nil]⟩
    | close link_eq phase_eq toHub_eq toHost_eq => exact ⟨[], by rw [toHost_eq, List.append_nil]⟩
    | inbound moves toHub_eq toHost_eq => exact ⟨[], by rw [toHost_eq, List.append_nil]⟩
    | pump pumping pumps phase_eq => exact pumps.items_eq
    | arrive frame hub_eq toHub_eq toHost_eq => exact ⟨[], by rw [toHost_eq, List.append_nil]⟩
  obtain ⟨more, hmore⟩ := hitems
  exact ⟨more.filterMap Delivery.text?, by rw [handed, hmore, List.filterMap_append]; rfl⟩

end Acts

/-! ## Before the close -/

/-- The pump of a hub has its callers and its transport, and nobody has closed the hub. -/
def Attended (w : World τ) : Prop := w.hub.outbox.link.Attended w.toHub w.toHost

section Attended

variable {w w' : World τ}

theorem attended_start (options : HubOptions) (own : τ) (latencies : List Nat) :
    (start options own latencies).Attended := ⟨rfl, rfl, ⟨[], rfl⟩, rfl, rfl⟩

/-- **An act that does not close the hub** loses no text. -/
theorem Attended.outward (h : w.Attended) (ho : Outward w w') (ha : w'.hub.isActive = true) :
    w'.Attended ∧ w.texts <+: w'.texts := by
  have hl : w.hub.outbox.link.Attended w.toHub w.toHost := h
  rw [Attended, texts, texts]
  cases ho with
  | call adds still phase_eq toHub_eq toHost_eq =>
    rw [toHub_eq, toHost_eq]
    exact hl.adds adds
  | close link_eq phase_eq toHub_eq toHost_eq =>
    refine absurd ?_ (Bool.eq_false_iff.mp (Link.active_close w.hub.outbox.link))
    rw [← link_eq]
    exact ha
  | inbound moves toHub_eq toHost_eq =>
    obtain ⟨events, hadds⟩ := moves.adds ha
    rw [toHub_eq, toHost_eq]
    exact hl.adds hadds
  | pump pumping pumps phase_eq =>
    obtain ⟨hl', htexts⟩ := hl.move pumps
    rw [htexts]
    exact ⟨hl', List.prefix_rfl⟩
  | @arrive d frame hub_eq toHub_eq toHost_eq =>
    rw [hub_eq, toHub_eq, toHost_eq]
    refine ⟨⟨hl.pumping, hl.held, hl.commands_eq, hl.reading, ?_⟩, List.prefix_rfl⟩
    rw [Pipe.accepts_offer, hl.accepts, frame]
    rfl

/-- **A run that does not close the hub** loses no text. -/
theorem Attended.run (h : w.Attended) (acts : List (Act τ)) (hspares : acts.all Act.spares = true)
    (ha : (w.run acts).hub.isActive = true) :
    (w.run acts).Attended ∧ w.texts <+: (w.run acts).texts := by
  induction acts generalizing w with
  | nil => exact ⟨h, List.prefix_rfl⟩
  | cons a acts ih =>
    rw [List.all_cons, Bool.and_eq_true_iff] at hspares
    obtain ⟨hact, hprefix⟩ := h.outward (outward_act hspares.1) (active_of_run acts ha)
    obtain ⟨hrun, hprefix'⟩ := ih hact hspares.2 ha
    exact ⟨hrun, hprefix.trans hprefix'⟩

/-- The text of a request that is accepted stands behind those of all requests accepted before. -/
theorem texts_tell {session : String} {r : Request} {id : RequestId} {b : Outbox τ}
    (h : w.hub.outbox.send session r = (.ok id, b)) :
    ∃ text, (w.act (.tell session r)).texts = w.texts ++ [text] := by
  obtain ⟨text, htext⟩ := Outbox.queued_send h
  refine ⟨text, ?_⟩
  rw [texts_act]
  show Link.texts (w.hub.outbox.send session r).2.link w.toHost = _
  rw [h, Link.texts, htext, ← List.append_assoc]
  rfl

end Attended

/-! ## Behind the close -/

/-- The link of a hub has been closed, with the texts `T` before the command to close. -/
def Draining (T : List String) (w : World τ) : Prop := w.hub.outbox.link.Draining T w.toHub w.toHost

section Draining

variable {w w' : World τ} {T : List String}

/-- **An act behind the close** neither adds a text nor loses one. -/
theorem Draining.outward (h : w.Draining T) (ho : Outward w w') : w'.Draining T := by
  have hl : w.hub.outbox.link.Draining T w.toHub w.toHost := h
  rw [Draining]
  cases ho with
  | call adds still phase_eq toHub_eq toHost_eq =>
    rw [still hl.inactive, toHub_eq, toHost_eq]
    exact hl
  | close link_eq phase_eq toHub_eq toHost_eq =>
    rw [link_eq, Link.close_of_inactive hl.inactive, toHub_eq, toHost_eq]
    exact hl
  | inbound moves toHub_eq toHost_eq =>
    obtain ⟨events, hlink⟩ := moves.link_of_inactive hl.inactive
    rw [hlink, toHub_eq, toHost_eq]
    exact ⟨hl.inactive, hl.held, hl.reading, hl.going, hl.stopped, hl.texts_eq⟩
  | pump pumping pumps phase_eq => exact hl.move pumping pumps
  | @arrive d frame hub_eq toHub_eq toHost_eq =>
    rw [hub_eq, toHub_eq, toHost_eq]
    refine ⟨hl.inactive, hl.held, hl.reading, fun hp => ?_, hl.stopped, hl.texts_eq⟩
    refine ⟨?_, (hl.going hp).2⟩
    rw [Pipe.accepts_offer, (hl.going hp).1, frame]
    rfl

/-- A task that waits for the pump goes on to do so until the pump has handed everything over. -/
theorem Draining.waits (h : w.Draining T) (hw : w.hub.Waits ∨ w.handed = T) (ho : Outward w w') :
    w'.hub.Waits ∨ w'.handed = T := by
  have hl : w.hub.outbox.link.Draining T w.toHub w.toHost := h
  rcases hw with ⟨hphase, hevents⟩ | hhanded
  · cases ho with
    | call adds still phase_eq toHub_eq toHost_eq =>
      exact .inl ⟨phase_eq.trans hphase, by rw [still hl.inactive]; exact hevents⟩
    | close link_eq phase_eq toHub_eq toHost_eq =>
      exact .inl ⟨phase_eq.trans hphase, by rw [link_eq, Link.events_close]; exact hevents⟩
    | inbound moves toHub_eq toHost_eq =>
      right
      rw [handed, toHost_eq]
      exact hl.handed_eq (moves.stopped_of_waits ⟨hphase, hevents⟩)
    | pump pumping pumps phase_eq =>
      exact .inl ⟨phase_eq.trans hphase, (pumps.events_of_inactive hl.inactive).trans hevents⟩
    | arrive frame hub_eq toHub_eq toHost_eq =>
      rw [hub_eq]
      exact .inl ⟨hphase, hevents⟩
  · right
    obtain ⟨more, hmore⟩ := ho.handed_eq
    have htexts : w'.handed ++ w'.hub.outbox.link.queued = T := (h.outward ho).texts_eq
    rw [hmore, hhanded, List.append_assoc] at htexts
    have hnil := List.append_cancel_left (htexts.trans (List.append_nil T).symm)
    rw [hmore, hhanded, (List.append_eq_nil_iff.mp hnil).1, List.append_nil]

theorem Draining.run (h : w.Draining T) (acts : List (Act τ)) (hspares : acts.all Act.spares = true) :
    (w.run acts).Draining T ∧
      (w.hub.Waits ∨ w.handed = T → (w.run acts).hub.Waits ∨ (w.run acts).handed = T) := by
  induction acts generalizing w with
  | nil => exact ⟨h, fun hw => hw⟩
  | cons a acts ih =>
    rw [List.all_cons, Bool.and_eq_true_iff] at hspares
    have ho : Outward w (w.act a) := outward_act hspares.1
    obtain ⟨hrun, hwaits⟩ := ih (h.outward ho) hspares.2
    exact ⟨hrun, fun hw => hwaits (h.waits hw ho)⟩

end Draining

/-! ## The end without the pump -/

section Ended

variable {w : World τ}

theorem hub_inbound {n : List Notice} {h : Hub τ} (hs : w.hub.step? w.now = some (n, h)) :
    (w.act .inbound).hub = h := by
  rw [hub_act]
  show w.inbound.hub = h
  rw [inbound, hs]
  rfl

theorem toHost_inbound (w : World τ) : (w.act .inbound).toHost = w.toHost := by
  rw [toHost_act]
  show w.inbound.toHost = w.toHost
  rw [inbound]
  split <;> rfl

/-- **A closed hub ends without the pump**, unless its inbound task waits for it. -/
theorem exists_ended (w : World τ) (ha : w.hub.isActive = false) (hw : ¬ w.hub.Waits) :
    ∃ acts : List (Act τ), acts.all Act.spares = true ∧ (w.run acts).hub.isClosed = true ∧
      (w.run acts).handed = w.handed := by
  by_cases hrest : ∀ later, w.hub.step? (w.now + later) = none
  · rcases Hub.waits_of_step? hrest with ⟨hphase, hevents, -⟩ | hphase
    · exact absurd ⟨hphase, hevents⟩ hw
    · refine ⟨[], rfl, ?_, rfl⟩
      show w.hub.isClosed = true
      rw [Hub.isClosed, hphase]
  · obtain ⟨later, hs⟩ := not_forall.mp hrest
    obtain ⟨⟨n, h⟩, hs⟩ := Option.ne_none_iff_exists'.mp hs
    have hlt := wait_decreases hs
    have hhub : ((w.act (.elapse later)).act .inbound).hub = h := by
      rw [act_elapse]
      exact hub_inbound (w := { w with now := w.now + later }) hs
    have hhanded : ((w.act (.elapse later)).act .inbound).handed = w.handed := by
      rw [handed, toHost_inbound, act_elapse]
      rfl
    have hm := Hub.moves_of_step? hs
    have ha' : ((w.act (.elapse later)).act .inbound).hub.isActive = false := by
      obtain ⟨events, hlink⟩ := hm.link_of_inactive ha
      rw [hhub, Hub.isActive, hlink]
      exact ha
    have hw' : ¬ ((w.act (.elapse later)).act .inbound).hub.Waits := by
      rw [hhub]
      exact hm.not_waits_of_inactive ha
    obtain ⟨acts, hspares, hclosed, heq⟩ := exists_ended _ ha' hw'
    exact ⟨.elapse later :: .inbound :: acts, hspares, hclosed, heq.trans hhanded⟩
termination_by w.distance
decreasing_by exact hlt

end Ended

/-! ## The result -/

/-- **The end tells that all is out**: whoever closes the hub and waits for its end has waited until the
transport has been given the texts of all requests that had been accepted, in their order. -/
def Flushes (w : World τ) : Prop :=
  ∀ meanwhile after : List (Act τ), meanwhile.all Act.spares = true → after.all Act.spares = true →
    ((((w.act .closeLink).run meanwhile).act .closeReplies).run after).hub.isClosed = true →
      ((((w.act .closeLink).run meanwhile).act .closeReplies).run after).handed = w.texts

section Result

variable {w : World τ}

theorem Attended.draining (h : w.Attended) (ha : w.hub.isActive = true) :
    (w.act .closeLink).Draining w.texts := by
  rw [Draining, hub_act, toHub_act, toHost_act]
  exact Link.Attended.close h ha

/-- Closing neither makes the inbound task wait nor keeps it from it, and hands nothing over. -/
theorem waits_closeLink (w : World τ) :
    ((w.act .closeLink).hub.Waits ↔ w.hub.Waits) ∧ (w.act .closeLink).handed = w.handed := by
  rw [hub_act, handed_act]
  refine ⟨?_, rfl⟩
  show (w.hub.phase = .receiving ∧ w.hub.outbox.link.close.events = []) ↔ _
  rw [Link.events_close]
  exact Iff.rfl

theorem waits_closeReplies (w : World τ) :
    ((w.act .closeReplies).hub.Waits ↔ w.hub.Waits) ∧ (w.act .closeReplies).handed = w.handed := by
  rw [hub_act, handed_act, perform]
  split
  · exact ⟨Iff.rfl, rfl⟩
  · exact ⟨Iff.rfl, rfl⟩

/-- **When the end tells that all is out.** -/
theorem Attended.flushes_iff (h : w.Attended) (ha : w.hub.isActive = true) :
    w.Flushes ↔ w.hub.Waits ∨ w.handed = w.texts := by
  have hdraining := h.draining ha
  obtain ⟨hwaits, hhanded⟩ := waits_closeLink w
  constructor
  · intro hflushes
    by_contra hneither
    -- the inbound task goes on alone, and the pump takes no step
    obtain ⟨hwaits', hhanded'⟩ := waits_closeReplies (w.act .closeLink)
    obtain ⟨hdraining', -⟩ := hdraining.run [.closeReplies] rfl
    obtain ⟨acts, hspares, hclosed, heq⟩ := exists_ended ((w.act .closeLink).act .closeReplies)
      hdraining'.inactive fun hw => hneither (.inl (hwaits.mp (hwaits'.mp hw)))
    refine hneither (.inr ?_)
    exact ((heq.trans hhanded').trans hhanded).symm.trans (hflushes [] acts rfl hspares hclosed)
  · intro heither meanwhile after hspares hspares' hclosed
    have hrun : (((w.act .closeLink).run meanwhile).act .closeReplies).run after
        = (w.act .closeLink).run (meanwhile ++ .closeReplies :: after) :=
      (run_append (w.act .closeLink) meanwhile (.closeReplies :: after)).symm
    rw [hrun] at hclosed ⊢
    obtain ⟨-, hend⟩ := hdraining.run (meanwhile ++ .closeReplies :: after) (by
      rw [List.all_append, hspares, List.all_cons, hspares']
      rfl)
    refine (hend (heither.imp hwaits.mpr hhanded.trans)).resolve_left fun ⟨hphase, _⟩ => ?_
    rw [Hub.isClosed, hphase] at hclosed
    cases hclosed

end Result

/-- **What becomes of the requests** of a run behind which the hub is closed. -/
structure Shutdown (w : World τ) (acts : List (Act τ)) : Prop where
  /-- A request that is accepted has its text behind those of all requests accepted before. -/
  accepted : ∀ before after session r id b, acts = before ++ .tell session r :: after →
    (w.run before).hub.outbox.send session r = (.ok id, b) →
      ∃ text, (w.run before).texts ++ [text] <+: (w.run acts).texts
  /-- When the pump has ended behind the close, the transport has been given all of them. -/
  handed_eq : ∀ more : List (Act τ), more.all Act.spares = true →
    (((w.run acts).act .closeLink).run more).hub.outbox.link.pumping = false →
      (((w.run acts).act .closeLink).run more).handed = (w.run acts).texts
  /-- The end of the hub tells that this is so exactly if the inbound task waited for the pump when the
  link was closed, or nothing was queued. -/
  flushes_iff : (w.run acts).Flushes ↔
    (w.run acts).hub.Waits ∨ (w.run acts).handed = (w.run acts).texts

/-- **In every run** on a transport that neither fails nor ends, no request is lost behind a close, and
the end of the hub comes behind the last of them exactly if the inbound task was waiting.

That a waiting inbound task is woken by nothing but the end of the pump rests on a step of the pump being
one step: it looks at the flag and queues what has arrived (`Link.arrive`, `Link.announce`) without
waiting in between. Were it interrupted there by a close, what it queues would wake the inbound task,
which then finds the link closed and ends before the queued texts are out. -/
theorem shutdown_run (options : HubOptions) (own : τ) (latencies : List Nat) (acts : List (Act τ))
    (hspares : acts.all Act.spares = true)
    (hactive : ((start options own latencies).run acts).hub.isActive = true) :
    (start options own latencies).Shutdown acts := by
  have hattended := attended_start options own latencies
  obtain ⟨h, -⟩ := hattended.run acts hspares hactive
  refine ⟨?_, fun more hmore hstopped => ?_, h.flushes_iff hactive⟩
  · rintro before after session r id b rfl hsend
    rw [List.all_append, List.all_cons, Bool.and_eq_true_iff, Bool.and_eq_true_iff] at hspares
    rw [run_append] at hactive ⊢
    obtain ⟨hbefore, -⟩ := hattended.run before hspares.1 (active_of_run _ hactive)
    obtain ⟨text, htext⟩ := texts_tell hsend
    have hmid := active_of_run after hactive
    obtain ⟨hact, -⟩ := hbefore.outward (outward_act hspares.2.1) hmid
    refine ⟨text, ?_⟩
    rw [← htext]
    exact (hact.run after hspares.2.2 hactive).2
  · exact ((h.draining hactive).run more hmore).1.handed_eq hstopped

/-- The inbound task waits, and a text is out when the hub has ended. -/
theorem shutdown_run_waiting :
    let acts : List (Act Unit) := [.inbound, .tell "s" (.insertText { insertion := some "x" })]
    (acts.all Act.spares = true ∧ ((start {} () []).run acts).hub.isActive = true) ∧
      ((start {} () []).run acts).Flushes := by
  intro acts
  have hacts : (acts.all Act.spares = true ∧ ((start {} () []).run acts).hub.isActive = true) ∧
      ((start {} () []).run acts).hub.phase.rank = 3 ∧
      ((start {} () []).run acts).hub.outbox.link.events = [] := by
    decide +kernel +revert
  have hwaits : ((start {} () []).run acts).hub.Waits :=
    ⟨InboundPhase.eq_receiving hacts.2.1, hacts.2.2⟩
  exact ⟨hacts.1, (shutdown_run {} () [] acts hacts.1.1 hacts.1.2).flushes_iff.mpr (.inl hwaits)⟩

/-- The inbound task has not begun to wait, and the hub ends while the text is still queued. -/
theorem not_flushes_insertText :
    let w : World Unit := (start {} () []).run [.tell "s" (.insertText { insertion := some "x" })]
    w.hub.isActive = true ∧ w.texts.length = 1 ∧ ¬ w.Flushes := by
  intro w
  have hw : w.hub.isActive = true ∧ w.texts.length = 1 ∧
      ((((w.act .closeLink).act .closeReplies).run [.inbound, .inbound, .inbound]).hub.isClosed = true ∧
        (((w.act .closeLink).act .closeReplies).run [.inbound, .inbound, .inbound]).handed ≠ w.texts) := by
    decide +kernel +revert
  exact ⟨hw.1, hw.2.1, fun h => hw.2.2.2 (h [] [.inbound, .inbound, .inbound] rfl rfl hw.2.2.1)⟩

end World

end SessionMux
