import SessionMux.Proofs.Hub.Acts
import SessionMux.Proofs.Wire.Intake

/-!
# From the pipe to the dispatcher

What the host puts in passes through a chain of queues: the pipe, the events of the link, the intake
with its buffer, the envelopes that are ready, and the one that the inbound task has in hand. Two
invariants say that nothing leaks between them, as long as the hub is not closed from its own side
and the transport takes what is sent.

* `Lines.messages` — what a stream tells a hub.
* `Hub.Conveys` — the task has delivered what has been read, but for what it has in hand or ready.
* `Link.Steady` — the end is announced behind everything else, and by a pump that has ended.
* `Pipe.bytes`, `Pipe.accepts` — what a pipe still brings, and whether more will be read.
* **`Conveys.move`** — a move of the task takes a text from the link, and keeps the first.
* **`Steady.move`** — a move of the pump takes a text from the pipe, and keeps the second.
-/

namespace SessionMux

/-! ## What a stream tells -/

/-- The message that an envelope holds, if it holds one. -/
def Envelope.message? (e : Envelope) : Option InboundMessage := (e.unpack InboundMessage).toOption

/-- **The messages that a stream tells**: those of the envelopes on its complete lines within the
limit, in order. -/
def Lines.messages (s : List UInt8) : List InboundMessage :=
  (envelopes defaultLineLimit s).filterMap Envelope.message?

theorem Lines.messages_append (s t : List UInt8) :
    messages (s ++ t) = messages s ++
      (envelopes defaultLineLimit (unfinished s ++ t)).filterMap Envelope.message? := by
  rw [messages, envelopes_append, List.filterMap_append]
  rfl

/-- The bytes of the text that a delivery brings. -/
def Delivery.bytes : Delivery → List UInt8
  | .frame f => Octets.toList f.toText.toUTF8
  | .failure _ => []

/-- It is a frame. -/
def Delivery.isFrame : Delivery → Bool
  | .frame _ => true
  | .failure _ => false

/-- The bytes of the text that an event brings. -/
def LinkEvent.bytes : LinkEvent → List UInt8
  | .message text => Octets.toList text.toUTF8
  | .closed => []

/-- The message of the envelope that the inbound task has in hand. -/
def InboundPhase.message? : InboundPhase → Option InboundMessage
  | .decoding e _ => e.message?
  | .holding r => r.toOption
  | _ => none

/-! ## The inbound task -/

namespace Hub

variable {τ : Type}

/-- Of the bytes `read` the task has delivered the messages `told`, and nothing is missing. -/
structure Conveys (h : Hub τ) (read : List UInt8) (told : List InboundMessage) : Prop where
  holds : h.inlet.intake.Holds defaultLineLimit .skip read
  told_eq : told ++ h.phase.message?.toList ++ h.inlet.ready.filterMap Envelope.message?
    = Lines.messages read
  /-- Whoever waits for the link, or has given up waiting, has no envelope left. -/
  ready_eq : h.phase.rank ≤ 3 → h.inlet.ready = []
  /-- It gives up only when everything has come through. -/
  spent : h.phase.rank ≤ 2 → h.outbox.link.events = [] ∧ h.outbox.link.pumping = false
  closed_iff : h.outbox.replies.closed = true ↔ h.phase.rank ≤ 1

end Hub

/-- Nobody closes the link from this side, and its end is announced once, behind everything else. -/
structure Link.Steady (l : Link) : Prop where
  held : l.held = true
  no_close : .close ∉ l.commands
  open_of_pumping : l.pumping = true → .closed ∉ l.events
  closed_last : .closed ∉ l.events.dropLast

theorem Link.Steady.endsOnce {l : Link} (hl : l.Steady) : l.EndsOnce :=
  ⟨hl.open_of_pumping, hl.closed_last⟩

theorem Link.EndsOnce.steady {l : Link} (h : l.EndsOnce) (held : l.held = true)
    (no_close : .close ∉ l.commands) : l.Steady :=
  ⟨held, no_close, h.open_of_pumping, h.closed_last⟩

/-- Behind an event that has been taken the rest of them is as before. -/
theorem Link.Steady.take {l : Link} {e : LinkEvent} {rest : List LinkEvent} (hl : l.Steady)
    (he : l.events = e :: rest) : { l with events := rest }.Steady :=
  (hl.endsOnce.take he).steady hl.held hl.no_close

namespace Hub

variable {τ : Type} {h h' : Hub τ} {read : List UInt8} {told : List InboundMessage}

/-- The place where the task is, what it has, and whether the table is closed, are all that counts as
long as it has not given up. -/
theorem Conveys.of_eq (hc : h.Conveys read told) (hphase : h'.phase = h.phase)
    (hinlet : h'.inlet = h.inlet)
    (hclosed : h'.outbox.replies.closed = h.outbox.replies.closed)
    (hspent : h.phase.rank ≤ 2 → h'.outbox.link.events = [] ∧ h'.outbox.link.pumping = false) :
    h'.Conveys read told := by
  constructor
  · rw [hinlet]
    exact hc.holds
  · rw [hphase, hinlet]
    exact hc.told_eq
  · rw [hphase, hinlet]
    exact hc.ready_eq
  · rw [hphase]
    exact hspent
  · rw [hphase, hclosed]
    exact hc.closed_iff

/-- A move before the task gives up: what is ready or in hand goes on by one place. -/
theorem Conveys.pass (hc : h.Conveys read told) {told' : List InboundMessage}
    (hrank : 3 ≤ h.phase.rank) (hrank' : 3 ≤ h'.phase.rank)
    (hintake : h'.inlet.intake = h.inlet.intake)
    (hclosed : h'.outbox.replies.closed = h.outbox.replies.closed)
    (htold : told' ++ h'.phase.message?.toList ++ h'.inlet.ready.filterMap Envelope.message?
      = told ++ h.phase.message?.toList ++ h.inlet.ready.filterMap Envelope.message?)
    (hready : h'.phase.rank ≤ 3 → h'.inlet.ready = []) : h'.Conveys read told' where
  holds := by
    rw [hintake]
    exact hc.holds
  told_eq := htold.trans hc.told_eq
  ready_eq := hready
  spent hr := by omega
  closed_iff := by
    rw [hclosed, hc.closed_iff]
    omega

/-- A move after which the task has given up. -/
theorem Conveys.leave (hc : h.Conveys read told) (hrank : h.phase.rank ≤ 3)
    (hinlet : h'.inlet = h.inlet)
    (hmessage : h.phase.message? = none) (hmessage' : h'.phase.message? = none)
    (hclosed : h'.outbox.replies.closed = true ↔ h'.phase.rank ≤ 1)
    (hspent : h'.outbox.link.events = [] ∧ h'.outbox.link.pumping = false) :
    h'.Conveys read told where
  holds := by
    rw [hinlet]
    exact hc.holds
  told_eq := by
    rw [hinlet, hmessage', ← hmessage]
    exact hc.told_eq
  ready_eq _ := by
    rw [hinlet]
    exact hc.ready_eq hrank
  spent _ := hspent
  closed_iff := hclosed

/-- The first envelope that is ready is taken in hand. -/
theorem Conveys.fetch (hc : h.Conveys read told) {e : Envelope} {rest : List Envelope}
    (phase : h.phase = .fetching) (ready : h.inlet.ready = e :: rest) (due : Nat)
    (latencies : List Nat) :
    Conveys { h with
      inlet := { h.inlet with ready := rest }
      phase := .decoding e due
      latencies := latencies } read told := by
  refine hc.pass (by rw [phase]; decide) (show 3 ≤ 6 by decide) rfl rfl ?_
    fun hr => absurd hr (show ¬ 6 ≤ 3 by decide)
  rw [phase, ready, List.filterMap_cons]
  show told ++ e.message?.toList ++ _ = told ++ [] ++ _
  cases e.message? with
  | none => rfl
  | some m =>
    rw [List.append_nil, List.append_assoc]
    rfl

/-- A message in hand is delivered. -/
theorem Conveys.deliver (hc : h.Conveys read told) {m : InboundMessage}
    (phase : h.phase = .holding (.ok m)) (ha : (h.deliver m).2.isActive = true) :
    Conveys { (h.deliver m).2 with phase := .fetching } read (told ++ [m]) := by
  have hrank : 3 ≤ h.phase.rank := by simp [phase, InboundPhase.rank]
  have hclosed := (Outbox.Still.deliver h m).closed_eq ha
  refine hc.pass hrank (show 3 ≤ 4 by decide) ?_ hclosed ?_
    fun hr => absurd hr (show ¬ 4 ≤ 3 by decide)
  · show (h.deliver m).2.inlet.intake = _
    rw [inlet_deliver]
  · show told ++ [m] ++ [] ++ List.filterMap _ (h.deliver m).2.inlet.ready = _
    rw [inlet_deliver, phase, List.append_nil]
    rfl

/-- A text that comes in is read as a whole. -/
theorem Conveys.receive (hc : h.Conveys read told) (phase : h.phase = .receiving)
    {rest : List LinkEvent} (text : String) :
    Conveys { h with
      outbox := { h.outbox with link := { h.outbox.link with events := rest } }
      inlet := h.inlet.feed text
      phase := .fetching } (read ++ Octets.toList text.toUTF8) told := by
  obtain ⟨intake, hholds, hfeed⟩ := Intake.feed_holds hc.holds text.toUTF8 (Lines.flows_skip _ _)
  have hinlet : h.inlet.feed text = ⟨intake, h.inlet.ready ++
      Lines.envelopes defaultLineLimit (Lines.unfinished read ++ Octets.toList text.toUTF8)⟩ := by
    simp only [Inlet.feed, hfeed]
  have htold := hc.told_eq
  rw [phase] at htold
  have hnot : ¬ h.outbox.replies.closed = true := by
    rw [hc.closed_iff, phase]
    decide
  have hrank : ∀ n, n ≤ 3 → ¬ InboundPhase.fetching.rank ≤ n := fun n hn =>
    Nat.not_le_of_lt (Nat.lt_succ_of_le hn)
  rw [hinlet]
  refine ⟨hholds, ?_, fun hr => absurd hr (hrank 3 (by decide)),
    fun hr => absurd hr (hrank 2 (by decide)), iff_of_false hnot (hrank 1 (by decide))⟩
  show told ++ [] ++ List.filterMap _ (_ ++ _) = _
  rw [Lines.messages_append, ← htold, List.filterMap_append, List.append_assoc (told ++ _)]
  rfl

/-- **A move of the task** takes a text from the link or none, and delivers what comes next. -/
theorem Conveys.move {now : Nat} {n : List Notice} (hc : h.Conveys read told)
    (hl : h.outbox.link.Steady) (hm : Moves now h n h') (ha : h'.isActive = true) :
    ∃ text, h'.Conveys (read ++ text) (told ++ delivered (n.filterMap Notice.happening?)) ∧
      h.outbox.link.events.flatMap LinkEvent.bytes
        = text ++ h'.outbox.link.events.flatMap LinkEvent.bytes := by
  have hstay : h'.Conveys read (told ++ delivered (n.filterMap Notice.happening?)) →
      h'.outbox.link.events.flatMap LinkEvent.bytes
        = h.outbox.link.events.flatMap LinkEvent.bytes →
      ∃ text, h'.Conveys (read ++ text) (told ++ delivered (n.filterMap Notice.happening?)) ∧
        h.outbox.link.events.flatMap LinkEvent.bytes
          = text ++ h'.outbox.link.events.flatMap LinkEvent.bytes := by
    intro hconv hevents
    refine ⟨[], ?_, hevents.symm⟩
    rw [List.append_nil]
    exact hconv
  have hnone : told ++ delivered (([] : List Notice).filterMap Notice.happening?) = told :=
    List.append_nil told
  cases hm with
  | fetch phase ready =>
    refine hstay ?_ rfl
    rw [hnone]
    exact hc.fetch phase ready _ _
  | await phase ready active =>
    refine hstay (hc.pass (by simp [phase, InboundPhase.rank]) (show 3 ≤ 3 by decide) rfl rfl ?_
      fun _ => ready) rfl
    rw [hnone, phase]
    rfl
  | resign phase ready inactive => exact absurd (inactive.symm.trans ha) Bool.false_ne_true
  | @receive text rest phase events active =>
    refine ⟨Octets.toList text.toUTF8, ?_, ?_⟩
    · rw [hnone]
      exact hc.receive phase text
    · rw [events]
      rfl
  | hear phase events active =>
    obtain ⟨rfl, hstopped⟩ := hl.endsOnce.end events
    have hclosed : h.outbox.replies.closed = true ↔ 2 ≤ 1 := by
      rw [hc.closed_iff, phase]
      decide
    refine hstay ?_ (by rw [events]; rfl)
    rw [hnone]
    exact hc.leave (by simp [phase, InboundPhase.rank]) rfl (by rw [phase]; rfl) rfl hclosed ⟨rfl, hstopped⟩
  | suppress phase events inactive => exact absurd (inactive.symm.trans ha) Bool.false_ne_true
  | starve phase events stopped =>
    have hclosed : h.outbox.replies.closed = true ↔ 2 ≤ 1 := by
      rw [hc.closed_iff, phase]
      decide
    refine hstay ?_ rfl
    rw [hnone]
    exact hc.leave (by simp [phase, InboundPhase.rank]) rfl (by rw [phase]; rfl) rfl hclosed ⟨events, stopped⟩
  | @decode e ready phase due =>
    refine hstay (hc.pass (by simp [phase, InboundPhase.rank]) (show 3 ≤ 5 by decide) rfl rfl ?_
      fun hr => absurd hr (show ¬ 5 ≤ 3 by decide)) rfl
    rw [show delivered _ = [] from rfl, List.append_nil, phase]
    rfl
  | drop phase =>
    refine hstay (hc.pass (by simp [phase, InboundPhase.rank]) (show 3 ≤ 4 by decide) rfl rfl ?_
      fun hr => absurd hr (show ¬ 4 ≤ 3 by decide)) rfl
    rw [hnone, phase]
    rfl
  | @deliver m phase active =>
    refine hstay (hc.deliver phase ha) ?_
    show (h.deliver m).2.outbox.link.events.flatMap _ = _
    rw [events_deliver]
  | discard phase inactive => exact absurd (inactive.symm.trans ha) Bool.false_ne_true
  | shut phase =>
    refine hstay ?_ rfl
    rw [hnone]
    exact hc.leave (by simp [phase, InboundPhase.rank]) rfl (by rw [phase]; rfl) rfl
      (iff_of_true rfl (show 1 ≤ 1 by decide)) (hc.spent (by simp [phase, InboundPhase.rank]))
  | finish phase =>
    refine hstay ?_ rfl
    rw [hnone]
    exact hc.leave (by simp [phase, InboundPhase.rank]) rfl (by rw [phase]; rfl) rfl
      (iff_of_true (hc.closed_iff.mpr (by simp [phase, InboundPhase.rank])) (show 0 ≤ 1 by decide))
      (hc.spent (by simp [phase, InboundPhase.rank]))

/-- A task that has failed the calls only goes on to its end. -/
theorem Moves.of_rank_le {now : Nat} {n : List Notice} (hm : Moves now h n h')
    (hr : h.phase.rank ≤ 1) : n = [] ∧ h'.phase.rank ≤ 1 := by
  cases hm with
  | finish phase => exact ⟨rfl, show 0 ≤ 1 by decide⟩
  | _ => simp_all [InboundPhase.rank]

/-- A task that has nothing to do, however late it gets, waits for the pump or has ended. -/
theorem waits_of_step? {now : Nat} (hs : ∀ later, h.step? (now + later) = none) :
    (h.phase = .receiving ∧ h.outbox.link.events = [] ∧ h.outbox.link.pumping = true) ∨
      h.phase = .ended := by
  cases hp : h.phase with
  | fetching =>
    have h₀ := hs 0
    rw [step?, hp] at h₀
    cases hr : h.inlet.ready <;> simp [hr] at h₀
  | receiving =>
    have h₀ := hs 0
    simp only [step?, hp] at h₀
    cases he : h.outbox.link.events with
    | nil =>
      cases hpump : h.outbox.link.pumping with
      | true => exact .inl ⟨rfl, rfl, rfl⟩
      | false => simp [Link.resume, he, hpump] at h₀
    | cons e rest =>
      rw [resume_cons he] at h₀
      cases e <;> cases ha : h.outbox.link.active <;> simp [ha] at h₀
  | decoding e ready =>
    have h₀ := hs ready
    rw [step?, hp] at h₀
    simp [Nat.le_add_left ready now] at h₀
  | holding r =>
    have h₀ := hs 0
    rw [step?, hp] at h₀
    cases r with
    | error f => simp at h₀
    | ok m => cases ha : h.isActive <;> simp [ha] at h₀
  | leaving => simp [step?, hp] at hs
  | closing => simp [step?, hp] at hs
  | ended => exact .inr rfl

end Hub

theorem InboundPhase.message?_of_rank_le {p : InboundPhase} (hr : p.rank ≤ 3) :
    p.message? = none := by
  cases p with
  | decoding e ready => exact absurd hr (show ¬ 6 ≤ 3 by decide)
  | holding r => exact absurd hr (show ¬ 5 ≤ 3 by decide)
  | _ => rfl

/-- What callers and callbacks do to a link keeps it steady, as long as they do not close it. -/
theorem Link.Steady.of_still {τ : Type} {b b' : Outbox τ} (hl : b.link.Steady) (h : b.Still b')
    (ha : b'.link.active = true) : b'.link.Steady := by
  obtain ⟨t, -, hlater⟩ := h
  refine ⟨hlater.held_eq.trans hl.held, ?_, ?_, ?_⟩
  · exact fun hc => hl.no_close (hlater.commands_of ha hc)
  · intro hp
    rw [hlater.events_eq]
    exact hl.open_of_pumping (hlater.pumping_eq.symm.trans hp)
  · rw [hlater.events_eq]
    exact hl.closed_last

theorem Hub.Moves.pumping_eq {τ : Type} {h h' : Hub τ} {now : Nat} {n : List Notice}
    (hm : Hub.Moves now h n h') : h'.outbox.link.pumping = h.outbox.link.pumping := by
  cases hm with
  | @deliver m phase active => exact (Outbox.Still.deliver h m).pumping_eq
  | _ => rfl

/-- A move of the task takes an event, or does what callers and callbacks do. -/
theorem Link.Steady.of_moves {τ : Type} {h h' : Hub τ} {now : Nat} {n : List Notice}
    (hl : h.outbox.link.Steady) (hm : Hub.Moves now h n h') (ha : h'.isActive = true) :
    h'.outbox.link.Steady := by
  cases hm with
  | receive phase events active => exact hl.take events
  | hear phase events active => exact hl.take events
  | suppress phase events inactive => exact hl.take events
  | @deliver m phase active => exact hl.of_still (.deliver h m) ha
  | _ => exact hl

/-! ## The pump -/

namespace Pipe

/-- The bytes of the texts in a pipe ahead of a failure. -/
def bytes (p : Pipe) : List UInt8 :=
  (p.items.takeWhile Delivery.isFrame).flatMap Delivery.bytes

/-- What is put in will be read: there is a reader, and the writer has neither finished nor failed. -/
def accepts (p : Pipe) : Bool := p.isOpen && p.items.all Delivery.isFrame

theorem accepts_put (p : Pipe) (d : Delivery) : (p.put d).accepts = (p.accepts && d.isFrame) := by
  show (p.isOpen && (p.items ++ [d]).all _) = _
  rw [List.all_append, List.all_cons, List.all_nil, Bool.and_true, ← Bool.and_assoc]
  rfl

theorem accepts_finish (p : Pipe) : p.finish.accepts = false := rfl

theorem accepts_abandon (p : Pipe) : p.abandon.accepts = false := by
  show (p.writing && false && _) = false
  rw [Bool.and_false, Bool.false_and]

/-- The bytes of what is put in stand behind those of everything else, unless a failure stands
before them. -/
theorem bytes_put (p : Pipe) (d : Delivery) :
    (p.put d).bytes = p.bytes ++ if p.items.all Delivery.isFrame then d.bytes else [] := by
  show List.flatMap _ ((p.items ++ [d]).takeWhile _) = _
  rw [bytes]
  induction p.items with
  | nil =>
    cases d with
    | frame f => exact List.append_nil _
    | failure reason => rfl
  | cons d' items ih =>
    cases d' with
    | failure reason => rfl
    | frame f =>
      have hcons : ∀ l, (Delivery.frame f :: l).takeWhile Delivery.isFrame
          = .frame f :: l.takeWhile Delivery.isFrame := fun l => rfl
      rw [List.cons_append, hcons, hcons, List.flatMap_cons, List.flatMap_cons, ih,
        List.append_assoc]
      rfl

/-- What is offered to a pipe that does not accept it is as good as lost. -/
theorem bytes_offer (p : Pipe) (d : Delivery) :
    (p.offer d).2.bytes = p.bytes ++ if p.accepts then d.bytes else [] := by
  rw [offer, accepts]
  split
  · rename_i hopen
    rw [hopen, Bool.true_and]
    exact bytes_put p d
  · rename_i hshut
    rw [Bool.eq_false_iff.mpr hshut]
    exact (List.append_nil _).symm

theorem accepts_offer (p : Pipe) (d : Delivery) :
    (p.offer d).2.accepts = (p.accepts && d.isFrame) := by
  rw [offer]
  split
  · exact accepts_put p d
  · rename_i hshut
    rw [accepts, Bool.eq_false_iff.mpr hshut]
    rfl

/-- A pipe that its reader has left takes nothing. -/
theorem offer_of_left {p : Pipe} (h : p.reading = false) (d : Delivery) :
    (p.offer d).2 = p := by
  rw [offer, isOpen, h, Bool.and_false]
  rfl

theorem reading_offer (p : Pipe) (d : Delivery) : (p.offer d).2.reading = p.reading := by
  rw [offer]
  split <;> rfl

end Pipe

namespace Link

variable {l l' : Link} {i i' o o' : Pipe} {t : Turn}

/-- A pump that ends with an announcement has put it behind everything else. -/
theorem Steady.announce (hl : l.Steady) (hp : l.pumping = true) (ha : l.active = true) :
    l.announce.stop.Steady ∧
      l.announce.stop.events.flatMap LinkEvent.bytes = l.events.flatMap LinkEvent.bytes := by
  refine ⟨(hl.endsOnce.announce hp).steady ?_ List.not_mem_nil, ?_⟩
  · rw [Link.announce, if_pos ha]
    exact hl.held
  · rw [Link.announce, if_pos ha]
    show (l.events ++ [LinkEvent.closed]).flatMap _ = _
    rw [List.flatMap_append]
    exact List.append_nil _

/-- A text that comes in goes behind the events. -/
theorem Steady.arrive (hl : l.Steady) (hp : l.pumping = true) (ha : l.active = true)
    (text : String) : (l.arrive text).Steady ∧
      (l.arrive text).events.flatMap LinkEvent.bytes
        = l.events.flatMap LinkEvent.bytes ++ Octets.toList text.toUTF8 := by
  have hends := hl.endsOnce.arrive hp text
  rw [Link.arrive, if_pos ha] at hends ⊢
  refine ⟨hends.steady hl.held hl.no_close, ?_⟩
  rw [List.flatMap_append, List.flatMap_singleton]
  rfl

/-- **A move of the pump** puts a text from the pipe behind the events, or announces the end when
the pipe has nothing more to bring. -/
theorem Steady.move (hl : l.Steady) (hp : l.pumping = true) (ha : l.active = true)
    (hm : l.Pumps i o t l' i' o') (hok : ¬ (t = .outgoing ∧ l.isRefused o = true)) :
    l'.Steady ∧
      l.events.flatMap LinkEvent.bytes ++ i.bytes = l'.events.flatMap LinkEvent.bytes ++ i'.bytes ∧
      i'.accepts = i.accepts := by
  have hgone : i.abandon.bytes = [] := rfl
  cases hm with
  | send commands reading =>
    have hclose : .close ∉ l.commands := hl.no_close
    rw [commands] at hclose
    exact ⟨⟨hl.held, fun hc => hclose (List.mem_cons_of_mem _ hc), hl.open_of_pumping,
      hl.closed_last⟩, rfl, rfl⟩
  | refuse commands reading =>
    refine absurd ⟨rfl, ?_⟩ hok
    simp only [isRefused, commands, reading]
    rfl
  | close commands =>
    refine absurd ?_ hl.no_close
    rw [commands]
    exact List.mem_cons_self
  | release commands held => exact absurd (held.symm.trans hl.held) Bool.false_ne_true
  | @arrive f rest items =>
    obtain ⟨hsteady, hbytes⟩ := hl.arrive hp ha f.toText
    refine ⟨hsteady, ?_, ?_⟩
    · rw [hbytes, Pipe.bytes, items, List.append_assoc]
      rfl
    · rw [Pipe.accepts, Pipe.accepts, items]
      rfl
  | fail items =>
    obtain ⟨hsteady, hbytes⟩ := hl.announce hp ha
    refine ⟨hsteady, ?_, ?_⟩
    · rw [hbytes, hgone, Pipe.bytes, items]
      rfl
    · rw [Pipe.accepts_abandon, Pipe.accepts, items]
      exact (Bool.and_false _).symm
  | finish items writing =>
    obtain ⟨hsteady, hbytes⟩ := hl.announce hp ha
    refine ⟨hsteady, ?_, ?_⟩
    · rw [hbytes, hgone, Pipe.bytes, items]
      rfl
    · rw [Pipe.accepts_abandon, Pipe.accepts, Pipe.isOpen, writing]
      rfl

end Link

end SessionMux
