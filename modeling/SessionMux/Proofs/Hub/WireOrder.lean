import Mathlib.Data.List.Induction
import SessionMux.Proofs.Hub.Inflow

/-!
# Messages are delivered in the order of the wire

Under the policy `skip`, a hub that is not closed from its own side, on a transport that takes what
it sends, delivers the messages that the host's bytes tell, each once and in their order. However the
bytes are cut into deliveries, however long an envelope takes to decode, and whatever callers and
callbacks do meanwhile: at every moment a first part of them has been delivered, and all of them when
nothing moves any more. The calls that wait are failed, and the task ends, behind all of them.

* `World.hostText` — what the host puts in during a run.
* `Flowing` — the invariant over all queues at once.
* `Flowing.effect`, `flowing_run` — an act keeps it, and so does a run.
* **`exists_rest`** — task, pump and clock come to rest.
* **`inWireOrder_run`** — so every run delivers in the order of the wire.
-/

namespace SessionMux

/-! ## Behind the closing of the table -/

/-- Nothing is delivered behind the closing of the table of replies. -/
def Settled (history : List Happening) : Prop :=
  ∀ before after, history = before ++ .closed :: after → delivered after = []

theorem settled_of_notMem {l : List Happening} (h : .closed ∉ l) : Settled l := by
  intro before after hs
  refine absurd ?_ h
  rw [hs]
  exact List.mem_append_right _ List.mem_cons_self

theorem settled_closed : Settled [.closed] := by
  intro before after hs
  have hlen := congrArg List.length hs
  simp only [List.length_append, List.length_cons, List.length_nil] at hlen
  have hafter : after = [] := List.eq_nil_of_length_eq_zero (by omega)
  rw [hafter]
  rfl

theorem Settled.append {h l : List Happening} (hs : Settled h) (hl : Settled l)
    (hd : .closed ∈ h → delivered l = []) : Settled (h ++ l) := by
  intro before after heq
  rcases List.append_eq_append_iff.mp heq with ⟨mid, -, hmid⟩ | ⟨mid, hh, hmid⟩
  · exact hl mid after hmid
  · cases mid with
    | nil => exact hl [] after hmid.symm
    | cons x mid =>
      rw [List.cons_append] at hmid
      obtain ⟨rfl, rfl⟩ := List.cons.inj hmid
      have hmem : .closed ∈ h := by
        rw [hh]
        exact List.mem_append_right _ List.mem_cons_self
      rw [delivered_append, hs before mid hh, hd hmem]
      rfl

/-- The acts of task, pump and clock on the way in. -/
def Act.isInward {τ : Type} : Act τ → Bool
  | .inbound | .pump .incoming | .elapse _ => true
  | _ => false

/-! ## What the host puts in -/

namespace Act

variable {τ : Type}

/-- The bytes of the text that an act brings. -/
def bytes : Act τ → List UInt8
  | .arrive d => d.bytes
  | _ => []

/-- The host can put in more behind it: it neither finishes nor fails. -/
def keepsOpen : Act τ → Bool
  | .arrive d => d.isFrame
  | .hostFinish => false
  | _ => true

theorem bytes_of_isSilent {a : Act τ} (h : a.isSilent = true) : a.bytes = [] := by
  cases a <;> first | rfl | cases h

theorem keepsOpen_of_isSilent {a : Act τ} (h : a.isSilent = true) : a.keepsOpen = true := by
  cases a <;> first | rfl | cases h

/-- An end brings no text. -/
theorem bytes_of_keepsOpen {a : Act τ} (h : a.keepsOpen = false) : a.bytes = [] := by
  cases a with
  | arrive d =>
    cases d with
    | frame f => cases h
    | failure reason => rfl
  | _ => rfl

end Act

namespace World

variable {τ : Type}

/-- **What the host puts in**: all the text before it finishes or fails. -/
def hostText (acts : List (Act τ)) : List UInt8 := (acts.takeWhile Act.keepsOpen).flatMap Act.bytes

theorem hostText_cons (a : Act τ) (acts : List (Act τ)) :
    hostText (a :: acts) = a.bytes ++ if a.keepsOpen then hostText acts else [] := by
  rw [hostText, List.takeWhile_cons]
  split
  · rfl
  · rename_i hend
    rw [Act.bytes_of_keepsOpen (Bool.eq_false_iff.mpr hend)]
    rfl

/-- One more act brings more text, unless the host has finished or failed before. -/
theorem hostText_concat (acts : List (Act τ)) (a : Act τ) :
    hostText (acts ++ [a]) = hostText acts ++ if acts.all Act.keepsOpen then a.bytes else [] := by
  induction acts with
  | nil =>
    rw [List.nil_append, hostText_cons]
    show a.bytes ++ (if a.keepsOpen = true then [] else []) = a.bytes
    rw [ite_self, List.append_nil]
  | cons b acts ih =>
    rw [List.cons_append, hostText_cons, hostText_cons, ih, List.all_cons]
    cases b.keepsOpen with
    | true =>
      rw [if_pos rfl, if_pos rfl, Bool.true_and, List.append_assoc]
    | false => exact (List.append_nil _).symm

/-! ## The invariant -/

/-- **Nothing is lost on the way in**: of the host's `text`, `read` has been read, and the rest stands
in the events of the link and in the pipe. -/
structure Flowing (w : World τ) (text read : List UInt8) : Prop where
  conveys : w.hub.Conveys read (delivered w.history)
  steady : w.hub.outbox.link.Steady
  text_eq : text = read ++ (w.hub.outbox.link.events.flatMap LinkEvent.bytes ++ w.toHub.bytes)
  /-- The pump is the reader of the pipe. -/
  reading_eq : w.toHub.reading = w.hub.outbox.link.pumping
  stopped : w.hub.outbox.link.pumping = false → w.toHub.items = []
  closed_of : .closed ∈ w.history → w.replies.closed = true
  settled : Settled w.history

section Steps

variable {w w' : World τ} {text read : List UInt8}

theorem flowing_start {options : HubOptions} (hskip : options.malformedLines = .skip) (own : τ)
    (latencies : List Nat) : (start options own latencies).Flowing [] [] where
  conveys := by
    refine ⟨?_, rfl, fun _ => rfl, fun hr => absurd hr (show ¬ 4 ≤ 2 by decide),
      iff_of_false Bool.false_ne_true (show ¬ 4 ≤ 1 by decide)⟩
    have hfresh := Intake.holds_fresh defaultLineLimit options.malformedLines
    rw [hskip] at hfresh
    show Intake.Holds _ _ _ { framer := { policy := options.malformedLines } }
    rw [hskip]
    exact hfresh
  steady := ⟨rfl, List.not_mem_nil, fun _ => List.not_mem_nil, List.not_mem_nil⟩
  text_eq := rfl
  reading_eq := rfl
  stopped h := absurd h.symm Bool.false_ne_true
  closed_of h := absurd h List.not_mem_nil
  settled := settled_of_notMem List.not_mem_nil

theorem Flowing.aside (h : w.Flowing text read) (hs : Aside w w') (ha : w'.hub.isActive = true) :
    w'.Flowing text read := by
  obtain ⟨l, hhistory, hcl, hl⟩ := hs.history_eq
  have hclosed : w'.hub.outbox.replies.closed = w.hub.outbox.replies.closed := hs.still.closed_eq ha
  have hdelivered : delivered w'.history = delivered w.history := by
    rw [hhistory, delivered_append, hl, List.append_nil]
  refine ⟨?_, h.steady.of_still hs.still ha, ?_, ?_, ?_, ?_, ?_⟩
  · rw [hdelivered]
    refine h.conveys.of_eq hs.phase_eq hs.inlet_eq hclosed fun hr => ?_
    rw [hs.still.events_eq, hs.still.pumping_eq]
    exact h.conveys.spent hr
  · rw [hs.still.events_eq, hs.toHub_eq]
    exact h.text_eq
  · rw [hs.still.pumping_eq, hs.toHub_eq]
    exact h.reading_eq
  · rw [hs.still.pumping_eq, hs.toHub_eq]
    exact h.stopped
  · intro hmem
    rw [hhistory] at hmem
    exact hclosed.trans (h.closed_of ((List.mem_append.mp hmem).resolve_right hcl))
  · rw [hhistory]
    exact h.settled.append (settled_of_notMem hcl) fun _ => hl

/-- **A step of the inbound task.** -/
theorem Flowing.moves (h : w.Flowing text read) {n : List Notice} {hub : Hub τ}
    (hm : Hub.Moves w.now w.hub n hub) (ha : hub.isActive = true) :
    ∃ read', ({ w with hub := hub }.record (n.filterMap Notice.happening?)).Flowing text read' := by
  obtain ⟨taken, hconveys, hevents⟩ := h.conveys.move h.steady hm ha
  -- once the table is closed, the task only goes on to its end
  have hsilent : .closed ∈ w.history →
      delivered (n.filterMap Notice.happening?) = [] ∧ hub.outbox.replies.closed = true := by
    intro hmem
    obtain ⟨rfl, hr⟩ := hm.of_rank_le (h.conveys.closed_iff.mp (h.closed_of hmem))
    exact ⟨rfl, hconveys.closed_iff.mpr hr⟩
  have hnew : .closed ∉ n.filterMap Notice.happening? := by
    intro hmem
    obtain ⟨notice, -, hn⟩ := List.mem_filterMap.mp hmem
    cases notice <;> cases hn
  refine ⟨read ++ taken, ?_, h.steady.of_moves hm ha, ?_, ?_, ?_, ?_, ?_⟩
  · show hub.Conveys _ (delivered (w.history ++ _))
    rw [delivered_append]
    exact hconveys
  · show text = _ ++ (hub.outbox.link.events.flatMap _ ++ w.toHub.bytes)
    rw [h.text_eq, hevents]
    simp only [List.append_assoc]
  · exact h.reading_eq.trans hm.pumping_eq.symm
  · show hub.outbox.link.pumping = false → _
    rw [hm.pumping_eq]
    exact h.stopped
  · exact fun hmem => (hsilent ((List.mem_append.mp hmem).resolve_right hnew)).2
  · exact h.settled.append (settled_of_notMem hnew) fun hmem => (hsilent hmem).1

/-- **A step of the pump.** -/
theorem Flowing.pumps (h : w.Flowing text read) {t : Turn} {l : Link} {i o : Pipe}
    (hpumping : w.hub.outbox.link.pumping = true)
    (hm : w.hub.outbox.link.Pumps w.toHub w.toHost t l i o)
    (htaken : ¬ (t = .outgoing ∧ w.hub.outbox.link.isRefused w.toHost = true))
    (ha : w.hub.outbox.link.active = true) :
    Flowing { w.withOutbox { w.hub.outbox with link := l } with toHub := i, toHost := o } text read ∧
      i.accepts = w.toHub.accepts := by
  obtain ⟨hsteady, hbytes, haccepts⟩ := h.steady.move hpumping ha hm htaken
  obtain ⟨hreading, hstopped⟩ := hm.left hpumping (h.reading_eq.trans hpumping)
  refine ⟨⟨?_, hsteady, ?_, hreading, hstopped, h.closed_of, h.settled⟩, haccepts⟩
  · refine h.conveys.of_eq rfl rfl rfl fun hr => ?_
    exact absurd ((h.conveys.spent hr).2.symm.trans hpumping) Bool.false_ne_true
  · show text = read ++ (l.events.flatMap _ ++ i.bytes)
    rw [h.text_eq, hbytes]

/-- **The host puts something in.** -/
theorem Flowing.arrive (h : w.Flowing text read) (d : Delivery) :
    (w.arrive d).Flowing (text ++ if w.toHub.accepts then d.bytes else []) read := by
  refine ⟨h.conveys, h.steady, ?_, ?_, fun hstop => ?_, h.closed_of, h.settled⟩
  · show _ = read ++ (_ ++ (w.toHub.offer d).2.bytes)
    rw [Pipe.bytes_offer, h.text_eq]
    simp only [List.append_assoc]
    rfl
  · exact (Pipe.reading_offer w.toHub d).trans h.reading_eq
  · show (w.toHub.offer d).2.items = []
    rw [Pipe.offer_of_left (h.reading_eq.trans hstop)]
    exact h.stopped hstop

/-- **An act keeps the invariant**, unless it closes the hub or fails to send. What it brings counts
unless the host has finished or failed before. -/
theorem Flowing.effect {a : Act τ} (h : w.Flowing text read) (he : Effect w a w')
    (ha : w'.hub.isActive = true) (hok : .refused ∉ w'.history) :
    (∃ read', w'.Flowing (text ++ if w.toHub.accepts then a.bytes else []) read') ∧
      w'.toHub.accepts = (w.toHub.accepts && a.keepsOpen) := by
  have hactive := he.active_of ha
  have hsilent : a.bytes = [] → (text ++ if w.toHub.accepts then a.bytes else []) = text := by
    intro hbytes
    rw [hbytes, ite_self, List.append_nil]
  have hkept : w.toHub.accepts = (w.toHub.accepts && true) := (Bool.and_true _).symm
  cases he with
  | aside silent aside =>
    rw [hsilent (Act.bytes_of_isSilent silent), Act.keepsOpen_of_isSilent silent, aside.toHub_eq]
    exact ⟨⟨read, h.aside aside ha⟩, hkept⟩
  | close silent inactive keeps => exact absurd (inactive.symm.trans ha) Bool.false_ne_true
  | inbound moves =>
    rw [hsilent rfl]
    exact ⟨h.moves moves ha, hkept⟩
  | pump pumping pumps taken =>
    rw [hsilent rfl]
    obtain ⟨hflowing, haccepts⟩ := h.pumps pumping pumps taken hactive
    exact ⟨⟨read, hflowing⟩, haccepts.trans hkept⟩
  | refuse pumps => exact absurd (List.mem_append_right _ List.mem_cons_self) hok
  | arrive d => exact ⟨⟨read, h.arrive d⟩, Pipe.accepts_offer w.toHub d⟩
  | finish =>
    rw [hsilent rfl]
    refine ⟨⟨read, h.conveys, h.steady, h.text_eq, h.reading_eq, h.stopped, h.closed_of,
      h.settled⟩, ?_⟩
    exact (Pipe.accepts_finish w.toHub).trans (Bool.and_false _).symm

/-- The closing of the table is recorded. -/
theorem Flowing.record_closed (h : w.Flowing text read) (hcl : w.replies.closed = true) :
    (w.record [.closed]).Flowing text read := by
  refine ⟨?_, h.steady, h.text_eq, h.reading_eq, h.stopped, fun _ => hcl,
    h.settled.append settled_closed fun _ => rfl⟩
  show w.hub.Conveys read (delivered (w.history ++ [.closed]))
  rw [delivered_append]
  exact (List.append_nil (delivered w.history)).symm ▸ h.conveys

theorem flowing_act (h : w.Flowing text read) (a : Act τ) (ha : (w.act a).hub.isActive = true)
    (hok : .refused ∉ (w.act a).history) :
    (∃ read', (w.act a).Flowing (text ++ if w.toHub.accepts then a.bytes else []) read') ∧
      (w.act a).toHub.accepts = (w.toHub.accepts && a.keepsOpen) := by
  rw [hub_act] at ha
  rw [act] at hok ⊢
  split
  · rename_i hflip
    rw [if_pos hflip] at hok
    obtain ⟨⟨read', h'⟩, haccepts⟩ :=
      h.effect (effect_perform w a) ha fun hmem => hok (List.mem_append_left _ hmem)
    exact ⟨⟨read', h'.record_closed (Bool.and_eq_true_iff.mp hflip).1⟩, haccepts⟩
  · rename_i hflip
    rw [if_neg hflip] at hok
    exact h.effect (effect_perform w a) ha hok

/-- **A run keeps the invariant**, as long as the hub is not closed and the transport takes what is
sent. -/
theorem flowing_run {options : HubOptions} (hskip : options.malformedLines = .skip) (own : τ)
    (latencies : List Nat) (acts : List (Act τ))
    (ha : ((start options own latencies).run acts).hub.isActive = true)
    (hok : .refused ∉ ((start options own latencies).run acts).history) :
    (∃ read, ((start options own latencies).run acts).Flowing (hostText acts) read) ∧
      ((start options own latencies).run acts).toHub.accepts = acts.all Act.keepsOpen := by
  -- acts are added at the end, where the invariant is kept
  induction acts using List.reverseRecOn with
  | nil => exact ⟨⟨[], flowing_start hskip own latencies⟩, rfl⟩
  | append_singleton acts a ih =>
    rw [run_concat] at ha hok ⊢
    obtain ⟨l, hl⟩ := history_act ((start options own latencies).run acts) a
    have hok' : .refused ∉ ((start options own latencies).run acts).history := by
      intro hmem
      rw [hl] at hok
      exact hok (List.mem_append_left l hmem)
    have hactive : ((start options own latencies).run acts).hub.isActive = true := by
      rw [hub_act] at ha
      exact (effect_perform _ a).active_of ha
    obtain ⟨⟨read, h⟩, haccepts⟩ := ih hactive hok'
    obtain ⟨hflowing, haccepts'⟩ := flowing_act h a ha hok
    rw [hostText_concat, ← haccepts, List.all_append, ← haccepts, haccepts', List.all_cons,
      List.all_nil, Bool.and_true]
    exact ⟨hflowing, rfl⟩

end Steps

/-! ## Rest -/

/-- Nothing moves any more on the way in, however late it gets. -/
def AtRest (w : World τ) : Prop :=
  (∀ later, w.hub.step? (w.now + later) = none) ∧
    w.hub.outbox.link.pump .incoming w.toHub w.toHost = none

section Rest

variable {w : World τ} {text read : List UInt8}

/-- When all queues are empty, all messages have been delivered. -/
theorem Flowing.caught_up (h : w.Flowing text read) (hr : w.hub.phase.rank ≤ 3)
    (hevents : w.hub.outbox.link.events = []) (hitems : w.toHub.items = []) :
    delivered w.history = Lines.messages text := by
  have htext : text = read := by
    rw [h.text_eq, hevents, Pipe.bytes, hitems]
    exact List.append_nil read
  have htold := h.conveys.told_eq
  rw [InboundPhase.message?_of_rank_le hr, h.conveys.ready_eq hr] at htold
  rw [htext, ← htold, List.filterMap_nil, List.append_nil]
  exact (List.append_nil _).symm

/-- A task that gives up has delivered everything. -/
theorem Flowing.caught_up_of_rank_le (h : w.Flowing text read) (hr : w.hub.phase.rank ≤ 2) :
    delivered w.history = Lines.messages text := by
  obtain ⟨hevents, hstopped⟩ := h.conveys.spent hr
  exact h.caught_up (Nat.le_succ_of_le hr) hevents (h.stopped hstopped)

/-- At rest everything has been delivered, and the task has ended if the host has finished or failed. -/
theorem Flowing.rest (h : w.Flowing text read) (hrest : w.AtRest) :
    delivered w.history = Lines.messages text ∧
      (w.toHub.accepts = false → w.hub.isClosed = true) := by
  rcases Hub.waits_of_step? hrest.1 with ⟨hphase, hevents, hpumping⟩ | hphase
  · obtain ⟨hitems, hwriting⟩ := Link.items_of_pump hpumping hrest.2
    refine ⟨h.caught_up (by rw [hphase]; decide) hevents hitems, fun hend => ?_⟩
    refine absurd (hend.symm.trans ?_) Bool.false_ne_true
    rw [Pipe.accepts, Pipe.isOpen, hwriting, h.reading_eq, hpumping, hitems]
    rfl
  · refine ⟨h.caught_up_of_rank_le (by rw [hphase]; decide), fun _ => ?_⟩
    rw [Hub.isClosed, hphase]

theorem Flowing.ordered (h : w.Flowing text read) :
    delivered w.history <+: Lines.messages text := by
  rw [h.text_eq, Lines.messages_append, ← h.conveys.told_eq, List.append_assoc,
    List.append_assoc]
  exact List.prefix_append _ _

theorem Flowing.before_closed (h : w.Flowing text read) {before after : List Happening}
    (hs : w.history = before ++ .closed :: after) :
    delivered before = Lines.messages text := by
  have hmem : .closed ∈ w.history := by
    rw [hs]
    exact List.mem_append_right _ List.mem_cons_self
  have hr := h.conveys.closed_iff.mp (h.closed_of hmem)
  have hafter : delivered (.closed :: after) = [] := h.settled before after hs
  rw [← h.caught_up_of_rank_le (Nat.le_succ_of_le hr), hs, delivered_append, hafter, List.append_nil]

end Rest

/-- How far the way in is from its rest: what is in the pipe, and then what the task has to do. -/
def distance (w : World τ) : Nat × Nat × Nat :=
  (w.toHub.items.length + w.hub.outbox.link.pumping.toNat, w.hub.toDo)

theorem distance_act (w : World τ) (a : Act τ) : (w.act a).distance = (w.perform a).distance := by
  rw [act]
  split <;> rfl

/-- A step of the task brings the way in nearer to its rest. -/
theorem inbound_decreases {w : World τ} {n : List Notice} {h : Hub τ}
    (hs : w.hub.step? w.now = some (n, h)) :
    Prod.Lex (· < ·) (Prod.Lex (· < ·) (· < ·)) (w.act .inbound).distance w.distance := by
  have hinbound : w.perform .inbound
      = { w with hub := h }.record (n.filterMap Notice.happening?) := by
    show w.inbound = _
    rw [inbound, hs]
  rw [distance_act, hinbound]
  show Prod.Lex _ _ (w.toHub.items.length + h.outbox.link.pumping.toNat, h.toDo) w.distance
  rw [(Hub.moves_of_step? hs).pumping_eq]
  exact Prod.Lex.right _ (Hub.step?_decreases hs)

theorem act_elapse (w : World τ) (milliseconds : Nat) :
    w.act (.elapse milliseconds) = { w with now := w.now + milliseconds } := by
  have hsame : ¬ (w.replies.closed && !w.replies.closed) = true := by
    rw [Bool.and_not_self]
    exact Bool.false_ne_true
  exact if_neg hsame

/-- A step that the task can take later brings it nearer too. -/
theorem wait_decreases {w : World τ} {later : Nat} {n : List Notice} {h : Hub τ}
    (hs : w.hub.step? (w.now + later) = some (n, h)) :
    Prod.Lex (· < ·) (Prod.Lex (· < ·) (· < ·)) ((w.act (.elapse later)).act .inbound).distance
      w.distance := by
  have hlt := inbound_decreases (w := { w with now := w.now + later }) hs
  rw [act_elapse]
  exact hlt

/-- So does a step of the pump that takes something in. -/
theorem pump_decreases {w : World τ} {l : Link} {i o : Pipe}
    (hp : w.hub.outbox.link.pump .incoming w.toHub w.toHost = some (l, i, o)) :
    Prod.Lex (· < ·) (Prod.Lex (· < ·) (· < ·)) (w.act (.pump .incoming)).distance w.distance := by
  have hpump : (w.perform (.pump .incoming)).distance
      = (i.items.length + l.pumping.toNat, { w.hub with
          outbox := { w.hub.outbox with link := l } }.toDo) := by
    show (w.pump .incoming).distance = _
    rw [World.pump, hp]
    rfl
  obtain ⟨hpumping, hm⟩ := Link.pumps_of_pump hp
  rw [distance_act, hpump]
  exact Prod.Lex.left _ _ (hm.incoming_decreases hpumping)

/-- **Task, pump and clock come to rest.** -/
theorem exists_rest (w : World τ) :
    ∃ acts : List (Act τ), (∀ a ∈ acts, a.isInward = true) ∧ (w.run acts).AtRest := by
  by_cases hrest : w.AtRest
  · exact ⟨[], fun a ha => absurd ha List.not_mem_nil, hrest⟩
  · cases hp : w.hub.outbox.link.pump .incoming w.toHub w.toHost with
    | some p =>
      obtain ⟨l, i, o⟩ := p
      have hlt := pump_decreases hp
      obtain ⟨acts, hinward, hacts⟩ := exists_rest (w.act (.pump .incoming))
      exact ⟨.pump .incoming :: acts, List.forall_mem_cons.mpr ⟨rfl, hinward⟩, hacts⟩
    | none =>
      obtain ⟨later, hs⟩ : ∃ later, w.hub.step? (w.now + later) ≠ none := by
        simpa [AtRest, hp] using hrest
      obtain ⟨⟨n, h⟩, hs⟩ := Option.ne_none_iff_exists'.mp hs
      have hlt := wait_decreases hs
      obtain ⟨acts, hinward, hacts⟩ := exists_rest ((w.act (.elapse later)).act .inbound)
      refine ⟨.elapse later :: .inbound :: acts, ?_, hacts⟩
      exact List.forall_mem_cons.mpr ⟨rfl, List.forall_mem_cons.mpr ⟨rfl, hinward⟩⟩
termination_by w.distance
decreasing_by
  · exact hlt
  · exact hlt

/-! ## The result -/

/-- **A run delivers in the order of the wire** what the host puts in during it. -/
structure InWireOrder (w : World τ) (acts : List (Act τ)) : Prop where
  /-- Of the messages a first part has been delivered: none is left out, doubled or moved. -/
  ordered : delivered (w.run acts).history <+: Lines.messages (hostText acts)
  /-- At rest all of them have been delivered. -/
  complete : (w.run acts).AtRest → delivered (w.run acts).history = Lines.messages (hostText acts)
  /-- At rest the task has ended if the host has finished or failed. -/
  ended : (w.run acts).AtRest → acts.all Act.keepsOpen = false → (w.run acts).hub.isClosed = true
  /-- All of them have been delivered before the calls that wait are failed. -/
  before_closed : ∀ before after, (w.run acts).history = before ++ .closed :: after →
    delivered before = Lines.messages (hostText acts)
  /-- The calls that wait have been failed before the task has ended. -/
  closed_of_ended : (w.run acts).hub.isClosed = true → .closed ∈ (w.run acts).history
  /-- Task, pump and clock lead to a rest. -/
  rests : ∃ more : List (Act τ), (∀ a ∈ more, a.isInward = true) ∧ (w.run (acts ++ more)).AtRest

theorem noted_run (options : HubOptions) (own : τ) (latencies : List Nat) (acts : List (Act τ)) :
    ((start options own latencies).run acts).replies.closed = true →
      .closed ∈ ((start options own latencies).run acts).history :=
  run_induction (P := fun w => w.replies.closed = true → .closed ∈ w.history)
    (fun _ a h => noted_act h a) (start options own latencies)
    (fun h => absurd h Bool.false_ne_true) acts

/-- **Messages are delivered in the order of the wire in every run** in which bad lines are skipped,
nobody closes the hub from its own side and the transport refuses no text: whoever acts in whatever
order, however the text is cut, and however long the decoding takes. -/
theorem inWireOrder_run (options : HubOptions) (hskip : options.malformedLines = .skip) (own : τ)
    (latencies : List Nat) (acts : List (Act τ))
    (hactive : ((start options own latencies).run acts).hub.isActive = true)
    (hsent : .refused ∉ ((start options own latencies).run acts).history) :
    (start options own latencies).InWireOrder acts := by
  have hnoted := noted_run options own latencies acts
  obtain ⟨⟨read, h⟩, haccepts⟩ := flowing_run hskip own latencies acts hactive hsent
  refine ⟨h.ordered, fun hrest => (h.rest hrest).1, fun hrest hend => ?_,
    fun before after hs => h.before_closed hs, fun hclosed => hnoted ?_, ?_⟩
  · exact (h.rest hrest).2 (haccepts.trans hend)
  · refine h.conveys.closed_iff.mpr ?_
    rw [Hub.isClosed] at hclosed
    split at hclosed
    · rename_i hphase
      rw [hphase]
      decide
    · cases hclosed
  · obtain ⟨more, hinward, hrest⟩ := exists_rest ((start options own latencies).run acts)
    refine ⟨more, hinward, ?_⟩
    rw [run_append]
    exact hrest

/-- Two messages around a line that is no envelope; the second one arrives while the first one is
being decoded, and the host ends the connection before that is done. -/
theorem inWireOrder_run_pongs :
    let pong (id : UInt64) : InboundMessage := ⟨none, some ⟨id⟩, .pong⟩
    let line (id : UInt64) := (Envelope.pack .none .zero (pong id)).toLine.push '\n'
    let acts : List (Act Unit) := [.arrive (.frame (.text (line 1 ++ "ju"))), .pump .incoming,
      .inbound, .inbound, .inbound, .inbound, .arrive (.frame (.text ("nk\n" ++ line 2))),
      .pump .incoming, .hostFinish, .pump .incoming, .elapse 5, .inbound, .inbound, .inbound,
      .inbound, .inbound, .inbound, .inbound, .inbound, .inbound, .inbound, .inbound]
    (start {} () [5]).InWireOrder acts ∧
      ((start {} () [5]).run acts).hub.isClosed = true ∧
      delivered ((start {} () [5]).run acts).history = [pong 1, pong 2] := by
  intro pong line acts
  have hrun : (((start {} () [5]).run acts).hub.isActive = true ∧
      .refused ∉ ((start {} () [5]).run acts).history) ∧
      ((start {} () [5]).run acts).hub.isClosed = true ∧
      delivered ((start {} () [5]).run acts).history = [pong 1, pong 2] := by
    decide +kernel +revert
  exact ⟨inWireOrder_run {} rfl () [5] acts hrun.1.1 hrun.1.2, hrun.2⟩

end World

end SessionMux
