import SessionMux.Proofs.Link.Safety

/-!
# What a link delivers

Both ways a link is a queue: what comes out is a prefix of what has gone in, and what is missing is
still queued, or was lost when the pump ended or the link was closed. Two endings lose nothing: the
pump that takes the close has written everything that had been sent before the first close, and whoever
is handed the end of the transport has been handed everything that the pump read.

* `Traffic.sent`, `Traffic.written`, `Traffic.handedOut` — the texts seen to go in and come out.
* `Traffic.read` — the texts that the pump reads from the transport in a run.
* `Outgoing`, `Incoming` — the invariants of the two ways; `outgoing_act`, `incoming_act` — every act
  keeps them.
* **`delivers_run`** — in every run both ways deliver in order, without loss or duplication.
-/

namespace SessionMux

/-! ## The texts of a history -/

namespace Sight

/-- The text of a send that has ended well. -/
def sent? : Sight → Option String
  | sent text => some text
  | _ => none

/-- The text that the transport has been given. -/
def wrote? : Sight → Option String
  | wrote text => some text
  | _ => none

/-- The text that has been handed out. -/
def message? : Sight → Option String
  | received (.message text) => some text
  | _ => none

end Sight

/-- The text of an event, if it is a message. -/
def LinkEvent.text? : LinkEvent → Option String
  | message text => some text
  | closed => none

namespace Traffic

/-- The texts whose sends have ended well, in order. -/
def sent (w : Traffic) : List String := w.history.filterMap Sight.sent?

/-- Those of them whose sends had ended before the link was closed for the first time. -/
def sentFirst (w : Traffic) : List String :=
  (w.history.takeWhile (· ≠ .closing)).filterMap Sight.sent?

/-- The texts that the transport has been given, in order. -/
def written (w : Traffic) : List String := w.history.filterMap Sight.wrote?

/-- The texts that have been handed out, in order. -/
def handedOut (w : Traffic) : List String := w.history.filterMap Sight.message?

/-- The texts that wait for the pump before the close. -/
def queuedFirst (w : Traffic) : List String :=
  (w.link.commands.takeWhile (· ≠ .close)).filterMap Command.text?

/-- The texts that wait to be handed out. -/
def ready (w : Traffic) : List String := w.link.events.filterMap LinkEvent.text?

/-- The text that the pump reads from the transport in an act. -/
def reading (w : Traffic) : TrafficAct → List String
  | .pump .incoming =>
    match w.link.pumping, w.inbound.items with
    | true, .frame f :: _ => [f.toText]
    | _, _ => []
  | _ => []

/-- The texts that the pump reads from the transport in a run. -/
def read (w : Traffic) : List TrafficAct → List String
  | [] => []
  | a :: acts => w.reading a ++ (w.act a).read acts

/-- **What every act keeps of the texts read, every run keeps.** -/
theorem read_induction {P : Traffic → List String → Prop}
    (hact : ∀ w texts a, P w texts → P (w.act a) (texts ++ w.reading a)) (w : Traffic)
    (texts : List String) (hw : P w texts) (acts : List TrafficAct) :
    P (w.run acts) (texts ++ w.read acts) := by
  induction acts generalizing w texts with
  | nil =>
    rw [read, List.append_nil]
    exact hw
  | cons a acts ih =>
    rw [read, ← List.append_assoc]
    exact ih (w.act a) (texts ++ w.reading a) (hact w texts a hw)

/-! ## Histories that grow -/

section First

variable {α : Type} [DecidableEq α] {x : α} {l : List α}

theorem takeWhile_of_notMem (h : x ∉ l) (m : List α) :
    (l ++ m).takeWhile (· ≠ x) = l ++ m.takeWhile (· ≠ x) :=
  List.takeWhile_append_of_pos fun y hy => decide_eq_true fun (heq : y = x) => h (heq ▸ hy)

theorem takeWhile_of_mem (h : x ∈ l) (m : List α) :
    (l ++ m).takeWhile (· ≠ x) = l.takeWhile (· ≠ x) := by
  obtain ⟨before, after, rfl, hbefore⟩ := List.eq_append_cons_of_mem h
  have hstop : ∀ rest, (x :: rest).takeWhile (· ≠ x) = [] := fun rest =>
    List.takeWhile_cons_of_neg (by simp)
  rw [List.append_assoc, List.cons_append, takeWhile_of_notMem hbefore, takeWhile_of_notMem hbefore,
    hstop, hstop]

theorem takeWhile_self (h : x ∉ l) : l.takeWhile (· ≠ x) = l := by
  have hall := takeWhile_of_notMem h []
  rwa [List.append_nil, List.takeWhile_nil, List.append_nil] at hall

/-- What comes behind makes the part before the first one longer at most. -/
theorem takeWhile_append_initial (l m : List α) (x : α) :
    l.takeWhile (· ≠ x) <+: (l ++ m).takeWhile (· ≠ x) := by
  by_cases h : x ∈ l
  · exact ⟨[], by rw [List.append_nil, takeWhile_of_mem h]⟩
  · rw [takeWhile_of_notMem h, takeWhile_self h]
    exact List.prefix_append _ _

end First

section Growing

variable {w w' : Traffic} {l : List Sight}

theorem sent_of_append (h : w'.history = w.history ++ l) :
    w'.sent = w.sent ++ l.filterMap Sight.sent? := by
  rw [sent, h, List.filterMap_append]
  rfl

theorem written_of_append (h : w'.history = w.history ++ l) :
    w'.written = w.written ++ l.filterMap Sight.wrote? := by
  rw [written, h, List.filterMap_append]
  rfl

theorem handedOut_of_append (h : w'.history = w.history ++ l) :
    w'.handedOut = w.handedOut ++ l.filterMap Sight.message? := by
  rw [handedOut, h, List.filterMap_append]
  rfl

/-- What was sent before the first close stays the same once there has been one. -/
theorem sentFirst_of_append (h : w'.history = w.history ++ l) (hclosing : .closing ∈ w.history) :
    w'.sentFirst = w.sentFirst := by
  rw [sentFirst, h, takeWhile_of_mem hclosing, sentFirst]

end Growing

/-! ## The way out -/

/-- **The invariant of the way out.** -/
structure Outgoing (w : Traffic) : Prop where
  written_initial : w.written <+: w.sent
  queued_rest : w.link.pumping = true → w.sent = w.written ++ w.link.queued
  unclosed : .closing ∉ w.history → .close ∉ w.link.commands ∧ .close ∉ w.halves
  first : .closing ∈ w.history → w.link.pumping = true →
    w.sentFirst <+: w.written ++ w.queuedFirst

section Outgoing

variable {w w' : Traffic}

theorem outgoing_start : ({} : Traffic).Outgoing where
  written_initial := List.prefix_rfl
  queued_rest _ := rfl
  unclosed _ := ⟨List.not_mem_nil, List.not_mem_nil⟩
  first h := absurd h List.not_mem_nil

/-- What neither sends nor writes nor closes, and touches the commands at most in that the pump
ends. -/
theorem Outgoing.of_quiet (h : w.Outgoing) {l : List Sight} (hhistory : w'.history = w.history ++ l)
    (hsent : l.filterMap Sight.sent? = []) (hwrote : l.filterMap Sight.wrote? = [])
    (hclosing : .closing ∉ l) (hcommands : w'.link.pumping = true →
      w.link.pumping = true ∧ w'.link.commands = w.link.commands)
    (hclose : .close ∈ w'.link.commands → .close ∈ w.link.commands)
    (hhalves : .close ∈ w'.halves → .close ∈ w.halves) : w'.Outgoing := by
  have hsent' : w'.sent = w.sent := by
    rw [sent_of_append hhistory, hsent, List.append_nil]
  have hwritten : w'.written = w.written := by
    rw [written_of_append hhistory, hwrote, List.append_nil]
  have hmem : .closing ∈ w'.history ↔ .closing ∈ w.history := by
    rw [hhistory, List.mem_append]
    exact or_iff_left hclosing
  constructor
  · rw [hsent', hwritten]
    exact h.written_initial
  · intro hp
    obtain ⟨hp, hc⟩ := hcommands hp
    rw [hsent', hwritten, Link.queued, hc]
    exact h.queued_rest hp
  · intro hno
    obtain ⟨hc, hh⟩ := h.unclosed (hno ∘ hmem.mpr)
    exact ⟨hc ∘ hclose, hh ∘ hhalves⟩
  · intro hcl hp
    obtain ⟨hp, hc⟩ := hcommands hp
    rw [sentFirst_of_append hhistory (hmem.mp hcl), hwritten, queuedFirst, hc]
    exact h.first (hmem.mp hcl) hp

/-- What touches neither the commands nor the pump nor the calls that are half done. -/
theorem Outgoing.of_link (h : w.Outgoing) (hhistory : w'.history = w.history)
    (hcommands : w'.link.commands = w.link.commands) (hpumping : w'.link.pumping = w.link.pumping)
    (hhalves : w'.halves = w.halves) : w'.Outgoing :=
  h.of_quiet (hhistory.trans (List.append_nil _).symm) rfl rfl List.not_mem_nil
    (fun hp => ⟨hpumping.symm.trans hp, hcommands⟩) (fun hc => hcommands ▸ hc)
    (fun hh => hhalves ▸ hh)

theorem outgoing_send (h : w.Outgoing) (text : String) : (w.send text).Outgoing := by
  rw [send]
  split
  · refine h.of_quiet (l := [.admitted text]) rfl rfl rfl (by simp) (fun hp => ⟨hp, rfl⟩) id ?_
    intro hmem
    exact (List.mem_append.mp hmem).resolve_right (by simp)
  · exact h.of_quiet (l := [.refused text]) rfl rfl rfl (by simp) (fun hp => ⟨hp, rfl⟩) id id

/-- At the first close everything that was sent is written or waits, and no close waits yet. -/
theorem outgoing_close (hi : w.Inv) (h : w.Outgoing) : w.close.Outgoing := by
  rw [close]
  split
  · rename_i ha
    have hno : .closing ∉ w.history := fun hmem => hi.ne_closing ha _ hmem rfl
    have hsent : (w.history ++ [Sight.closing]).filterMap Sight.sent? = w.sent := by
      rw [List.filterMap_append]
      exact List.append_nil _
    have hwritten : (w.history ++ [Sight.closing]).filterMap Sight.wrote? = w.written := by
      rw [List.filterMap_append]
      exact List.append_nil _
    have hfirst : (w.history ++ [Sight.closing]).takeWhile (· ≠ .closing) = w.history := by
      rw [takeWhile_of_notMem hno]
      exact List.append_nil _
    have hqueued : w.queuedFirst = w.link.queued := by
      rw [queuedFirst, takeWhile_self (h.unclosed hno).1, Link.queued]
    constructor
    · show List.filterMap _ (w.history ++ [_]) <+: List.filterMap _ (w.history ++ [_])
      rw [hsent, hwritten]
      exact h.written_initial
    · intro hp
      show List.filterMap _ (w.history ++ [_]) = List.filterMap _ (w.history ++ [_]) ++ w.link.queued
      rw [hsent, hwritten]
      exact h.queued_rest hp
    · intro hno'
      exact absurd (List.mem_append_right _ List.mem_cons_self) hno'
    · intro _ hp
      show List.filterMap _ ((w.history ++ [_]).takeWhile _) <+:
        List.filterMap _ (w.history ++ [_]) ++ w.queuedFirst
      rw [hfirst, hwritten, hqueued]
      exact (h.queued_rest hp) ▸ List.prefix_rfl
  · exact h

/-- More commands wait; what waits before the close is not less. -/
theorem Outgoing.first_of_prefix (h : w.Outgoing) {l : List Sight} {more : List Command}
    (hhistory : w'.history = w.history ++ l) (hcommands : w'.link.commands = w.link.commands ++ more)
    (hwrote : l.filterMap Sight.wrote? = []) (hclosing : .closing ∈ w.history)
    (hp : w.link.pumping = true) : w'.sentFirst <+: w'.written ++ w'.queuedFirst := by
  have hmore : w.queuedFirst <+: w'.queuedFirst := by
    rw [queuedFirst, queuedFirst, hcommands]
    exact (takeWhile_append_initial w.link.commands more .close).filterMap Command.text?
  rw [sentFirst_of_append hhistory hclosing, written_of_append hhistory, hwrote, List.append_nil]
  exact (h.first hclosing hp).trans ((List.prefix_append_right_inj w.written).mpr hmore)

/-- A text is sent: it waits behind all others. -/
theorem Outgoing.queue_send (h : w.Outgoing) (hp : w.link.pumping = true) {text : String}
    (hhistory : w'.history = w.history ++ [.sent text])
    (hcommands : w'.link.commands = w.link.commands ++ [.send text])
    (hhalves : .close ∈ w'.halves → .close ∈ w.halves) : w'.Outgoing := by
  have hsent : w'.sent = w.sent ++ [text] := sent_of_append hhistory
  have hwritten : w'.written = w.written := (written_of_append hhistory).trans (List.append_nil _)
  have hqueued : w'.link.queued = w.link.queued ++ [text] := by
    rw [Link.queued, hcommands, List.filterMap_append]
    rfl
  have hclosing : .closing ∈ w'.history ↔ .closing ∈ w.history := by
    rw [hhistory]
    exact mem_snoc_of_ne (by simp)
  constructor
  · rw [hsent, hwritten]
    exact h.written_initial.trans (List.prefix_append _ _)
  · intro _
    rw [hsent, hwritten, hqueued, h.queued_rest hp, List.append_assoc]
  · intro hno
    obtain ⟨hc, hh⟩ := h.unclosed (hno ∘ hclosing.mpr)
    refine ⟨?_, hh ∘ hhalves⟩
    rw [hcommands, List.mem_append]
    exact fun hmem => hmem.elim hc (by simp)
  · exact fun hmem _ => h.first_of_prefix hhistory hcommands rfl (hclosing.mp hmem) hp

/-- A close waits behind everything that was sent. -/
theorem Outgoing.queue_close (h : w.Outgoing) (hp : w.link.pumping = true) (hmem : .close ∈ w.halves)
    (hhistory : w'.history = w.history ++ [])
    (hcommands : w'.link.commands = w.link.commands ++ [.close]) : w'.Outgoing := by
  have hclosing : .closing ∈ w.history :=
    Decidable.byContradiction fun hno => (h.unclosed hno).2 hmem
  have hsent : w'.sent = w.sent := (sent_of_append hhistory).trans (List.append_nil _)
  have hwritten : w'.written = w.written := (written_of_append hhistory).trans (List.append_nil _)
  have hqueued : w'.link.queued = w.link.queued := by
    rw [Link.queued, hcommands, List.filterMap_append]
    exact List.append_nil _
  constructor
  · rw [hsent, hwritten]
    exact h.written_initial
  · intro _
    rw [hsent, hwritten, hqueued]
    exact h.queued_rest hp
  · intro hno
    rw [hhistory, List.append_nil] at hno
    exact absurd hclosing hno
  · exact fun _ _ => h.first_of_prefix hhistory hcommands rfl hclosing hp

theorem outgoing_queue (h : w.Outgoing) (k : Nat) : (w.queue k).Outgoing := by
  rw [queue]
  split
  · exact h
  · rename_i c hc
    have hhalves : .close ∈ w.halves.eraseIdx k → .close ∈ w.halves := List.mem_of_mem_eraseIdx
    have hmem : c ∈ w.halves := List.mem_of_getElem? hc
    simp only
    split
    · rename_i l hl
      rw [Link.queue] at hl
      split at hl
      · rename_i hp
        cases hl
        cases c with
        | send text => exact h.queue_send hp rfl rfl hhalves
        | close => exact h.queue_close hp hmem rfl rfl
      · cases hl
    · cases c with
      | send text =>
        exact h.of_quiet (l := [.refused text]) rfl rfl rfl (by simp) (fun hp => ⟨hp, rfl⟩) id hhalves
      | close => exact h.of_quiet (l := []) rfl rfl rfl (by simp) (fun hp => ⟨hp, rfl⟩) id hhalves

theorem outgoing_poll (h : w.Outgoing) : w.poll.Outgoing := by
  rw [poll]
  split
  · exact h.of_link rfl rfl rfl rfl
  · exact h.of_quiet (l := [.nothing]) rfl rfl rfl (by simp) (fun hp => ⟨hp, rfl⟩) id id

theorem outgoing_resume (h : w.Outgoing) : w.resume.Outgoing := by
  rw [resume]
  split
  · obtain ⟨hcommands, hpumping⟩ := w.link.commands_resume
    refine h.of_quiet (l := w.link.resume.1.sights) rfl ?_ ?_ ?_
      (fun hp => ⟨hpumping.symm.trans hp, hcommands⟩) (fun hc => hcommands ▸ hc) id
    all_goals cases w.link.resume.1 <;> simp [Received.sights, Sight.sent?, Sight.wrote?]
  · exact h

/-- A text goes out: it was the first to wait. -/
theorem Outgoing.write (h : w.Outgoing) (hp : w.link.pumping = true) {text : String}
    (hhistory : w'.history = w.history ++ [.wrote text])
    (hcommands : w.link.commands = .send text :: w'.link.commands)
    (hhalves : w'.halves = w.halves) : w'.Outgoing := by
  have hsent : w'.sent = w.sent := (sent_of_append hhistory).trans (List.append_nil _)
  have hwritten : w'.written = w.written ++ [text] := written_of_append hhistory
  have hqueued : w.link.queued = text :: w'.link.queued := by
    rw [Link.queued, hcommands]
    rfl
  have hfirst : w.queuedFirst = text :: w'.queuedFirst := by
    rw [queuedFirst, hcommands, List.takeWhile_cons_of_pos (by simp)]
    rfl
  have hrest : w.sent = w'.written ++ w'.link.queued := by
    rw [h.queued_rest hp, hwritten, hqueued, List.append_cons]
  have hclosing : .closing ∈ w'.history ↔ .closing ∈ w.history := by
    rw [hhistory]
    exact mem_snoc_of_ne (by simp)
  constructor
  · rw [hsent, hrest]
    exact List.prefix_append _ _
  · intro _
    rw [hsent, hrest]
  · intro hno
    obtain ⟨hc, hh⟩ := h.unclosed (hno ∘ hclosing.mpr)
    rw [hcommands] at hc
    rw [hhalves]
    exact ⟨List.not_mem_of_not_mem_cons hc, hh⟩
  · intro hmem _
    have hold := h.first (hclosing.mp hmem) hp
    rwa [hfirst, List.append_cons, ← hwritten,
      ← sentFirst_of_append hhistory (hclosing.mp hmem)] at hold

theorem commands_arrive (l : Link) (text : String) : (l.arrive text).commands = l.commands := by
  rw [Link.arrive]
  split <;> rfl

/-- **A step of the pump** takes what it writes from the front of the queue. -/
theorem outgoing_pump (h : w.Outgoing) (t : Turn) : (w.pump t).Outgoing := by
  have hstop : ∀ {l : Link} {i o : Pipe}, l.pumping = false → l.commands = [] →
      Outgoing { w with link := l, inbound := i, outbound := o, history := w.history ++ [.finished] } :=
    fun hp hc => h.of_quiet (l := [.finished]) rfl rfl rfl (by simp)
      (fun hp' => absurd (hp.symm.trans hp') Bool.false_ne_true)
      (fun hmem => absurd hmem (hc ▸ List.not_mem_nil)) id
  rw [pump]
  split
  · rename_i l i o hpump
    obtain ⟨hp, hm⟩ := Link.pumps_of_pump hpump
    cases hm with
    | @send text rest commands reading =>
      have hsights := sights_put (l := { w.link with commands := rest }) hp w.outbound text
      exact h.write hp (congrArg (w.history ++ ·) hsights) commands rfl
    | @arrive f rest items =>
      have hp' := (Link.pumping_arrive w.link f.toText).trans hp
      have hhistory := congrArg (w.history ++ ·) (sights_same hp' w.outbound)
      exact h.of_link (hhistory.trans (List.append_nil _)) (commands_arrive w.link f.toText)
        (Link.pumping_arrive w.link f.toText) rfl
    | refuse commands reading => exact hstop rfl rfl
    | close commands => exact hstop rfl rfl
    | release commands held => exact hstop rfl rfl
    | fail items => exact hstop rfl rfl
    | finish items writing => exact hstop rfl rfl
  · exact h

/-- **Every act keeps the invariant of the way out.** -/
theorem outgoing_act (hi : w.Inv) (h : w.Outgoing) (a : TrafficAct) : (w.act a).Outgoing := by
  cases a with
  | send text => exact outgoing_send h text
  | close => exact outgoing_close hi h
  | queue k => exact outgoing_queue h k
  | poll => exact outgoing_poll h
  | resume => exact outgoing_resume h
  | pump t => exact outgoing_pump h t
  | _ => exact h.of_link rfl rfl rfl rfl

end Outgoing

/-! ## The way in -/

/-- **The invariant of the way in**, when the pump has read these texts. -/
structure Incoming (w : Traffic) (texts : List String) : Prop where
  handedOut_initial : w.handedOut <+: texts
  ready_rest : w.link.active = true → texts = w.handedOut ++ w.ready
  drained : .received .closed ∈ w.history → w.handedOut = texts

section Incoming

variable {w w' : Traffic} {texts : List String}

theorem incoming_start : ({} : Traffic).Incoming [] where
  handedOut_initial := List.prefix_rfl
  ready_rest _ := rfl
  drained h := absurd h List.not_mem_nil

/-- What neither hands anything out nor takes a text in. -/
theorem Incoming.of_quiet (h : w.Incoming texts) {l : List Sight}
    (hhistory : w'.history = w.history ++ l) (hreceived : ∀ e, .received e ∉ l)
    (hready : w'.link.active = true → w.link.active = true ∧ w'.ready = w.ready) :
    w'.Incoming texts := by
  have hhanded : w'.handedOut = w.handedOut := by
    have hnone : l.filterMap Sight.message? = [] := by
      rw [List.filterMap_eq_nil_iff]
      intro x hx
      cases x with
      | received e => exact absurd hx (hreceived e)
      | _ => rfl
    rw [handedOut_of_append hhistory, hnone, List.append_nil]
  constructor
  · rw [hhanded]
    exact h.handedOut_initial
  · intro ha
    obtain ⟨ha, hr⟩ := hready ha
    rw [hhanded, hr]
    exact h.ready_rest ha
  · intro hmem
    rw [hhistory, List.mem_append] at hmem
    rw [hhanded]
    exact h.drained (hmem.resolve_right (hreceived .closed))

theorem Incoming.of_link (h : w.Incoming texts) (hhistory : w'.history = w.history)
    (hactive : w'.link.active = w.link.active) (hevents : w'.link.events = w.link.events) :
    w'.Incoming texts := by
  refine h.of_quiet (hhistory.trans (List.append_nil _).symm) (fun e => List.not_mem_nil) ?_
  intro ha
  exact ⟨hactive.symm.trans ha, congrArg (List.filterMap LinkEvent.text?) hevents⟩

theorem incoming_send (h : w.Incoming texts) (text : String) : (w.send text).Incoming texts := by
  rw [send]
  split
  · exact h.of_quiet (l := [.admitted text]) rfl (by simp) (fun ha => ⟨ha, rfl⟩)
  · exact h.of_quiet (l := [.refused text]) rfl (by simp) (fun ha => ⟨ha, rfl⟩)

theorem incoming_close (h : w.Incoming texts) : w.close.Incoming texts := by
  rw [close]
  split
  · exact h.of_quiet (l := [.closing]) rfl (by simp) (fun ha => absurd ha Bool.false_ne_true)
  · exact h

theorem incoming_queue (h : w.Incoming texts) (k : Nat) : (w.queue k).Incoming texts := by
  have hsights : ∀ (c : HalfCall) (queued : Bool) e, .received e ∉ c.sights queued := by
    intro c queued e
    cases c <;> cases queued <;> simp [HalfCall.sights]
  rw [queue]
  split
  · exact h
  · rename_i c hc
    simp only
    split
    · rename_i l hl
      rw [Link.queue] at hl
      split at hl
      · cases hl
        exact h.of_quiet (l := c.sights true) rfl (hsights c true) (fun ha => ⟨ha, rfl⟩)
      · cases hl
    · exact h.of_quiet (l := c.sights false) rfl (hsights c false) (fun ha => ⟨ha, rfl⟩)

theorem incoming_poll (h : w.Incoming texts) : w.poll.Incoming texts := by
  rw [poll]
  split
  · exact h.of_link rfl rfl rfl
  · exact h.of_quiet (l := [.nothing]) rfl (by simp) (fun ha => ⟨ha, rfl⟩)

/-- A text is handed out: it was the first to wait. -/
theorem Incoming.hand_out (h : w.Incoming texts) (ha : w.link.active = true) {text : String}
    (hhistory : w'.history = w.history ++ [.received (.message text)])
    (hevents : w.link.events = .message text :: w'.link.events)
    (hopen : .received .closed ∉ w.history) : w'.Incoming texts := by
  have hhanded : w'.handedOut = w.handedOut ++ [text] := handedOut_of_append hhistory
  have hready : w.ready = text :: w'.ready := by
    rw [ready, hevents]
    rfl
  have hrest : texts = w'.handedOut ++ w'.ready := by
    rw [h.ready_rest ha, hready, hhanded, List.append_cons]
  refine ⟨?_, fun _ => hrest, fun hmem => ?_⟩
  · rw [hrest]
    exact List.prefix_append _ _
  · rw [hhistory] at hmem
    exact absurd ((mem_snoc_of_ne (by simp)).mp hmem) hopen

/-- The end is handed out: nothing waits any more. -/
theorem Incoming.hand_out_end (h : w.Incoming texts) (ha : w.link.active = true)
    (hhistory : w'.history = w.history ++ [.received .closed]) (hevents : w.link.events = [.closed])
    (hevents' : w'.link.events = []) : w'.Incoming texts := by
  have hhanded : w'.handedOut = w.handedOut :=
    (handedOut_of_append hhistory).trans (List.append_nil _)
  have hall : texts = w'.handedOut := by
    rw [h.ready_rest ha, ready, hevents, hhanded]
    exact List.append_nil _
  refine ⟨hall ▸ List.prefix_rfl, fun _ => ?_, fun _ => hall.symm⟩
  rw [ready, hevents', hall]
  exact (List.append_nil _).symm

/-- **An event is taken**, from the front of those that wait, and handed out if the link is open. -/
theorem incoming_resume (hi : w.Inv) (h : w.Incoming texts) : w.resume.Incoming texts := by
  cases hw : w.waiting with
  | false =>
    rw [resume, if_neg (by simp [hw])]
    exact h
  | true =>
    cases he : w.link.events with
    | nil =>
      cases hp : w.link.pumping with
      | true =>
        rw [resume_eq (r := .pending) (l := w.link) hw (by simp [Link.resume, he, hp])]
        exact h.of_link (List.append_nil _) rfl rfl
      | false =>
        rw [resume_eq (r := .ended) (l := w.link) hw (by simp [Link.resume, he, hp])]
        exact h.of_quiet (l := [.nothing]) rfl (by simp) (fun ha => ⟨ha, rfl⟩)
    | cons e rest =>
      cases ha : w.link.active with
      | false =>
        rw [resume_eq (r := .ended) (l := { w.link with events := rest }) hw
          (by simp [Link.resume, he, ha])]
        exact h.of_quiet (l := [.nothing]) rfl (by simp)
          (fun ha' => absurd (ha.symm.trans ha') Bool.false_ne_true)
      | true =>
        rw [resume_eq (r := .event e) (l := { w.link with events := rest }) hw
          (by simp [Link.resume, he, ha])]
        cases e with
        | message text =>
          have hopen : .received .closed ∉ w.history := fun hmem =>
            absurd (he.symm.trans (hi.spent hmem).2) (List.cons_ne_nil _ _)
          exact h.hand_out ha rfl he hopen
        | closed =>
          obtain ⟨rfl, -⟩ := hi.endsOnce.end he
          exact h.hand_out_end ha rfl he rfl

/-- The announcement of the end is no text. -/
theorem text_announce (l : Link) :
    l.announce.events.filterMap LinkEvent.text? = l.events.filterMap LinkEvent.text? := by
  rw [Link.announce]
  split
  · rw [List.filterMap_append]
    exact List.append_nil _
  · rfl

/-- A text is read: it waits behind all others, or is dropped if the link has been closed. -/
theorem Incoming.take_in (h : w.Incoming texts) {text : String}
    (hhistory : w'.history = w.history) (hlink : w'.link = w.link.arrive text)
    (hopen : .received .closed ∉ w.history) : w'.Incoming (texts ++ [text]) := by
  have hhanded : w'.handedOut = w.handedOut := by
    rw [handedOut, hhistory, handedOut]
  refine ⟨?_, fun ha => ?_, fun hmem => absurd (hhistory ▸ hmem) hopen⟩
  · rw [hhanded]
    exact h.handedOut_initial.trans (List.prefix_append _ _)
  · rw [hlink, Link.active_arrive] at ha
    have hready : w'.ready = w.ready ++ [text] := by
      rw [ready, hlink, Link.arrive, if_pos ha, List.filterMap_append]
      rfl
    rw [hhanded, hready, ← List.append_assoc, ← h.ready_rest ha]

/-- A pump that has nothing to do on its turn reads nothing. -/
theorem reading_of_none {t : Turn} (h : w.link.pump t w.inbound w.outbound = none) :
    w.reading (.pump t) = [] := by
  cases t with
  | outgoing => rfl
  | incoming =>
    cases hp : w.link.pumping with
    | true => simp only [reading, hp, (Link.items_of_pump hp h).1]
    | false => simp only [reading, hp]

/-- **A step of the pump** puts what it reads behind what waits. -/
theorem incoming_pump (hi : w.Inv) (h : w.Incoming texts) (t : Turn) :
    (w.pump t).Incoming (texts ++ w.reading (.pump t)) := by
  cases hpump : w.link.pump t w.inbound w.outbound with
  | none =>
    have hsame : w.pump t = w := by
      rw [pump, hpump]
    rw [reading_of_none hpump, List.append_nil, hsame]
    exact h
  | some next =>
    obtain ⟨l, i, o⟩ := next
    obtain ⟨hp, hm⟩ := Link.pumps_of_pump hpump
    have hstep : w.pump t =
        { w with link := l, inbound := i, outbound := o }.record (l.sights w.outbound o) := by
      rw [pump, hpump]
    have hstop : ∀ {l : Link} {i o : Pipe}, l.active = w.link.active →
        l.events.filterMap LinkEvent.text? = w.ready →
        Incoming { w with link := l, inbound := i, outbound := o,
                          history := w.history ++ [.finished] } (texts ++ []) := by
      intro l i o ha hr
      rw [List.append_nil]
      exact h.of_quiet (l := [.finished]) rfl (by simp) (fun ha' => ⟨ha.symm.trans ha', hr⟩)
    rw [hstep]
    cases hm with
    | @send text rest commands reading =>
      have hsights := sights_put (l := { w.link with commands := rest }) hp w.outbound text
      show Incoming _ (texts ++ [])
      rw [List.append_nil]
      exact h.of_quiet (l := [.wrote text]) (congrArg (w.history ++ ·) hsights) (by simp)
        (fun ha => ⟨ha, rfl⟩)
    | @arrive f rest items =>
      have hp' := (Link.pumping_arrive w.link f.toText).trans hp
      have hhistory := congrArg (w.history ++ ·) (sights_same hp' w.outbound)
      have hopen : .received .closed ∉ w.history := fun hmem =>
        Bool.false_ne_true ((hi.spent hmem).1.symm.trans hp)
      have hreading : w.reading (.pump .incoming) = [f.toText] := by
        simp only [reading, hp, items]
      rw [hreading]
      exact h.take_in (hhistory.trans (List.append_nil _)) rfl hopen
    | refuse commands reading => exact hstop (Link.active_announce w.link) (text_announce w.link)
    | close commands => exact hstop rfl rfl
    | release commands held => exact hstop rfl rfl
    | fail items =>
      have hreading : w.reading (.pump .incoming) = [] := by
        simp only [reading, hp, items]
      rw [hreading]
      exact hstop (Link.active_announce w.link) (text_announce w.link)
    | finish items writing =>
      have hreading : w.reading (.pump .incoming) = [] := by
        simp only [reading, hp, items]
      rw [hreading]
      exact hstop (Link.active_announce w.link) (text_announce w.link)

/-- **Every act keeps the invariant of the way in.** -/
theorem incoming_act (hi : w.Inv) (h : w.Incoming texts) (a : TrafficAct) :
    (w.act a).Incoming (texts ++ w.reading a) := by
  have hnothing : ∀ {w' : Traffic}, w'.Incoming texts → w'.Incoming (texts ++ []) := by
    intro w' h'
    rwa [List.append_nil]
  cases a with
  | send text => exact hnothing (incoming_send h text)
  | close => exact hnothing (incoming_close h)
  | queue k => exact hnothing (incoming_queue h k)
  | poll => exact hnothing (incoming_poll h)
  | resume => exact hnothing (incoming_resume hi h)
  | pump t => exact incoming_pump hi h t
  | _ => exact hnothing (h.of_link rfl rfl rfl)

end Incoming

/-! ## The result -/

/-- A history only grows. -/
theorem history_act (w : Traffic) (a : TrafficAct) : w.history <+: (w.act a).history := by
  have hself : w.history <+: w.history := List.prefix_rfl
  cases a with
  | send text =>
    show _ <+: (w.send text).history
    rw [send]
    split <;> exact List.prefix_append _ _
  | close =>
    show _ <+: w.close.history
    rw [close]
    split
    · exact List.prefix_append _ _
    · exact hself
  | queue k =>
    show _ <+: (w.queue k).history
    rw [queue]
    split
    · exact hself
    · simp only
      split <;> exact List.prefix_append _ _
  | poll =>
    show _ <+: w.poll.history
    rw [poll]
    split
    · exact hself
    · exact List.prefix_append _ _
  | resume =>
    show _ <+: w.resume.history
    rw [resume]
    split
    · exact List.prefix_append _ _
    · exact hself
  | pump t =>
    show _ <+: (w.pump t).history
    rw [pump]
    split
    · exact List.prefix_append _ _
    · exact hself
  | _ => exact hself

theorem history_run (w : Traffic) (acts : List TrafficAct) : w.history <+: (w.run acts).history :=
  run_induction (P := fun w' => w.history <+: w'.history)
    (fun w' a h => h.trans (history_act w' a)) w List.prefix_rfl acts

/-- **A link delivers in order**, when the pump has read these texts. -/
structure Delivers (w : Traffic) (texts : List String) : Prop where
  /-- What the transport has been given are the first of the texts sent, in order. -/
  written_initial : w.written <+: w.sent
  /-- As long as the pump has not ended, the other texts sent are queued. -/
  queued_rest : w.link.pumping = true → w.sent = w.written ++ w.link.queued
  /-- A pump that takes a close ends, and everything that had been sent before the first close has been
  given to the transport; it stays so whatever follows. -/
  flushed : ∀ rest, w.link.pumping = true → w.link.commands = .close :: rest →
    (w.act (.pump .outgoing)).link.pumping = false ∧
      ∀ acts, (w.run (.pump .outgoing :: acts)).sentFirst <+: (w.run (.pump .outgoing :: acts)).written
  /-- What has been handed out are the first of the texts read, in order. -/
  handedOut_initial : w.handedOut <+: texts
  /-- As long as the link is open, the other texts read wait to be handed out. -/
  ready_rest : w.link.active = true → texts = w.handedOut ++ w.ready
  /-- When the end has been handed out, so has every text that was read. -/
  drained : .received .closed ∈ w.history → w.handedOut = texts

/-- A close that the pump is about to take stands behind everything that was sent before the first
close. -/
theorem Outgoing.flushed {w : Traffic} (h : w.Outgoing) {rest : List Command}
    (hp : w.link.pumping = true) (hc : w.link.commands = .close :: rest) (acts : List TrafficAct) :
    (w.run acts).sentFirst <+: (w.run acts).written := by
  have hmem : .close ∈ w.link.commands := hc ▸ List.mem_cons_self
  have hclosing : .closing ∈ w.history :=
    Decidable.byContradiction fun hno => (h.unclosed hno).1 hmem
  have hnone : w.queuedFirst = [] := by
    rw [queuedFirst, hc, List.takeWhile_cons_of_neg (by simp)]
    rfl
  have hfirst := h.first hclosing hp
  obtain ⟨l, hl⟩ := history_run w acts
  rw [hnone, List.append_nil] at hfirst
  rw [sentFirst_of_append hl.symm hclosing, written_of_append hl.symm]
  exact hfirst.trans (List.prefix_append _ _)

/-- **Every run of a link delivers in order, without loss or duplication**: whoever sends, closes and
takes events in whatever order, however the pump turns, and whatever the transport does. -/
theorem delivers_run (acts : List TrafficAct) :
    (({} : Traffic).run acts).Delivers (({} : Traffic).read acts) := by
  obtain ⟨-, hout, hin⟩ := read_induction
    (P := fun w texts => w.Inv ∧ w.Outgoing ∧ w.Incoming texts)
    (fun w texts a h => ⟨inv_act h.1 a, outgoing_act h.1 h.2.1 a, incoming_act h.1 h.2.2 a⟩)
    {} [] ⟨inv_start, outgoing_start, incoming_start⟩ acts
  refine ⟨hout.written_initial, hout.queued_rest, fun rest hp hc => ⟨?_, fun more => ?_⟩,
    hin.handedOut_initial, hin.ready_rest, hin.drained⟩
  · show (pump _ .outgoing).link.pumping = false
    rw [pump, Link.pump, if_pos hp]
    simp only [hc]
    rfl
  · exact hout.flushed hp hc (.pump .outgoing :: more)

end Traffic

end SessionMux
