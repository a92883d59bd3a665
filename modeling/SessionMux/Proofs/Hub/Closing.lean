import SessionMux.Proofs.Hub.Acts
import SessionMux.Proofs.Hub.Calls

/-!
# A hub that has been closed

Closing takes two steps, the link first and the table of replies after it, and others may act between
them. When both have been taken, whoever took them, the hub is closed for good. What it still does is to
wane: the pump sends what was queued before, calls end and leave their slots, ids are taken. But nothing
is delivered any more, no slot gets a reply, and nothing is queued.

A callback closes in one go, in the middle of a delivery. So a delivery that finds the link open never
leaves it closed with the table open behind it.

* `Outbox.IsShut`, `Outbox.Wanes` — the hub has been closed, and what becomes of its sending side.
* `Outbox.isShut_deliver` — a callback that closes has closed both.
* `World.Leftover`, `World.Final` — what may still happen, and what becomes of the world.
* **`final_perform`**, **`final_run`** — every act keeps to this, and so does every run.
* `World.Dead` — what no longer works.
* **`closed_run`** — so every close is final.
-/

namespace SessionMux

/-! ## The table of replies behind its closing -/

namespace Replies

/-- The reply that a slot holds. -/
def reply? (t : Replies) (s : Slot) : Option Event :=
  match t.slot? s with
  | some ⟨_, .reply e⟩ => some e
  | _ => none

section Closed

variable {t : Replies}

theorem Sound.awaited?_of_closed (h : t.Sound) (hcl : t.closed = true) (id : RequestId) :
    t.awaited? id = none := by
  rw [awaited?, h.closed_nil hcl]
  rfl

/-- No slot of a closed table is empty. -/
theorem Sound.content_ne_empty (h : t.Sound) (hcl : t.closed = true) {s : Slot} {st : SlotState}
    (hs : t.slot? s = some st) : st.content ≠ .empty := by
  obtain ⟨id, content⟩ := st
  rintro rfl
  have hentry := (h.entry_iff id s).mpr hs
  rw [h.awaited?_of_closed hcl] at hentry
  cases hentry

theorem Sound.closeAll_eq (h : t.Sound) (hcl : t.closed = true) : t.closeAll = t := by
  have hnil := h.closed_nil hcl
  cases t
  cases hcl
  cases hnil
  rfl

/-- Leaving a slot of a closed table takes away no other. -/
theorem Sound.reply?_leave (h : t.Sound) (hcl : t.closed = true) {s s' : Slot} {e : Event}
    (hreply : (t.leave s).2.reply? s' = some e) : t.reply? s' = some e := by
  cases hs : t.slot? s with
  | none =>
    rwa [leave_of_none hs] at hreply
  | some st =>
    have hnone : t.awaited? st.id = none := h.awaited?_of_closed hcl st.id
    rw [reply?, h.slot?_leave hs, h.settle_of_awaited?_none hnone] at hreply
    split at hreply
    · rename_i hslot
      split at hslot
      · cases hslot
      · rw [reply?, hslot]
        exact hreply
    · cases hreply

/-- **Behind the closing of the table every wait has come to its end**: with the reply that is there, or
else with nothing. -/
theorem Sound.outcome?_eq (h : t.Sound) (hcl : t.closed = true) (now : Nat) (w : Wait) :
    t.outcome? now w = some ((t.reply? w.slot).elim (.error .connectionClosed) .ok) := by
  rw [outcome?, reply?]
  cases hs : t.slot? w.slot with
  | none => rfl
  | some st =>
    obtain ⟨id, content⟩ := st
    cases content with
    | empty => exact absurd rfl (h.content_ne_empty hcl hs)
    | reply e => rfl
    | orphaned => rfl

end Closed

end Replies

/-! ## The sending side behind its closing -/

namespace Outbox

variable {τ : Type}

/-- Link and table of replies have been closed. -/
structure IsShut (b : Outbox τ) : Prop where
  inactive : b.link.active = false
  closed : b.replies.closed = true

section IsShut

variable {b : Outbox τ}

theorem enlist_of_closed (h : b.replies.closed = true) (kind : CallKind) (m : OutboundMessage)
    (now : Nat) : b.enlist kind m now = (.error .connectionClosed, b) := by
  rw [enlist, Replies.register_closed m.id h]

theorem call_of_closed (h : b.replies.closed = true) (kind : CallKind) (session : Option String)
    (r : Request) (now : Nat) :
    b.call kind session r now = (.error .connectionClosed, b.issue.2) := by
  rw [call]
  split
  rename_i id b₁ hissue
  have hb : b₁.replies.closed = true := by
    cases hissue
    exact h
  simp only [enlist_of_closed hb]
  rw [hissue]

theorem IsShut.closeLink_eq (h : b.IsShut) : b.closeLink = b := by
  rw [closeLink, Link.close_of_inactive h.inactive]

theorem IsShut.closeReplies_eq (h : b.IsShut) (hs : b.replies.Sound) : b.closeReplies = b := by
  rw [closeReplies, hs.closeAll_eq h.closed]

end IsShut

/-- `b'` comes of `b`, which has been closed, by what can still become of it. -/
structure Wanes (b b' : Outbox τ) : Prop where
  shut : b'.IsShut
  sound : b'.replies.Sound
  own_eq : b'.own = b.own
  /-- Nothing is queued. -/
  commands_suffix : b'.link.commands <:+ b.link.commands
  /-- No slot gets a reply. -/
  reply_of : ∀ s e, b'.replies.reply? s = some e → b.replies.reply? s = some e

section Wanes

variable {b b' b'' : Outbox τ}

theorem Wanes.refl (h : b.IsShut) (hs : b.replies.Sound) : Wanes b b :=
  ⟨h, hs, rfl, List.suffix_rfl, fun _ _ he => he⟩

theorem Wanes.trans (h : Wanes b b') (h' : Wanes b' b'') : Wanes b b'' where
  shut := h'.shut
  sound := h'.sound
  own_eq := h'.own_eq.trans h.own_eq
  commands_suffix := h'.commands_suffix.trans h.commands_suffix
  reply_of s e he := h.reply_of s e (h'.reply_of s e he)

theorem Wanes.issue (h : b.IsShut) (hs : b.replies.Sound) : Wanes b b.issue.2 :=
  ⟨⟨h.inactive, h.closed⟩, hs, rfl, List.suffix_rfl, fun _ _ he => he⟩

theorem Wanes.abandon (h : b.IsShut) (hs : b.replies.Sound) (c : Call) : Wanes b (b.abandon c) where
  shut := ⟨h.inactive, (Replies.closed_leave b.replies c.wait.slot).trans h.closed⟩
  sound := hs.leave c.wait.slot
  own_eq := rfl
  commands_suffix := List.suffix_rfl
  reply_of _ _ he := hs.reply?_leave h.closed he

/-- Of a link that stays closed commands are taken, and none is added. -/
theorem Wanes.of_link (h : b.IsShut) (hs : b.replies.Sound) {l : Link}
    (hactive : l.active = b.link.active) (hcommands : l.commands <:+ b.link.commands) :
    Wanes b { b with link := l } :=
  ⟨⟨hactive.trans h.inactive, h.closed⟩, hs, rfl, hcommands, fun _ _ he => he⟩

/-- **The pump** only takes commands. -/
theorem Wanes.pump (h : b.IsShut) (hs : b.replies.Sound) {l : Link} {i i' o o' : Pipe} {t : Turn}
    (hm : b.link.Pumps i o t l i' o') : Wanes b { b with link := l } := by
  refine Wanes.of_link h hs hm.active_eq ?_
  cases hm with
  | @send text rest commands reading =>
    rw [commands]
    exact List.suffix_cons _ rest
  | @arrive f rest items =>
    have hcommands : (b.link.arrive f.toText).commands = b.link.commands := by
      rw [Link.arrive_of_inactive h.inactive]
    exact ⟨[], hcommands⟩
  | _ => exact List.nil_suffix

end Wanes

/-! ### A close in the middle of a delivery -/

/-- An act of a callback leaves no table open behind a closed link. -/
theorem isShut_perform {b : Outbox τ} (h : b.link.active = false → b.IsShut) (a : HubAct τ)
    (ha : (Outbox.perform a b).2.link.active = false) : (Outbox.perform a b).2.IsShut := by
  cases a with
  | close => exact ⟨ha, rfl⟩
  | own f => exact ⟨ha, (h ha).closed⟩
  | send session r =>
    have hlater : b.Later (b.send session r).2 := Later.send b session r
    refine ⟨ha, ?_⟩
    show (b.send session r).2.replies.closed = true
    cases hb : b.link.active with
    | false =>
      rw [send_of_inactive hb]
      exact (h hb).closed
    | true =>
      -- sending does not close the link
      refine absurd ?_ (Bool.eq_false_iff.mp ha)
      show (b.send session r).2.link.active = true
      rw [Outbox.send]
      split
      rename_i id b₁ hissue
      cases hissue
      split
      · rename_i b₂ ht
        obtain ⟨text, rfl⟩ := transmit_ok ht
        exact hb
      · exact hb

theorem isShut_publish {h : Hub τ} (hactive : h.isActive = true) (e : HookEvent)
    (ha : (h.publish e).2.isActive = false) : (h.publish e).2.outbox.IsShut := by
  have hstart : h.outbox.link.active = false → h.outbox.IsShut := fun hinactive =>
    absurd (hinactive.symm.trans hactive) Bool.false_ne_true
  exact Scene.surroundings_dispatch (fun b : Outbox τ => b.link.active = false → b.IsShut)
    (fun a b hb => isShut_perform hb a) (fun d => Empty.elim d) _ _ _ hstart ha

/-- **A delivery in which the link is closed** has closed the table too. -/
theorem isShut_deliver {h : Hub τ} (hactive : h.isActive = true) (m : InboundMessage)
    (ha : (h.deliver m).2.isActive = false) : (h.deliver m).2.outbox.IsShut := by
  have hstay : ∀ {P : Prop}, h.isActive = false → P := fun hinactive =>
    absurd (hinactive.symm.trans hactive) Bool.false_ne_true
  revert ha
  rw [Hub.deliver]
  split
  rename_i taken replies _
  simp only
  split
  · exact hstay
  · split
    · rename_i e _
      let h' : Hub τ := { h with outbox := { h.outbox with replies := replies } }
      exact isShut_publish (h := h') hactive e
    · exact hstay

end Outbox

/-! ## The table of replies stays sound -/

/-- Registering keeps the table sound, whatever the ids. -/
theorem Outbox.sound_enlist {τ : Type} {b : Outbox τ} (h : b.replies.Sound) (kind : CallKind)
    (m : OutboundMessage) (now : Nat) : (b.enlist kind m now).2.replies.Sound := by
  rw [Outbox.enlist]
  cases hcl : b.replies.closed with
  | true =>
    rw [Replies.register_closed _ hcl]
    exact h
  | false =>
    rw [Replies.register_open _ hcl]
    exact Replies.Sound.registered h _ hcl

theorem Hub.Moves.sound {τ : Type} {h h' : Hub τ} {now : Nat} {n : List Notice}
    (hm : Hub.Moves now h n h') (hs : h.outbox.replies.Sound) : h'.outbox.replies.Sound := by
  rcases hm.keeps_or_deliver with ⟨hkeeps, -⟩ | ⟨m, -, rfl⟩
  · exact World.sound_of_keeps hs hkeeps
  · exact World.sound_of_keeps (hs.hear m) (Hub.later_deliver h m).keeps

/-! ## The inbound task behind a close -/

/-- **A step of the inbound task** of a hub that has been closed delivers nothing. -/
theorem Hub.Moves.wanes {τ : Type} {h h' : Hub τ} {now : Nat} {n : List Notice}
    (hm : Hub.Moves now h n h') (hshut : h.outbox.IsShut) (hs : h.outbox.replies.Sound) :
    h.outbox.Wanes h'.outbox ∧ ∀ m calls, .delivered m calls ∉ n := by
  have hrefl := Outbox.Wanes.refl hshut hs
  have hevents : ∀ rest, h.outbox.Wanes
      { h.outbox with link := { h.outbox.link with events := rest } } := fun rest =>
    Outbox.Wanes.of_link hshut hs rfl List.suffix_rfl
  have hnil : ∀ m calls, Notice.delivered m calls ∉ [] := fun m calls => List.not_mem_nil
  cases hm with
  | receive phase events active => exact ⟨hevents _, hnil⟩
  | hear phase events active => exact ⟨hevents _, hnil⟩
  | suppress phase events inactive => exact ⟨hevents _, hnil⟩
  | decode phase due => exact ⟨hrefl, by simp⟩
  | deliver phase active => exact absurd (hshut.inactive.symm.trans active) Bool.false_ne_true
  | shut phase =>
    rw [hshut.closeReplies_eq hs]
    exact ⟨hrefl, hnil⟩
  | _ => exact ⟨hrefl, hnil⟩

namespace World

variable {τ : Type}

/-! ## The world behind a close -/

/-- What may still happen behind a close of `w`. -/
inductive Leftover (w : World τ) : Happening → Prop where
  /-- A call that had registered finds that it cannot send. -/
  | unsent (id : RequestId) : Leftover w (.unsent id .connectionClosed)
  | failed (id : RequestId) : Leftover w (.ended id (.error .connectionClosed))
  /-- A call ends whose reply was there before the close. -/
  | answered {id : RequestId} {q : Inquiry} {c : Call} {e : Event}
      (waiting : w.callers.lookup id = some ⟨q, .waiting c⟩)
      (reply : w.replies.reply? c.wait.slot = some e) :
      Leftover w (.ended id (c.kind.result c.wait.label (.ok e)))
  | abandoned (id : RequestId) : Leftover w (.abandoned id)
  /-- The transport refuses a text that was queued before the close. -/
  | refused : Leftover w .refused

/-- `w'` comes of `w`, which has been closed, by what can still become of it. -/
structure Final (w w' : World τ) : Prop where
  wanes : w.hub.outbox.Wanes w'.hub.outbox
  /-- No call begins to wait. -/
  waiting_of : ∀ id q c, w'.callers.lookup id = some ⟨q, .waiting c⟩ →
    w.callers.lookup id = some ⟨q, .waiting c⟩
  /-- Nothing happens but what was left over. -/
  history_eq : ∃ l, w'.history = w.history ++ l ∧ ∀ x ∈ l, w.Leftover x

section Final

variable {w w' w'' : World τ}

theorem Leftover.of_final {x : Happening} (hx : w'.Leftover x) (h : Final w w') : w.Leftover x := by
  cases hx with
  | unsent id => exact .unsent id
  | failed id => exact .failed id
  | answered waiting reply =>
    exact .answered (h.waiting_of _ _ _ waiting) (h.wanes.reply_of _ _ reply)
  | abandoned id => exact .abandoned id
  | refused => exact .refused

theorem Final.trans (h : Final w w') (h' : Final w' w'') : Final w w'' where
  wanes := h.wanes.trans h'.wanes
  waiting_of id q c hw := h.waiting_of id q c (h'.waiting_of id q c hw)
  history_eq := by
    obtain ⟨l, hl, hleft⟩ := h.history_eq
    obtain ⟨l', hl', hleft'⟩ := h'.history_eq
    refine ⟨l ++ l', by rw [hl', hl, List.append_assoc], fun x hx => ?_⟩
    exact (List.mem_append.mp hx).elim (hleft x) fun hx => (hleft' x hx).of_final h

/-- Nothing happens, and the calls stay where they are. -/
theorem Final.of_wanes (h : w.hub.outbox.Wanes w'.hub.outbox) (hcallers : w'.callers = w.callers)
    (hhistory : w'.history = w.history) : Final w w' where
  wanes := h
  waiting_of id q c hw := by rwa [hcallers] at hw
  history_eq := ⟨[], by rw [hhistory, List.append_nil], fun x hx => absurd hx List.not_mem_nil⟩

/-- Something happens that was left over. -/
theorem Final.record (h : Final w w') {l : List Happening} (hl : ∀ x ∈ l, w.Leftover x) :
    Final w (w'.record l) where
  wanes := h.wanes
  waiting_of := h.waiting_of
  history_eq := by
    obtain ⟨l', hl', hleft⟩ := h.history_eq
    refine ⟨l' ++ l, ?_, fun x hx => (List.mem_append.mp hx).elim (hleft x) (hl x)⟩
    show w'.history ++ l = _
    rw [hl', List.append_assoc]

/-- A call goes on, but not to wait. -/
theorem Final.goOn (h : Final w w') (id : RequestId) (stage : Stage)
    (hstage : ∀ c, stage ≠ .waiting c) : Final w (w'.goOn id stage) where
  wanes := h.wanes
  waiting_of id' q c hw := by
    rw [lookup_goOn] at hw
    split at hw
    · obtain ⟨caller, -, hcaller⟩ := Option.map_eq_some_iff.mp hw
      cases hcaller
      exact absurd rfl (hstage c)
    · exact h.waiting_of id' q c hw
  history_eq := h.history_eq

theorem Final.dismiss (h : Final w w') (id : RequestId) : Final w (w'.dismiss id) where
  wanes := h.wanes
  waiting_of id' q c hw := by
    rw [lookup_dismiss] at hw
    split at hw
    · cases hw
    · exact h.waiting_of id' q c hw
  history_eq := h.history_eq

end Final

/-! ## Every act -/

section Acts

variable {w : World τ}

theorem Final.refl (h : w.hub.outbox.IsShut) (hs : w.replies.Sound) : Final w w :=
  .of_wanes (.refl h hs) rfl rfl

theorem final_draw (h : w.hub.outbox.IsShut) (hs : w.replies.Sound) (q : Inquiry) :
    Final w (w.draw q) where
  wanes := .issue h hs
  waiting_of id q' c hw := by
    have hcallers : (w.draw q).callers = w.callers ++ [(w.hub.outbox.nextId, ⟨q, .drawn⟩)] := rfl
    rw [hcallers, List.lookup_append, lookup_cons_if, List.lookup_nil] at hw
    rcases Option.or_eq_some_iff.mp hw with hold | ⟨-, hnew⟩
    · exact hold
    · split at hnew <;> cases hnew
  history_eq := ⟨[], (List.append_nil _).symm, fun x hx => absurd hx List.not_mem_nil⟩

theorem final_register (h : w.hub.outbox.IsShut) (hs : w.replies.Sound) (id : RequestId) :
    Final w (w.register id) := by
  have hrefl : Final w w := .refl h hs
  rw [register]
  split
  · rw [Outbox.enlist_of_closed h.closed]
    exact (hrefl.dismiss id).record (List.forall_mem_singleton.mpr (.failed id))
  · exact hrefl

theorem final_send (h : w.hub.outbox.IsShut) (hs : w.replies.Sound) (id : RequestId) :
    Final w (w.send id) := by
  have hrefl : Final w w := .refl h hs
  rw [send]
  split
  · rename_i q c _
    rw [Outbox.transmit_of_inactive h.inactive]
    refine (hrefl.goOn id (.departing c) (by simp)).record ?_
    exact List.forall_mem_cons.mpr ⟨.unsent id, List.forall_mem_singleton.mpr (.failed id)⟩
  · exact hrefl

/-- A call ends with the reply that was there, or with nothing. -/
theorem final_conclude (h : w.hub.outbox.IsShut) (hs : w.replies.Sound) (id : RequestId) :
    Final w (w.conclude id) := by
  have hrefl : Final w w := .refl h hs
  rw [conclude]
  split
  · rename_i q c hlook
    have hgo := hrefl.goOn id (.departing c) (by simp)
    split
    · rename_i r hr
      refine hgo.record (List.forall_mem_singleton.mpr ?_)
      have hout : w.hub.outbox.replies.outcome? w.now c.wait = _ := hs.outcome?_eq h.closed w.now c.wait
      rw [Outbox.outcome?, hout] at hr
      cases hreply : w.replies.reply? c.wait.slot with
      | some e =>
        rw [hreply] at hr
        cases hr
        exact .answered hlook hreply
      | none =>
        rw [hreply] at hr
        cases hr
        exact .failed id
    · exact hrefl
  · exact hrefl

theorem final_abandon (h : w.hub.outbox.IsShut) (hs : w.replies.Sound) (id : RequestId) :
    Final w (w.abandon id) := by
  have hrefl : Final w w := .refl h hs
  rw [abandon]
  split
  · rename_i q c _
    exact (hrefl.goOn id (.departing c) (by simp)).record
      (List.forall_mem_singleton.mpr (.abandoned id))
  · exact hrefl

theorem final_leave (h : w.hub.outbox.IsShut) (hs : w.replies.Sound) (id : RequestId) :
    Final w (w.leave id) := by
  rw [leave]
  split
  · rename_i q c _
    have hbase : Final w (w.withOutbox (w.hub.outbox.abandon c)) :=
      .of_wanes (.abandon h hs c) rfl rfl
    exact hbase.dismiss id
  · exact .refl h hs

theorem final_inbound (h : w.hub.outbox.IsShut) (hs : w.replies.Sound) : Final w w.inbound := by
  rw [inbound]
  split
  · rename_i notices hub hstep
    obtain ⟨hwanes, hnone⟩ := (Hub.moves_of_step? hstep).wanes h hs
    have hbase : Final w { w with hub := hub } := .of_wanes hwanes rfl rfl
    refine hbase.record fun x hx => ?_
    obtain ⟨notice, hmem, hx⟩ := List.mem_filterMap.mp hx
    cases notice with
    | decoded r => cases hx
    | delivered m calls => exact absurd hmem (hnone m calls)
  · exact .refl h hs

theorem final_pump (h : w.hub.outbox.IsShut) (hs : w.replies.Sound) (t : Turn) :
    Final w (w.pump t) := by
  rw [pump]
  split
  · rename_i l i o hpump
    have hbase : Final w
        { w.withOutbox { w.hub.outbox with link := l } with toHub := i, toHost := o } :=
      .of_wanes (.pump h hs (Link.pumps_of_pump hpump).2) rfl rfl
    simp only
    split
    · exact hbase.record (List.forall_mem_singleton.mpr .refused)
    · exact hbase
  · exact .refl h hs

/-- **Every act** of a world that has been closed. -/
theorem final_perform (h : w.hub.outbox.IsShut) (hs : w.replies.Sound) (a : Act τ) :
    Final w (w.perform a) := by
  have hrefl : Final w w := .refl h hs
  cases a with
  | draw q => exact final_draw h hs q
  | register id => exact final_register h hs id
  | send id => exact final_send h hs id
  | conclude id => exact final_conclude h hs id
  | abandon id => exact final_abandon h hs id
  | leave id => exact final_leave h hs id
  | tell session r =>
    refine .of_wanes ?_ rfl rfl
    show w.hub.outbox.Wanes (w.hub.outbox.send session r).2
    rw [Outbox.send_of_inactive h.inactive]
    exact .issue h hs
  | closeLink =>
    show Final w (w.withOutbox w.hub.outbox.closeLink)
    rw [h.closeLink_eq]
    exact hrefl
  | closeReplies =>
    show Final w (if w.hub.isActive then w else w.withOutbox w.hub.outbox.closeReplies)
    rw [h.closeReplies_eq hs]
    exact (ite_self (c := w.hub.isActive = true) w).symm ▸ hrefl
  | inbound => exact final_inbound h hs
  | pump t => exact final_pump h hs t
  | _ => exact .of_wanes (.refl h hs) rfl rfl

/-- The closing of a table that is closed already is not noted again. -/
theorem act_eq_perform (hcl : w.replies.closed = true) (a : Act τ) : w.act a = w.perform a := by
  rw [act, hcl, Bool.not_true, Bool.and_false]
  exact if_neg Bool.false_ne_true

theorem final_act (h : w.hub.outbox.IsShut) (hs : w.replies.Sound) (a : Act τ) :
    Final w (w.act a) := by
  rw [act_eq_perform h.closed]
  exact final_perform h hs a

/-- **Every run.** -/
theorem final_run (h : w.hub.outbox.IsShut) (hs : w.replies.Sound) (more : List (Act τ)) :
    Final w (w.run more) :=
  run_induction (P := Final w)
    (fun _ a hf => hf.trans (final_act hf.wanes.shut hf.wanes.sound a)) w (.refl h hs) more

end Acts

/-! ## Every run up to a close -/

section Runs

variable {w : World τ}

theorem sound_register (h : w.replies.Sound) (id : RequestId) : (w.register id).replies.Sound := by
  rw [register]
  split
  · rename_i q _
    have hsound := Outbox.sound_enlist h q.kind (q.message id) w.now
    split <;>
      · rename_i hb
        rw [hb] at hsound
        exact hsound
  · exact h

/-- Every act keeps the table of replies sound, whatever the ids. -/
theorem sound_perform (h : w.replies.Sound) (a : Act τ) : (w.perform a).replies.Sound := by
  cases a with
  | register id => exact sound_register h id
  | send id =>
    show (w.send id).replies.Sound
    rw [send]
    split
    · split
      · rename_i b hb
        exact sound_of_keeps h (Outbox.Later.transmit hb).keeps
      · exact h
    · exact h
  | conclude id =>
    show (w.conclude id).replies.Sound
    rw [conclude]
    split
    · split <;> exact h
    · exact h
  | abandon id =>
    show (w.abandon id).replies.Sound
    rw [abandon]
    split <;> exact h
  | leave id =>
    show (w.leave id).replies.Sound
    rw [leave]
    split
    · exact Replies.Sound.leave h _
    · exact h
  | tell session r => exact sound_of_keeps h (Outbox.Later.send w.hub.outbox session r).keeps
  | closeReplies =>
    show (if w.hub.isActive then w else w.withOutbox w.hub.outbox.closeReplies).replies.Sound
    split
    · exact h
    · exact Replies.Sound.closeAll h
  | inbound =>
    show w.inbound.replies.Sound
    rw [inbound]
    split
    · rename_i hs
      exact (Hub.moves_of_step? hs).sound h
    · exact h
  | pump t =>
    show (w.pump t).replies.Sound
    rw [pump]
    split
    · simp only
      split <;> exact h
    · exact h
  | _ => exact h

theorem sound_run (h : w.replies.Sound) (acts : List (Act τ)) : (w.run acts).replies.Sound := by
  refine run_induction (P := fun w => w.replies.Sound) (fun w a h => ?_) w h acts
  rw [replies, hub_act]
  exact sound_perform h a

/-- Whoever closes the link, and the table after it, has closed the hub, whatever others do
meanwhile. -/
theorem isShut_closeReplies (w : World τ) (acts : List (Act τ)) :
    (((w.act .closeLink).run acts).act .closeReplies).hub.outbox.IsShut := by
  have hlink : (w.act .closeLink).hub.isActive = false := by
    rw [hub_act]
    exact Link.active_close w.hub.outbox.link
  have hinactive : ((w.act .closeLink).run acts).hub.isActive = false := by
    refine Bool.eq_false_iff.mpr fun ha => ?_
    exact Bool.false_ne_true (hlink.symm.trans (active_of_run acts ha))
  generalize (w.act .closeLink).run acts = w' at hinactive ⊢
  rw [hub_act]
  show (if w'.hub.isActive then w' else _).hub.outbox.IsShut
  rw [hinactive]
  exact ⟨hinactive, rfl⟩

/-- A step of the inbound task in which the link is closed has closed the hub. -/
theorem isShut_inbound (hactive : w.hub.isActive = true) (ha : w.inbound.hub.isActive = false) :
    w.inbound.hub.outbox.IsShut := by
  revert ha
  rw [inbound]
  split
  · rename_i hs
    intro ha
    cases Hub.moves_of_step? hs with
    | @deliver m phase active => exact Outbox.isShut_deliver active m ha
    | _ => exact absurd (ha.symm.trans hactive) Bool.false_ne_true
  · exact fun ha => absurd (ha.symm.trans hactive) Bool.false_ne_true

end Runs

/-! ## The result -/

/-- **What no longer works** in a world that has been closed. -/
structure Dead (w : World τ) : Prop where
  /-- Whenever the inbound task goes on, it delivers nothing: no subscriber is called, and no call gets a
  reply. -/
  undelivered : ∀ now n h, w.hub.step? now = some (n, h) → ∀ m calls, .delivered m calls ∉ n
  /-- A call that has no reply has failed, whenever it looks. -/
  outcome?_eq : ∀ now c, w.replies.reply? c.wait.slot = none →
    w.hub.outbox.outcome? now c = some (.error .connectionClosed)
  /-- A call that has taken its id cannot register. -/
  enlist_eq : ∀ kind m now,
    w.hub.outbox.enlist kind m now = (.error .connectionClosed, w.hub.outbox)
  /-- A call that has registered cannot send. -/
  transmit_eq : ∀ m, w.hub.outbox.transmit m = .error .connectionClosed
  /-- A call that begins does nothing but take an id, and so does a request without a reply. -/
  call_eq : ∀ kind session r now,
    w.hub.outbox.call kind session r now = (.error .connectionClosed, w.hub.outbox.issue.2)
  send_eq : ∀ session r,
    w.hub.outbox.send session r = (.error .connectionClosed, w.hub.outbox.issue.2)
  /-- Closing once more changes nothing, in one go or in two. -/
  close_eq : w.hub.close = w.hub
  closeLink_eq : w.act .closeLink = w
  closeReplies_eq : w.act .closeReplies = w

/-- **A world has been closed for good**: whatever is done, only what was left over happens, and nothing
works. -/
structure IsFinal (w : World τ) : Prop where
  final : ∀ more, Final w (w.run more)
  dead : ∀ more, (w.run more).Dead

section Result

variable {w : World τ}

theorem dead_of_isShut (h : w.hub.outbox.IsShut) (hs : w.replies.Sound) : w.Dead where
  undelivered now n hub hstep := ((Hub.moves_of_step? hstep).wanes h hs).2
  outcome?_eq now c hnone := by
    have hout : w.hub.outbox.replies.outcome? now c.wait = _ := hs.outcome?_eq h.closed now c.wait
    rw [Outbox.outcome?, hout, hnone]
    rfl
  enlist_eq := Outbox.enlist_of_closed h.closed
  transmit_eq := Outbox.transmit_of_inactive h.inactive
  call_eq := Outbox.call_of_closed h.closed
  send_eq := Outbox.send_of_inactive h.inactive
  close_eq := by
    rw [Hub.close, Outbox.close, h.closeLink_eq, h.closeReplies_eq hs]
  closeLink_eq := by
    rw [act_eq_perform h.closed]
    show w.withOutbox w.hub.outbox.closeLink = w
    rw [h.closeLink_eq]
    rfl
  closeReplies_eq := by
    rw [act_eq_perform h.closed]
    show (if w.hub.isActive then w else w.withOutbox w.hub.outbox.closeReplies) = w
    rw [h.closeReplies_eq hs]
    exact ite_self w

theorem isFinal_of_isShut (h : w.hub.outbox.IsShut) (hs : w.replies.Sound) : w.IsFinal where
  final := final_run h hs
  dead more :=
    have hwanes := (final_run h hs more).wanes
    dead_of_isShut hwanes.shut hwanes.sound

end Result

/-- **Every close is final**: one that takes its two steps while others act, and one that a callback
makes in the middle of a delivery. -/
theorem closed_run (options : HubOptions) (own : τ) (latencies : List Nat) (acts : List (Act τ)) :
    let w := (start options own latencies).run acts
    (∀ meanwhile, (((w.act .closeLink).run meanwhile).act .closeReplies).IsFinal) ∧
      (w.hub.isActive = true → (w.act .inbound).hub.isActive = false →
        (w.act .inbound).IsFinal) := by
  have hsound : ∀ acts, ((start options own latencies).run acts).replies.Sound :=
    sound_run Replies.sound_empty
  intro w
  constructor
  · intro meanwhile
    refine isFinal_of_isShut (isShut_closeReplies w meanwhile) ?_
    have hrun : ((w.act .closeLink).run meanwhile).act .closeReplies =
        (start options own latencies).run (acts ++ .closeLink :: (meanwhile ++ [.closeReplies])) := by
      rw [run_append]
      exact (run_concat (w.act .closeLink) meanwhile .closeReplies).symm
    rw [hrun]
    exact hsound _
  · intro hactive ha
    have hshut : (w.act .inbound).hub.outbox.IsShut := by
      rw [hub_act] at ha ⊢
      exact isShut_inbound hactive ha
    refine isFinal_of_isShut hshut ?_
    have hrun := hsound (acts ++ [.inbound])
    rwa [run_concat] at hrun

/-- A ping is out, and a subscriber closes the hub when the shell shows its prompt. -/
theorem closed_run_prompt :
    let hook : InboundMessage := ⟨some "s", none, .hook (.prompt ⟨none⟩)⟩
    let line := (Envelope.pack .none .zero hook).toLine.push '\n'
    let acts : List (Act Unit) := [.subscribe .prompt fun _ => .act .close fun _ => .done,
      .draw .ping, .register ⟨1⟩, .send ⟨1⟩, .arrive (.frame (.text line)), .pump .incoming,
      .inbound, .inbound, .inbound, .inbound]
    let w := (start {} () []).run acts
    (w.hub.isActive = true ∧ (w.act .inbound).hub.isActive = false) ∧
      (w.act .inbound).IsFinal ∧
      ((w.act .inbound).act (.conclude ⟨1⟩)).history =
        [.registered ⟨1⟩ .ping, .delivered hook, .closed, .ended ⟨1⟩ (.error .connectionClosed)] := by
  intro hook line acts w
  have hrun : (w.hub.isActive = true ∧ (w.act .inbound).hub.isActive = false) ∧
      ((w.act .inbound).act (.conclude ⟨1⟩)).history =
        [.registered ⟨1⟩ .ping, .delivered hook, .closed,
          .ended ⟨1⟩ (.error .connectionClosed)] := by
    decide +kernel +revert
  exact ⟨hrun.1, (closed_run {} () [] acts).2 hrun.1.1 hrun.1.2, hrun.2⟩

end World

end SessionMux
