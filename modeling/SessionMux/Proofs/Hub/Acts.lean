import SessionMux.Proofs.Hub.World

/-!
# What an act can come to

Most acts in a world have nothing to do with what comes in: they are aside of it. The others close
the hub, are a step of the inbound task or of the pump, or put something in. This is said once for
all acts, so that whoever asks only for a few things about them need not take the acts apart again.

* `Outbox.Still`, `Aside` — what acts aside do to the sending side, and to the world.
* **`effect_perform`** — every act comes to one of a few effects.
* `Effect.history_eq`, `Effect.issued_le`, `Effect.active_of`, `Effect.closed_of` — what follows for
  every act.
* `noted_act`, `closed_of_mem_act` — the closing of the table is noted, and nothing else as such.
-/

namespace SessionMux

/-! ## Deliveries -/

/-- The message that is delivered, if it is this that happens. -/
def Happening.message? : Happening → Option InboundMessage
  | .delivered m => some m
  | _ => none

/-- The messages that have been delivered, in order. -/
def delivered (history : List Happening) : List InboundMessage :=
  history.filterMap Happening.message?

theorem delivered_append (h l : List Happening) : delivered (h ++ l) = delivered h ++ delivered l :=
  List.filterMap_append

/-! ## What callers and callbacks leave alone -/

namespace Outbox

variable {τ : Type} {b b' : Outbox τ}

/-- `b'` comes of `b` by what callers and callbacks do, and by what calls do to the table of replies
without closing it. -/
def Still (b b' : Outbox τ) : Prop :=
  ∃ t : Replies, t.closed = b.replies.closed ∧ Later { b with replies := t } b'

theorem Later.still (h : Later b b') : Still b b' := ⟨b.replies, rfl, h⟩

theorem Still.refl (b : Outbox τ) : Still b b := (Later.refl b).still

theorem Still.of_closed_eq {t : Replies} (h : t.closed = b.replies.closed) :
    Still b { b with replies := t } := ⟨t, h, Later.refl _⟩

theorem Still.events_eq (h : Still b b') : b'.link.events = b.link.events := by
  obtain ⟨t, -, hlater⟩ := h
  exact hlater.events_eq

theorem Still.pumping_eq (h : Still b b') : b'.link.pumping = b.link.pumping := by
  obtain ⟨t, -, hlater⟩ := h
  exact hlater.pumping_eq

theorem Still.issued_le (h : Still b b') : b.issued ≤ b'.issued := by
  obtain ⟨t, -, hlater⟩ := h
  exact hlater.issued_le

theorem Still.active_of (h : Still b b') (ha : b'.link.active = true) : b.link.active = true := by
  obtain ⟨t, -, hlater⟩ := h
  exact hlater.active_of ha

/-- Only a local close closes the table. -/
theorem Still.closed_eq (h : Still b b') (ha : b'.link.active = true) :
    b'.replies.closed = b.replies.closed := by
  obtain ⟨t, ht, hlater⟩ := h
  rcases hlater.replies_eq with heq | ⟨-, hinactive⟩
  · rw [heq, ← ht]
  · exact absurd (hinactive.symm.trans ha) Bool.false_ne_true

theorem Still.closed_of (h : Still b b') (hcl : b.replies.closed = true) :
    b'.replies.closed = true := by
  obtain ⟨t, ht, hlater⟩ := h
  exact hlater.keeps.closed_of (ht.trans hcl)

theorem Still.issue (b : Outbox τ) : Still b b.issue.2 := (Later.issue b).still

theorem Still.enlist (b : Outbox τ) (kind : CallKind) (m : OutboundMessage) (now : Nat) :
    Still b (b.enlist kind m now).2 := by
  rw [Outbox.enlist]
  split
  · rename_i slot t hreg
    exact Still.of_closed_eq (Replies.closed_register hreg)
  · exact Still.refl b

theorem Still.abandon (b : Outbox τ) (c : Call) : Still b (b.abandon c) :=
  Still.of_closed_eq (Replies.closed_leave b.replies c.wait.slot)

/-- A delivery leaves alone what it does not tell a call. -/
theorem Still.deliver (h : Hub τ) (m : InboundMessage) : Still h.outbox (h.deliver m).2.outbox :=
  ⟨h.outbox.replies.hear m, Replies.closed_hear h.outbox.replies m, Hub.later_deliver h m⟩

end Outbox

theorem Hub.Moves.active_of {τ : Type} {h h' : Hub τ} {now : Nat} {n : List Notice}
    (hm : Hub.Moves now h n h') (ha : h'.isActive = true) : h.isActive = true := by
  cases hm with
  | @deliver m phase active => exact active
  | _ => exact ha

/-- The host puts nothing in, and does not finish. -/
def Act.isSilent {τ : Type} : Act τ → Bool
  | .arrive _ | .hostFinish => false
  | _ => true

namespace World

variable {τ : Type}

/-! ## Acts aside -/

/-- From `w` to `w'` nothing has gone on that the way in could notice. -/
structure Aside (w w' : World τ) : Prop where
  still : w.hub.outbox.Still w'.hub.outbox
  phase_eq : w'.hub.phase = w.hub.phase
  inlet_eq : w'.hub.inlet = w.hub.inlet
  toHub_eq : w'.toHub = w.toHub
  history_eq : ∃ l, w'.history = w.history ++ l ∧ .closed ∉ l ∧ delivered l = []

/-- Most of it is to be seen at once. -/
theorem Aside.of_still {w w' : World τ} (h : w.hub.outbox.Still w'.hub.outbox)
    (hphase : w'.hub.phase = w.hub.phase) (hinlet : w'.hub.inlet = w.hub.inlet)
    (htoHub : w'.toHub = w.toHub) (hhistory : w'.history = w.history) : Aside w w' :=
  ⟨h, hphase, hinlet, htoHub, [], by rw [hhistory, List.append_nil], List.not_mem_nil, rfl⟩

theorem aside_goOn (w : World τ) (id : RequestId) (stage : Stage) : Aside w (w.goOn id stage) :=
  .of_still (.refl _) rfl rfl rfl rfl

theorem Aside.refl (w : World τ) : Aside w w :=
  .of_still (.refl _) rfl rfl rfl rfl

/-- What is recorded is neither a delivery nor the closing of the table. -/
theorem Aside.record {w w' : World τ} (h : Aside w w') {l : List Happening} (hcl : .closed ∉ l)
    (hl : delivered l = []) : Aside w (w'.record l) := by
  obtain ⟨l', heq, hcl', hl'⟩ := h.history_eq
  refine ⟨h.still, h.phase_eq, h.inlet_eq, h.toHub_eq, l' ++ l, ?_, ?_, ?_⟩
  · show w'.history ++ l = _
    rw [heq, List.append_assoc]
  · exact fun hmem => (List.mem_append.mp hmem).elim hcl' hcl
  · rw [delivered_append, hl', hl]
    rfl

section Callers

variable (w : World τ) (id : RequestId)

theorem aside_register : Aside w (w.register id) := by
  rw [register]
  split
  · rename_i q _
    have hstill := Outbox.Still.enlist w.hub.outbox q.kind (q.message id) w.now
    split
    · rename_i c b hb
      rw [hb] at hstill
      have hbase : Aside w ((w.withOutbox b).goOn id (.registered c)) :=
        .of_still hstill rfl rfl rfl rfl
      exact hbase.record (by simp) rfl
    · rename_i f b hb
      rw [hb] at hstill
      have hbase : Aside w ((w.withOutbox b).dismiss id) :=
        .of_still hstill rfl rfl rfl rfl
      exact hbase.record (by simp) rfl
  · exact Aside.refl w

theorem aside_send : Aside w (w.send id) := by
  rw [send]
  split
  · split
    · rename_i b hb
      exact .of_still (Outbox.Later.transmit hb).still rfl rfl rfl rfl
    · exact (aside_goOn w id _).record (by simp) rfl
  · exact Aside.refl w

theorem aside_conclude : Aside w (w.conclude id) := by
  rw [conclude]
  split
  · split
    · exact (aside_goOn w id _).record (by simp) rfl
    · exact Aside.refl w
  · exact Aside.refl w

theorem aside_abandon : Aside w (w.abandon id) := by
  rw [abandon]
  split
  · exact (aside_goOn w id _).record (by simp) rfl
  · exact Aside.refl w

theorem aside_leave : Aside w (w.leave id) := by
  rw [leave]
  split
  · exact .of_still (.abandon _ _) rfl rfl rfl rfl
  · exact Aside.refl w

end Callers

/-! ## All acts -/

/-- **What an act can come to.** -/
inductive Effect (w : World τ) : Act τ → World τ → Prop where
  /-- Nothing that the way in could notice. -/
  | aside {a : Act τ} {w' : World τ} (silent : a.isSilent = true) (aside : Aside w w') : Effect w a w'
  /-- The hub is closed from its own side. -/
  | close {a : Act τ} {b : Outbox τ} (silent : a.isSilent = true) (inactive : b.link.active = false)
      (keeps : w.hub.outbox.Keeps b) : Effect w a (w.withOutbox b)
  /-- The inbound task takes a step. -/
  | inbound {n : List Notice} {h : Hub τ} (moves : Hub.Moves w.now w.hub n h) :
      Effect w .inbound ({ w with hub := h }.record (n.filterMap Notice.happening?))
  /-- The pump takes a step, and no text is refused. -/
  | pump {t : Turn} {l : Link} {i o : Pipe} (pumping : w.hub.outbox.link.pumping = true)
      (pumps : w.hub.outbox.link.Pumps w.toHub w.toHost t l i o)
      (taken : ¬ (t = .outgoing ∧ w.hub.outbox.link.isRefused w.toHost = true)) :
      Effect w (.pump t)
        { w.withOutbox { w.hub.outbox with link := l } with toHub := i, toHost := o }
  /-- A text is refused. -/
  | refuse {t : Turn} {l : Link} {i o : Pipe}
      (pumps : w.hub.outbox.link.Pumps w.toHub w.toHost t l i o) :
      Effect w (.pump t) ({ w.withOutbox { w.hub.outbox with link := l } with
        toHub := i, toHost := o }.record [.refused])
  /-- The host puts something in. -/
  | arrive (d : Delivery) : Effect w (.arrive d) (w.arrive d)
  /-- The host puts in nothing more. -/
  | finish : Effect w .hostFinish { w with toHub := w.toHub.finish }

theorem effect_inbound (w : World τ) : Effect w .inbound w.inbound := by
  rw [inbound]
  split
  · rename_i hs
    exact .inbound (Hub.moves_of_step? hs)
  · exact .aside rfl (.refl w)

theorem effect_pump (w : World τ) (t : Turn) : Effect w (.pump t) (w.pump t) := by
  rw [pump]
  split
  · rename_i hp
    obtain ⟨hpumping, hm⟩ := Link.pumps_of_pump hp
    simp only
    split
    · exact .refuse hm
    · rename_i htaken
      exact .pump hpumping hm htaken
  · exact .aside rfl (.refl w)

/-- **Every act comes to one of these.** -/
theorem effect_perform (w : World τ) (a : Act τ) : Effect w a (w.perform a) := by
  cases a with
  | draw q => exact .aside rfl (.of_still (.issue _) rfl rfl rfl rfl)
  | register id => exact .aside rfl (aside_register w id)
  | send id => exact .aside rfl (aside_send w id)
  | conclude id => exact .aside rfl (aside_conclude w id)
  | abandon id => exact .aside rfl (aside_abandon w id)
  | leave id => exact .aside rfl (aside_leave w id)
  | tell session r =>
    have hstill := (Outbox.Later.send w.hub.outbox session r).still
    exact .aside rfl (.of_still hstill rfl rfl rfl rfl)
  | closeLink =>
    exact .close rfl (Link.active_close w.hub.outbox.link) (.of_replies_eq rfl rfl)
  | closeReplies =>
    show Effect w _ (if w.hub.isActive then w else w.withOutbox w.hub.outbox.closeReplies)
    split
    · exact .aside rfl (.refl w)
    · rename_i hinactive
      exact .close rfl (Bool.eq_false_iff.mpr hinactive) ⟨Nat.le_refl _, .inr rfl⟩
  | inbound => exact effect_inbound w
  | pump t => exact effect_pump w t
  | arrive d => exact .arrive d
  | hostFinish => exact .finish
  | _ => exact .aside rfl (.of_still (.refl _) rfl rfl rfl rfl)

section Effects

variable {w w' : World τ} {a : Act τ}

/-- An act only adds to the history. -/
theorem Effect.history_eq (he : Effect w a w') : ∃ l, w'.history = w.history ++ l := by
  have hnil : ∃ l, w.history = w.history ++ l := ⟨[], (List.append_nil _).symm⟩
  cases he with
  | aside silent aside =>
    obtain ⟨l, hl, -, -⟩ := aside.history_eq
    exact ⟨l, hl⟩
  | inbound moves => exact ⟨_, rfl⟩
  | refuse pumps => exact ⟨_, rfl⟩
  | _ => exact hnil

/-- Ids are only ever taken. -/
theorem Effect.issued_le (he : Effect w a w') : w.issued ≤ w'.issued := by
  cases he with
  | aside silent aside => exact aside.still.issued_le
  | close silent inactive keeps => exact keeps.issued_le
  | inbound moves =>
    rcases moves.keeps_or_deliver with ⟨hkeeps, -⟩ | ⟨m, -, rfl⟩
    · exact hkeeps.issued_le
    · exact (Hub.later_deliver w.hub m).issued_le
  | _ => exact Nat.le_refl _

/-- A hub that has been closed is not opened again. -/
theorem Effect.active_of (he : Effect w a w') (ha : w'.hub.isActive = true) :
    w.hub.isActive = true := by
  cases he with
  | aside silent aside => exact aside.still.active_of ha
  | close silent inactive keeps => exact absurd (inactive.symm.trans ha) Bool.false_ne_true
  | inbound moves => exact moves.active_of ha
  | pump pumping pumps taken => exact pumps.active_eq.symm.trans ha
  | refuse pumps => exact pumps.active_eq.symm.trans ha
  | arrive d => exact ha
  | finish => exact ha

/-- A table that has been closed is not opened again. -/
theorem Effect.closed_of (he : Effect w a w') (hcl : w.replies.closed = true) :
    w'.replies.closed = true := by
  cases he with
  | aside silent aside => exact aside.still.closed_of hcl
  | close silent inactive keeps => exact keeps.closed_of hcl
  | inbound moves =>
    rcases moves.keeps_or_deliver with ⟨hkeeps, -⟩ | ⟨m, -, rfl⟩
    · exact hkeeps.closed_of hcl
    · exact (Outbox.Still.deliver w.hub m).closed_of hcl
  | _ => exact hcl

/-- Nothing that an act makes happen is the closing of the table. -/
theorem Effect.closed_mem (he : Effect w a w') (hmem : .closed ∈ w'.history) :
    .closed ∈ w.history := by
  cases he with
  | aside silent aside =>
    obtain ⟨l, hl, hnot, -⟩ := aside.history_eq
    rw [hl] at hmem
    exact (List.mem_append.mp hmem).resolve_right hnot
  | inbound moves =>
    refine (List.mem_append.mp hmem).resolve_right fun hnew => ?_
    obtain ⟨notice, -, hnotice⟩ := List.mem_filterMap.mp hnew
    cases notice <;> cases hnotice
  | refuse pumps =>
    exact (List.mem_append.mp hmem).resolve_right fun hnew => nomatch List.mem_singleton.mp hnew
  | _ => exact hmem

end Effects

/-! ## The note about the table -/

/-- The note that the table has been closed leaves everything but the history as it is. -/
theorem hub_act (w : World τ) (a : Act τ) : (w.act a).hub = (w.perform a).hub := by
  rw [act]
  split <;> rfl

theorem toHub_act (w : World τ) (a : Act τ) : (w.act a).toHub = (w.perform a).toHub := by
  rw [act]
  split <;> rfl

theorem toHost_act (w : World τ) (a : Act τ) : (w.act a).toHost = (w.perform a).toHost := by
  rw [act]
  split <;> rfl

theorem now_act (w : World τ) (a : Act τ) : (w.act a).now = (w.perform a).now := by
  rw [act]
  split <;> rfl

theorem callers_act (w : World τ) (a : Act τ) : (w.act a).callers = (w.perform a).callers := by
  rw [act]
  split <;> rfl

theorem issued_act (w : World τ) (a : Act τ) : (w.act a).issued = (w.perform a).issued := by
  rw [issued, hub_act]
  rfl

theorem history_act (w : World τ) (a : Act τ) : ∃ l, (w.act a).history = w.history ++ l := by
  obtain ⟨l, hl⟩ := (effect_perform w a).history_eq
  rw [act]
  split
  · refine ⟨l ++ [.closed], ?_⟩
    show (w.perform a).history ++ _ = _
    rw [hl, List.append_assoc]
  · exact ⟨l, hl⟩

/-- A hub that is open at the end of a run has been open all along. -/
theorem active_of_run {w : World τ} (acts : List (Act τ)) (ha : (w.run acts).hub.isActive = true) :
    w.hub.isActive = true := by
  induction acts generalizing w with
  | nil => exact ha
  | cons a acts ih =>
    have hact := ih ha
    rw [hub_act] at hact
    exact (effect_perform w a).active_of hact

theorem closed_act (w : World τ) (a : Act τ) (hcl : w.replies.closed = true) :
    (w.act a).replies.closed = true := by
  rw [replies, hub_act]
  exact (effect_perform w a).closed_of hcl

/-- A table of replies that is closed has been noted as such. -/
theorem noted_act {w : World τ} (h : w.replies.closed = true → .closed ∈ w.history) (a : Act τ)
    (hcl : (w.act a).replies.closed = true) : .closed ∈ (w.act a).history := by
  rw [act] at hcl ⊢
  split at hcl
  · rename_i hflip
    simp only [if_pos hflip]
    exact List.mem_append_right _ List.mem_cons_self
  · rename_i hflip
    simp only [if_neg hflip]
    have hbefore : w.replies.closed = true := by
      cases hc : w.replies.closed with
      | true => rfl
      | false =>
        rw [hcl, hc] at hflip
        exact absurd rfl hflip
    obtain ⟨l, hl⟩ := (effect_perform w a).history_eq
    rw [hl]
    exact List.mem_append_left l (h hbefore)

/-- A table is noted as closed only if it is. -/
theorem closed_of_mem_act {w : World τ} {a : Act τ} (h : .closed ∈ w.history → w.replies.closed = true)
    (hmem : .closed ∈ (w.act a).history) : (w.act a).replies.closed = true := by
  rw [act] at hmem ⊢
  split at hmem
  · rename_i hflip
    simp only [if_pos hflip]
    exact (Bool.and_eq_true_iff.mp hflip).1
  · rename_i hflip
    simp only [if_neg hflip]
    have he := effect_perform w a
    exact he.closed_of (h (he.closed_mem hmem))

end World

end SessionMux
