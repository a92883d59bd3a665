import Mathlib.Algebra.Group.Nat.Defs
import SessionMux.Hub.Inbound
import SessionMux.Proofs.Link.Moves
import SessionMux.Proofs.Replies.Table

/-!
# What a hub can do in one step

Two things are said here once for all that follows. What the callbacks of a hub may have done to
its sending side, whatever they are, is `Outbox.Later`: they can take ids, queue texts and close,
and nothing else. And what one step of the inbound task can be is `Hub.Moves`, one case for each way
to go on, with everything that holds of it.

* `Later.perform`, `later_publish` — an act of a callback, and so a whole dispatch.
* `Replies.hear` — the table after a message has been offered to it.
* **`later_deliver`** — a delivery is an offer to the table, and then what callbacks do.
* **`moves_of_step?`** — every step is one of the moves.
-/

namespace SessionMux

/-! ## What callbacks can do -/

namespace Outbox

variable {τ : Type}

/-- `b'` comes of `b` by taking ids, queueing texts, closing, and what the program around the hub
does with its own. -/
structure Later (b b' : Outbox τ) : Prop where
  issued_le : b.issued ≤ b'.issued
  replies_eq : b'.replies = b.replies ∨ b'.replies = b.replies.closeAll ∧ b'.link.active = false
  active_of : b'.link.active = true → b.link.active = true
  events_eq : b'.link.events = b.link.events
  pumping_eq : b'.link.pumping = b.link.pumping
  held_eq : b'.link.held = b.link.held
  commands_of : b'.link.active = true → .close ∈ b'.link.commands → .close ∈ b.link.commands

/-- What of this the calls can notice. -/
structure Keeps (b b' : Outbox τ) : Prop where
  issued_le : b.issued ≤ b'.issued
  replies_eq : b'.replies = b.replies ∨ b'.replies = b.replies.closeAll

theorem Keeps.of_replies_eq {b b' : Outbox τ} (hi : b'.issued = b.issued)
    (hr : b'.replies = b.replies) : Keeps b b' := ⟨Nat.le_of_eq hi.symm, .inl hr⟩

theorem Later.keeps {b b' : Outbox τ} (h : Later b b') : Keeps b b' where
  issued_le := h.issued_le
  replies_eq := h.replies_eq.imp_right And.left

/-- A table that has been closed is not opened again. -/
theorem Keeps.closed_of {b b' : Outbox τ} (h : Keeps b b') (hcl : b.replies.closed = true) :
    b'.replies.closed = true := by
  rcases h.replies_eq with heq | heq
  · rw [heq]
    exact hcl
  · rw [heq]
    rfl

theorem Later.refl (b : Outbox τ) : Later b b :=
  ⟨Nat.le_refl _, .inl rfl, id, rfl, rfl, rfl, fun _ => id⟩

theorem Later.trans {b b' b'' : Outbox τ} (h : Later b b') (h' : Later b' b'') : Later b b'' where
  issued_le := Nat.le_trans h.issued_le h'.issued_le
  replies_eq := by
    rcases h'.replies_eq with he' | ⟨he', ha'⟩
    · rcases h.replies_eq with he | ⟨he, ha⟩
      · exact .inl (he'.trans he)
      · refine .inr ⟨he'.trans he, ?_⟩
        cases hact : b''.link.active with
        | false => rfl
        | true => rw [h'.active_of hact] at ha; cases ha
    · rcases h.replies_eq with he | ⟨he, -⟩
      · rw [he] at he'
        exact .inr ⟨he', ha'⟩
      · rw [he, Replies.closeAll_closeAll] at he'
        exact .inr ⟨he', ha'⟩
  active_of ha := h.active_of (h'.active_of ha)
  events_eq := h'.events_eq.trans h.events_eq
  pumping_eq := h'.pumping_eq.trans h.pumping_eq
  held_eq := h'.held_eq.trans h.held_eq
  commands_of ha hc := h.commands_of (h'.active_of ha) (h'.commands_of ha hc)

/-- A message that is transmitted is one more command on the link. -/
theorem transmit_ok {b b' : Outbox τ} {m : OutboundMessage} (h : b.transmit m = .ok b') :
    ∃ text, b' = { b with link := { b.link with commands := b.link.commands ++ [.send text] } } := by
  rw [transmit] at h
  split at h
  · split at h
    · rename_i link hw
      cases h
      rw [Link.write] at hw
      split at hw
      · cases hw
      · rename_i line _
        split at hw
        · rename_i hs
          cases hw
          exact ⟨line, by rw [(Link.eq_of_send hs).1]⟩
        · cases hw
    · cases h
  · cases h

theorem Later.transmit {b b' : Outbox τ} {m : OutboundMessage} (h : b.transmit m = .ok b') :
    Later b b' := by
  obtain ⟨text, rfl⟩ := transmit_ok h
  refine ⟨Nat.le_refl _, .inl rfl, id, rfl, rfl, rfl, ?_⟩
  intro _ hc
  exact (List.mem_append.mp hc).resolve_right (by simp)

theorem Later.issue (b : Outbox τ) : Later b b.issue.2 :=
  ⟨Nat.le_succ _, .inl rfl, id, rfl, rfl, rfl, fun _ => id⟩

theorem Later.send (b : Outbox τ) (session : String) (r : Request) :
    Later b (b.send session r).2 := by
  rw [Outbox.send]
  split
  rename_i id b₁ hb
  have hissue : Later b b₁ := by
    have := Later.issue b
    rwa [hb] at this
  split
  · rename_i b₂ ht
    exact hissue.trans (Later.transmit ht)
  · exact hissue

theorem Later.close (b : Outbox τ) : Later b b.close where
  issued_le := Nat.le_refl _
  replies_eq := .inr ⟨rfl, Link.active_close b.link⟩
  active_of h := by
    rw [show b.close.link.active = false from Link.active_close b.link] at h
    cases h
  events_eq := Link.events_close b.link
  pumping_eq := Link.pumping_close b.link
  held_eq := Link.held_close b.link
  commands_of h := by
    rw [show b.close.link.active = false from Link.active_close b.link] at h
    cases h

/-- **An act of a callback.** -/
theorem Later.perform (a : HubAct τ) (b : Outbox τ) : Later b (Outbox.perform a b).2 := by
  cases a with
  | close => exact Later.close b
  | send session r => exact Later.send b session r
  | own f => exact ⟨Nat.le_refl _, .inl rfl, id, rfl, rfl, rfl, fun _ => id⟩

/-! ### Ids -/

theorem toNat_nextId_le (b : Outbox τ) : b.nextId.value.toNat ≤ b.issued + 1 := by
  show (UInt64.ofNat (b.issued + 1)).toNat ≤ _
  rw [UInt64.toNat_ofNat']
  exact Nat.mod_le _ _

theorem toNat_nextId (b : Outbox τ) (hb : b.issued + 1 < 2 ^ 64) :
    b.nextId.value.toNat = b.issued + 1 := by
  show (UInt64.ofNat (b.issued + 1)).toNat = _
  rw [UInt64.toNat_ofNat']
  exact Nat.mod_eq_of_lt hb

/-! ### Behind a close of the link -/

theorem transmit_of_inactive {b : Outbox τ} (h : b.link.active = false) (m : OutboundMessage) :
    b.transmit m = .error .connectionClosed := by
  rw [Outbox.transmit, if_neg (by rw [h]; exact Bool.false_ne_true)]

/-- A request that is sent does nothing but take an id. -/
theorem send_of_inactive {b : Outbox τ} (h : b.link.active = false) (session : String) (r : Request) :
    b.send session r = (.error .connectionClosed, b.issue.2) := by
  have hissue : b.issue.2.link.active = false := h
  simp only [send, transmit_of_inactive hissue]

end Outbox

namespace Replies

/-- The table after a message has been offered to it. -/
def hear (t : Replies) (m : InboundMessage) : Replies :=
  match m.inReplyTo with
  | some id => (t.resolve id m.event).2
  | none => t

theorem closed_hear (t : Replies) (m : InboundMessage) : (t.hear m).closed = t.closed := by
  rw [hear]
  split
  · exact closed_resolve t _ _
  · rfl

theorem Sound.hear {t : Replies} (h : t.Sound) (m : InboundMessage) : (t.hear m).Sound := by
  rw [Replies.hear]
  split
  · exact h.resolve _ _
  · exact h

end Replies

namespace Hub

variable {τ : Type}

theorem later_publish (h : Hub τ) (e : HookEvent) : h.outbox.Later (h.publish e).2.outbox :=
  Scene.surroundings_dispatch (fun b : Outbox τ => h.outbox.Later b)
    (fun a _ hb => hb.trans (Outbox.Later.perform a _)) (fun d => Empty.elim d) _ _ _
    (Outbox.Later.refl h.outbox)

/-- **A delivery** is an offer to the table, and then what callbacks do. -/
theorem later_deliver (h : Hub τ) (m : InboundMessage) :
    { h.outbox with replies := h.outbox.replies.hear m }.Later (h.deliver m).2.outbox := by
  have hsnd : ∀ {p : Bool × Replies}, (match m.inReplyTo with
      | some id => h.outbox.replies.resolve id m.event
      | none => (false, h.outbox.replies)) = p → p.2 = h.outbox.replies.hear m := by
    intro p hp
    rw [← hp, Replies.hear]
    split <;> rfl
  rw [deliver]
  split
  rename_i taken replies hp
  have hreplies : replies = h.outbox.replies.hear m := hsnd hp
  subst hreplies
  simp only
  split
  · exact Outbox.Later.refl _
  · split
    · exact later_publish { h with outbox := { h.outbox with replies := h.outbox.replies.hear m } } _
    · exact Outbox.Later.refl _

/-! ## The moves of the inbound task -/

/-- **What one step of the inbound task can be** at the moment `now`, with what it lets be seen. -/
inductive Moves (now : Nat) (h : Hub τ) : List Notice → Hub τ → Prop where
  /-- The next envelope begins to be decoded. -/
  | fetch {e : Envelope} {rest : List Envelope} (phase : h.phase = .fetching)
      (ready : h.inlet.ready = e :: rest) :
      Moves now h [] { h with
        inlet := { h.inlet with ready := rest }
        phase := .decoding e (now + h.latencies.headD 0)
        latencies := h.latencies.tail }
  /-- No envelope is ready. -/
  | await (phase : h.phase = .fetching) (ready : h.inlet.ready = []) (active : h.isActive = true) :
      Moves now h [] { h with phase := .receiving }
  /-- No envelope is ready, and the link has been closed. -/
  | resign (phase : h.phase = .fetching) (ready : h.inlet.ready = [])
      (inactive : h.isActive = false) :
      Moves now h [] { h with phase := .leaving }
  /-- A text comes in. -/
  | receive {text : String} {rest : List LinkEvent} (phase : h.phase = .receiving)
      (events : h.outbox.link.events = .message text :: rest) (active : h.isActive = true) :
      Moves now h [] { h with
        outbox := { h.outbox with link := { h.outbox.link with events := rest } }
        inlet := h.inlet.feed text
        phase := .fetching }
  /-- The end is announced. -/
  | hear {rest : List LinkEvent} (phase : h.phase = .receiving)
      (events : h.outbox.link.events = .closed :: rest) (active : h.isActive = true) :
      Moves now h [] { h with
        outbox := { h.outbox with link := { h.outbox.link with events := rest } }
        phase := .leaving }
  /-- What comes in after a local close is suppressed. -/
  | suppress {e : LinkEvent} {rest : List LinkEvent} (phase : h.phase = .receiving)
      (events : h.outbox.link.events = e :: rest) (inactive : h.isActive = false) :
      Moves now h [] { h with
        outbox := { h.outbox with link := { h.outbox.link with events := rest } }
        phase := .leaving }
  /-- The pump has ended, and nothing has been left behind. -/
  | starve (phase : h.phase = .receiving) (events : h.outbox.link.events = [])
      (stopped : h.outbox.link.pumping = false) :
      Moves now h [] { h with phase := .leaving }
  /-- An envelope has been decoded. -/
  | decode {e : Envelope} {ready : Nat} (phase : h.phase = .decoding e ready) (due : ready ≤ now) :
      Moves now h [.decoded (e.unpack InboundMessage)]
        { h with phase := .holding (e.unpack InboundMessage) }
  /-- An envelope that holds no message is dropped. -/
  | drop {f : WireFault} (phase : h.phase = .holding (.error f)) :
      Moves now h [] { h with phase := .fetching }
  /-- A message is delivered. -/
  | deliver {m : InboundMessage} (phase : h.phase = .holding (.ok m)) (active : h.isActive = true) :
      Moves now h [.delivered m (h.deliver m).1] { (h.deliver m).2 with phase := .fetching }
  /-- A message that was decoded after a local close is not delivered. -/
  | discard {m : InboundMessage} (phase : h.phase = .holding (.ok m))
      (inactive : h.isActive = false) :
      Moves now h [] { h with phase := .leaving }
  /-- The calls that wait are failed. -/
  | shut (phase : h.phase = .leaving) :
      Moves now h [] { h with outbox := h.outbox.closeReplies, phase := .closing }
  | finish (phase : h.phase = .closing) : Moves now h [] { h with phase := .ended }

/-- A move delivers a message, or lets no message be seen and leaves the calls alone, unless it
fails them all. -/
theorem Moves.keeps_or_deliver {h h' : Hub τ} {now : Nat} {n : List Notice} (hm : Moves now h n h') :
    (h.outbox.Keeps h'.outbox ∧ ∀ m calls, .delivered m calls ∉ n) ∨
      ∃ m, n = [.delivered m (h.deliver m).1] ∧ h' = { (h.deliver m).2 with phase := .fetching } := by
  have hkeep : ∀ {n : List Notice} {b' : Outbox τ}, b'.issued = h.outbox.issued →
      b'.replies = h.outbox.replies → (∀ m calls, .delivered m calls ∉ n) →
      h.outbox.Keeps b' ∧ ∀ m calls, .delivered m calls ∉ n :=
    fun hi hr hn => ⟨Outbox.Keeps.of_replies_eq hi hr, hn⟩
  have hnil : ∀ m calls, Notice.delivered m calls ∉ [] := fun m calls => List.not_mem_nil
  cases hm with
  | fetch phase ready => exact .inl (hkeep rfl rfl hnil)
  | await phase ready active => exact .inl (hkeep rfl rfl hnil)
  | resign phase ready inactive => exact .inl (hkeep rfl rfl hnil)
  | receive phase events active => exact .inl (hkeep rfl rfl hnil)
  | hear phase events active => exact .inl (hkeep rfl rfl hnil)
  | suppress phase events inactive => exact .inl (hkeep rfl rfl hnil)
  | starve phase events stopped => exact .inl (hkeep rfl rfl hnil)
  | decode phase due => exact .inl (hkeep rfl rfl (by simp))
  | drop phase => exact .inl (hkeep rfl rfl hnil)
  | deliver phase active => exact .inr ⟨_, rfl, rfl⟩
  | discard phase inactive => exact .inl (hkeep rfl rfl hnil)
  | shut phase => exact .inl ⟨⟨Nat.le_refl _, .inr rfl⟩, hnil⟩
  | finish phase => exact .inl (hkeep rfl rfl hnil)

theorem resume_cons {l : Link} {e : LinkEvent} {rest : List LinkEvent} (he : l.events = e :: rest) :
    l.resume = (if l.active then .event e else .ended, { l with events := rest }) := by
  simp only [Link.resume, he]

/-- **Every step is one of the moves.** -/
theorem moves_of_step? {h h' : Hub τ} {now : Nat} {n : List Notice}
    (hs : h.step? now = some (n, h')) : Moves now h n h' := by
  cases hp : h.phase with
  | fetching =>
    cases hr : h.inlet.ready with
    | cons e rest =>
      simp only [step?, hp, hr, Option.some.injEq, Prod.mk.injEq] at hs
      obtain ⟨rfl, rfl⟩ := hs
      exact .fetch hp hr
    | nil =>
      cases ha : h.isActive with
      | true =>
        simp only [step?, hp, hr, ha, if_true, Option.some.injEq, Prod.mk.injEq] at hs
        obtain ⟨rfl, rfl⟩ := hs
        exact .await hp hr ha
      | false =>
        simp only [step?, hp, hr, ha, Bool.false_eq_true, if_false, Option.some.injEq,
          Prod.mk.injEq] at hs
        obtain ⟨rfl, rfl⟩ := hs
        exact .resign hp hr ha
  | receiving =>
    cases he : h.outbox.link.events with
    | cons e rest =>
      have hres := resume_cons he
      cases ha : h.isActive with
      | true =>
        rw [if_pos (show h.outbox.link.active = true from ha)] at hres
        cases e with
        | message text =>
          simp only [step?, hp, hres, Option.some.injEq, Prod.mk.injEq] at hs
          obtain ⟨rfl, rfl⟩ := hs
          exact .receive hp he ha
        | closed =>
          simp only [step?, hp, hres, Option.some.injEq, Prod.mk.injEq] at hs
          obtain ⟨rfl, rfl⟩ := hs
          exact .hear hp he ha
      | false =>
        rw [if_neg (show ¬ h.outbox.link.active = true from by
          rw [show h.outbox.link.active = false from ha]; exact Bool.false_ne_true)] at hres
        simp only [step?, hp, hres, Option.some.injEq, Prod.mk.injEq] at hs
        obtain ⟨rfl, rfl⟩ := hs
        exact .suppress hp he ha
    | nil =>
      cases hpump : h.outbox.link.pumping with
      | true => simp [step?, hp, Link.resume, he, hpump] at hs
      | false =>
        simp only [step?, hp, Link.resume, he, hpump, Bool.false_eq_true, if_false,
          Option.some.injEq, Prod.mk.injEq] at hs
        obtain ⟨rfl, rfl⟩ := hs
        exact .starve hp he hpump
  | decoding e ready =>
    by_cases hd : ready ≤ now
    · simp only [step?, hp, hd, if_true, Option.some.injEq, Prod.mk.injEq] at hs
      obtain ⟨rfl, rfl⟩ := hs
      exact .decode hp hd
    · simp [step?, hp, hd] at hs
  | holding r =>
    cases r with
    | error f =>
      simp only [step?, hp, Option.some.injEq, Prod.mk.injEq] at hs
      obtain ⟨rfl, rfl⟩ := hs
      exact .drop hp
    | ok m =>
      cases ha : h.isActive with
      | true =>
        simp only [step?, hp, ha, if_true, Option.some.injEq, Prod.mk.injEq] at hs
        obtain ⟨rfl, rfl⟩ := hs
        exact .deliver hp ha
      | false =>
        simp only [step?, hp, ha, Bool.false_eq_true, if_false, Option.some.injEq,
          Prod.mk.injEq] at hs
        obtain ⟨rfl, rfl⟩ := hs
        exact .discard hp ha
  | leaving =>
    simp only [step?, hp, Option.some.injEq, Prod.mk.injEq] at hs
    obtain ⟨rfl, rfl⟩ := hs
    exact .shut hp
  | closing =>
    simp only [step?, hp, Option.some.injEq, Prod.mk.injEq] at hs
    obtain ⟨rfl, rfl⟩ := hs
    exact .finish hp
  | ended => simp [step?, hp] at hs

end Hub

end SessionMux
