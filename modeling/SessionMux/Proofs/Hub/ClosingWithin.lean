import SessionMux.Proofs.Hub.Closing
import SessionMux.Proofs.Hub.Places

/-!
# A subscriber that closes the hub

Whether the hub is open is asked once for each message, before its subscribers are called. The subscribers
that are called are those that the list held then. So when one of them closes the hub, those behind it are
still called for the same hook, each of them on a hub that has been closed; for any later message nobody is
called.

* `Hub.attend` — what subscribers make of a hub.
* `Hub.ClosedBy` — one of them closes it, the first to do so.
* `Hub.late` — those who are called on a closed hub.
* `Hub.StopsAtClose`, `not_stopsAtClose` — a delivery need not stop where the hub is closed.
* **`closedWithin_run`** — what a close stops, and what it does not.
-/

namespace SessionMux

/-- The message that is at hand. -/
def InboundPhase.held? : InboundPhase → Option InboundMessage
  | .holding (.ok m) => some m
  | _ => none

theorem InboundPhase.held?_eq_some {phase : InboundPhase} {m : InboundMessage} :
    phase.held? = some m ↔ phase = .holding (.ok m) := by
  constructor
  · intro hheld
    unfold held? at hheld
    split at hheld
    · cases hheld
      rfl
    · cases hheld
  · intro hphase
    rw [hphase]
    rfl

namespace Hub

variable {τ : Type}

/-- What subscribers make of a hub that are called for a hook one after another. -/
def attend (e : HookEvent) (h : Hub τ) (l : List (SubscriptionId × HubCallback τ)) : Hub τ :=
  (l.map fun p => p.2 e).foldl undergo h

/-- **The first to close the hub**, among its subscribers that are called for a hook, is `p`. -/
structure ClosedBy (h : Hub τ) (e : HookEvent) (front : List (SubscriptionId × HubCallback τ))
    (p : SubscriptionId × HubCallback τ) (back : List (SubscriptionId × HubCallback τ)) : Prop where
  entries_eq : (h.topics e.hook.kind).entries = front ++ p :: back
  active : (h.attend e front).isActive = true
  inactive : (h.attend e (front ++ [p])).isActive = false

/-- **Those who are called late**, on a hub that has been closed already. -/
def late (e : HookEvent) : Hub τ → List (SubscriptionId × HubCallback τ) → List SubscriptionId
  | _, [] => []
  | h, p :: rest =>
    if h.isActive then late e (h.undergo (p.2 e)) rest else p.1 :: late e (h.undergo (p.2 e)) rest

/-- Nobody behind the subscriber that closes the hub is called. -/
def StopsAtClose (h : Hub τ) (e : HookEvent) : Prop :=
  ∀ front p back, h.ClosedBy e front p back →
    (h.publish e).1 = (front ++ [p]).map fun q => (e.hook.kind, q.1)

/-- **A delivery does not stop at a close**: of two subscribers the first closes the hub, and the second is
called all the same. -/
theorem not_stopsAtClose :
    let h₁ : Hub Unit := ((Hub.start {} ()).subscribe .prompt fun _ => .act .close fun _ => .done).2
    let h₂ : Hub Unit := (h₁.subscribe .prompt fun _ => .done).2
    ¬ h₂.StopsAtClose ⟨"s", .prompt ⟨none⟩⟩ := by
  intro h₁ h₂ hstops
  have hcalls := hstops [] (⟨1⟩, fun _ => .act .close fun _ => .done) [(⟨2⟩, fun _ => .done)] ⟨rfl, rfl, rfl⟩
  have hboth : (h₂.publish ⟨"s", .prompt ⟨none⟩⟩).1 = [(.prompt, ⟨1⟩), (.prompt, ⟨2⟩)] := rfl
  rw [hboth] at hcalls
  cases hcalls

section Attend

variable {h : Hub τ} {e : HookEvent} {l l' : List (SubscriptionId × HubCallback τ)}

theorem attend_append : h.attend e (l ++ l') = (h.attend e l).attend e l' := by
  simp only [attend, List.map_append, List.foldl_append]

theorem attend_cons {p : SubscriptionId × HubCallback τ} :
    h.attend e (p :: l) = (h.undergo (p.2 e)).attend e l := rfl

/-- No reaction opens a hub. -/
theorem active_of_undergo {r : HubReaction τ} (ha : (h.undergo r).isActive = true) :
    h.isActive = true := by
  have hlater : h.outbox.Later (h.undergo r).outbox :=
    Scene.surroundings_run (fun b : Outbox τ => h.outbox.Later b)
      (fun a _ hb => hb.trans (Outbox.Later.perform a _)) (fun d => Empty.elim d) r _
      (Outbox.Later.refl h.outbox)
  exact hlater.active_of ha

theorem active_of_attend (ha : (h.attend e l).isActive = true) : h.isActive = true := by
  induction l generalizing h with
  | nil => exact ha
  | cons p l ih => exact active_of_undergo (ih ha)

/-! ## Who is called late -/

theorem late_append : late e h (l ++ l') = late e h l ++ late e (h.attend e l) l' := by
  induction l generalizing h with
  | nil => rfl
  | cons p l ih =>
    simp only [List.cons_append, late, attend_cons, ih]
    split <;> rfl

theorem late_of_active (ha : (h.attend e l).isActive = true) : late e h l = [] := by
  induction l generalizing h with
  | nil => rfl
  | cons p l ih =>
    rw [late, if_pos (active_of_attend ha)]
    exact ih ha

/-- On a closed hub everybody is late. -/
theorem late_of_inactive (hi : h.isActive = false) : late e h l = l.map Prod.fst := by
  induction l generalizing h with
  | nil => rfl
  | cons p l ih =>
    have hnext : (h.undergo (p.2 e)).isActive = false :=
      Bool.eq_false_iff.mpr fun ha => Bool.false_ne_true (hi.symm.trans (active_of_undergo ha))
    rw [late, hi, if_neg Bool.false_ne_true, ih hnext]
    rfl

/-- **Those are late who come behind the close.** -/
theorem ClosedBy.late_eq {front back : List (SubscriptionId × HubCallback τ)}
    {p : SubscriptionId × HubCallback τ} (hc : h.ClosedBy e front p back) :
    late e h (h.topics e.hook.kind).entries = back.map Prod.fst := by
  have hp : late e (h.attend e front) [p] = [] := by
    rw [late, if_pos hc.active]
    rfl
  have hsplit : front ++ p :: back = front ++ [p] ++ back := by simp
  rw [hc.entries_eq, hsplit, late_append, late_append, late_of_active hc.active, hp,
    late_of_inactive hc.inactive]
  rfl

/-- Whoever are called, if they leave the hub closed one of them is the first to close it. -/
theorem exists_first_close (ha : h.isActive = true) (hi : (h.attend e l).isActive = false) :
    ∃ front p back, l = front ++ p :: back ∧ (h.attend e front).isActive = true ∧
      (h.attend e (front ++ [p])).isActive = false := by
  induction l generalizing h with
  | nil => exact absurd (hi.symm.trans ha) Bool.false_ne_true
  | cons p l ih =>
    cases hp : (h.undergo (p.2 e)).isActive with
    | false => exact ⟨[], p, l, rfl, ha, hp⟩
    | true =>
      obtain ⟨front, q, back, rfl, hfront, hq⟩ := ih hp hi
      exact ⟨p :: front, q, back, rfl, hfront, hq⟩

/-- **The subscribers leave the hub closed if and only if one of them closes it.** -/
theorem inactive_attend_iff (ha : h.isActive = true) :
    (h.attend e (h.topics e.hook.kind).entries).isActive = false ↔
      ∃ front p back, h.ClosedBy e front p back := by
  constructor
  · intro hi
    obtain ⟨front, p, back, hentries, hfront, hp⟩ := exists_first_close ha hi
    exact ⟨front, p, back, hentries, hfront, hp⟩
  · intro ⟨front, p, back, hc⟩
    have hsplit : front ++ p :: back = front ++ [p] ++ back := by simp
    refine Bool.eq_false_iff.mpr fun hall => ?_
    rw [hc.entries_eq, hsplit, attend_append] at hall
    exact Bool.false_ne_true (hc.inactive.symm.trans (active_of_attend hall))

end Attend

end Hub

namespace World

variable {τ : Type} {w : World τ} {m : InboundMessage} {e : HookEvent}

/-- **What a close by a subscriber stops**, in the delivery of a hook that the inbound task makes next. -/
structure ClosedWithin (w : World τ) (m : InboundMessage) (e : HookEvent) : Prop where
  /-- All who are subscribed are called, each once and in order, whatever they do. -/
  calls_eq : ∃ hub, w.hub.step? w.now = some ([.delivered m
    ((w.hub.topics e.hook.kind).ids.map fun id => (e.hook.kind, id))], hub)
  /-- The hub is closed behind the delivery if a subscriber has closed it. -/
  closed_iff : (w.act .inbound).hub.isActive = false ↔
    ∃ front p back, (w.hub.shed m).ClosedBy e front p back
  /-- If none has, nobody is called late. -/
  late_eq_nil : (w.act .inbound).hub.isActive = true →
    Hub.late e (w.hub.shed m) (w.hub.topics e.hook.kind).entries = []
  /-- Those behind the subscriber that closes the hub are called late, and nobody else. -/
  late_eq : ∀ front p back, (w.hub.shed m).ClosedBy e front p back →
    Hub.late e (w.hub.shed m) (w.hub.topics e.hook.kind).entries = back.map Prod.fst
  /-- Behind the delivery the hub is closed for good: for no later message is anybody called. -/
  final : (w.act .inbound).hub.isActive = false → (w.act .inbound).IsFinal

/-- The delivery is the next step of the inbound task. -/
theorem step?_of_holding (hphase : w.hub.phase = .holding (.ok m)) (hactive : w.hub.isActive = true) :
    w.hub.step? w.now =
      some ([.delivered m (w.hub.deliver m).1], { (w.hub.deliver m).2 with phase := .fetching }) := by
  simp only [Hub.step?, hphase, hactive, if_true]

theorem hub_inbound_of_holding (hphase : w.hub.phase = .holding (.ok m))
    (hactive : w.hub.isActive = true) :
    (w.act .inbound).hub = { (w.hub.deliver m).2 with phase := .fetching } := by
  rw [hub_act]
  show w.inbound.hub = _
  rw [inbound, step?_of_holding hphase hactive]
  rfl

theorem closedWithin_of_holding (hs : w.replies.Sound) (hphase : w.hub.phase = .holding (.ok m))
    (hactive : w.hub.isActive = true) (hfor : w.hub.IsFor m (.subscribers e)) : w.ClosedWithin m e := by
  have hserved := Hub.served_of_hook hfor.1 hfor.2.1 hfor.2.2
  have htopics : (w.hub.shed m).topics = w.hub.topics := by rw [hserved.clears.rest_eq]
  have hshed : (w.hub.shed m).isActive = true := by
    rw [hserved.clears.rest_eq]
    exact hactive
  have hbehind : (w.act .inbound).hub.isActive =
      ((w.hub.shed m).attend e ((w.hub.shed m).topics e.hook.kind).entries).isActive := by
    rw [hub_inbound_of_holding hphase hactive, htopics, Hub.attend, ← hserved.hub_eq]
    rfl
  refine ⟨?_, ?_, fun ha => ?_, fun front p back hc => ?_, fun hi => ?_⟩
  · rw [step?_of_holding hphase hactive, hserved.calls_eq]
    exact ⟨_, rfl⟩
  · rw [hbehind]
    exact Hub.inactive_attend_iff hshed
  · rw [hbehind] at ha
    rw [← htopics]
    exact Hub.late_of_active ha
  · rw [← htopics]
    exact hc.late_eq
  · have hshut : (w.act .inbound).hub.outbox.IsShut := by
      rw [hub_act] at hi ⊢
      exact isShut_inbound hactive hi
    exact isFinal_of_isShut hshut (sound_run hs [.inbound])

/-- **A subscriber that closes the hub stops whatever comes after the delivery**, but not the subscribers
behind it in the same delivery; and this in every run, for every hook that goes to subscribers. -/
theorem closedWithin_run (options : HubOptions) (own : τ) (latencies : List Nat) (acts : List (Act τ))
    (m : InboundMessage) (e : HookEvent)
    (hphase : ((start options own latencies).run acts).hub.phase = .holding (.ok m))
    (hactive : ((start options own latencies).run acts).hub.isActive = true)
    (hfor : ((start options own latencies).run acts).hub.IsFor m (.subscribers e)) :
    ((start options own latencies).run acts).ClosedWithin m e :=
  have hs : (start options own latencies).replies.Sound := Replies.sound_empty
  closedWithin_of_holding (sound_run hs acts) hphase hactive hfor

/-- The first of two subscribers closes the hub, and the second is called late. -/
theorem closedWithin_run_second :
    let hook : InboundMessage := ⟨some "s", none, .hook (.prompt ⟨none⟩)⟩
    let line := (Envelope.pack .none .zero hook).toLine.push '\n'
    let acts : List (Act Unit) := [.subscribe .prompt fun _ => .act .close fun _ => .done,
      .subscribe .prompt fun _ => .done, .arrive (.frame (.text line)), .pump .incoming,
      .inbound, .inbound, .inbound, .inbound]
    let w := (start {} () []).run acts
    (w.hub.phase = .holding (.ok hook) ∧ w.hub.isActive = true ∧
        w.hub.IsFor hook (.subscribers ⟨"s", .prompt ⟨none⟩⟩)) ∧
      Hub.late ⟨"s", .prompt ⟨none⟩⟩ (w.hub.shed hook) (w.hub.topics .prompt).entries = [⟨2⟩] ∧
      w.ClosedWithin hook ⟨"s", .prompt ⟨none⟩⟩ := by
  intro hook line acts w
  have hrun : w.hub.phase.held? = some hook ∧ w.hub.isActive = true ∧
      Hub.late ⟨"s", .prompt ⟨none⟩⟩ (w.hub.shed hook) (w.hub.topics .prompt).entries = [⟨2⟩] := by
    decide +kernel +revert
  obtain ⟨hheld, hactive, hlate⟩ := hrun
  have hphase := InboundPhase.held?_eq_some.mp hheld
  have hfor : w.hub.IsFor hook (.subscribers ⟨"s", .prompt ⟨none⟩⟩) := by
    refine ⟨fun s hs => ?_, rfl, rfl⟩
    obtain ⟨id, hid, -⟩ := hs
    cases hid
  exact ⟨⟨hphase, hactive, hfor⟩, hlate, closedWithin_run {} () [] acts hook _ hphase hactive hfor⟩

end World

end SessionMux
