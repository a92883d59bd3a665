import SessionMux.Proofs.Hub.Moves

/-!
# Where a message goes

Every message goes to one place: to the request that it answers, if that still waits; or else, if it is
the hook of a session, to the subscribers of its kind; or else to nobody. This holds of every hub,
whatever its table of replies and its lists of subscribers are, also where an entry of the table belongs
to a slot that has been left.

What subscribers do is told apart from what the delivery does: before they are called the delivery has
only taken out the entry of the id that the message names, and from there on the hub is what their
reactions make of it, one after another.

* `Reaction.Spares`, `Scene.topics_run` — a reaction that leaves a list of subscribers alone.
* `Hub.undergo`, `Hub.publish_eq` — a hook is served by the reactions of its subscribers in turn.
* `Hub.shed`, `clears_shed` — the stale entry, and that nothing else goes with it.
* `Hub.Place`, `Hub.IsFor`, `Hub.Reaches` — the places, which one a message is for, and what happens there.
* **`exists_place`** — every message goes to the one place that it is for.
-/

namespace SessionMux

/-! ## Reactions -/

section Reactions

variable {κ α ε ω σ : Type} [DecidableEq κ]

/-- The reaction neither subscribes to the topic nor takes a subscription out of it, whatever it is
answered. -/
def Reaction.Spares (topic : κ) : Reaction κ α ε ω Empty → Prop
  | .done => True
  | .subscribe t _ next => t ≠ topic ∧ ∀ id, (next id).Spares topic
  | .unsubscribe t _ next => t ≠ topic ∧ ∀ found, (next found).Spares topic
  | .dispatch _ next => ∀ count, (next count).Spares topic
  | .act _ next => ∀ answer, (next answer).Spares topic

namespace Scene

variable {perform : ε → σ → ω × σ}

theorem topics_run {topic : κ} {r : Reaction κ α ε ω Empty} (hr : r.Spares topic)
    (s : Scene κ (Callback κ α ε ω Empty) σ) :
    (r.run perform (fun d _ => d.elim) s).topics topic = s.topics topic := by
  induction r generalizing s with
  | done => rfl
  | subscribe t callback next _ ih =>
    exact (ih _ (hr.2 _) _).trans (Topics.set_of_ne hr.1 s.topics _)
  | unsubscribe t id next ih =>
    exact (ih _ (hr.2 _) _).trans (Topics.set_of_ne hr.1 s.topics _)
  | dispatch event => exact event.elim
  | act effect next ih => exact ih _ (hr _) _

/-- A reaction neither adds to the calls that have been made nor depends on them. -/
theorem run_calls (r : Reaction κ α ε ω Empty) (s : Scene κ (Callback κ α ε ω Empty) σ)
    (calls : List (κ × SubscriptionId)) :
    r.run perform (fun d _ => d.elim) { s with calls := calls } =
      { r.run perform (fun d _ => d.elim) s with calls := calls } := by
  induction r generalizing s with
  | done => rfl
  | subscribe t callback next _ ih =>
    exact ih _ { s with topics := s.topics.set t ((s.topics t).subscribe callback).2 }
  | unsubscribe t id next ih =>
    exact ih _ { s with topics := s.topics.set t ((s.topics t).unsubscribe id).2 }
  | dispatch event => exact event.elim
  | act effect next ih => exact ih _ { s with surroundings := (perform effect s.surroundings).2 }

end Scene

end Reactions

namespace Hub

variable {τ : Type}

/-- What a reaction of a callback makes of a hub. -/
def undergo (h : Hub τ) (r : HubReaction τ) : Hub τ :=
  let s := r.run Outbox.perform (fun d _ => d.elim) { topics := h.topics, surroundings := h.outbox }
  { h with topics := s.topics, outbox := s.surroundings }

/-- Subscribers are called one after another, and react one after another. -/
theorem foldl_call (kind : HookKind) (e : HookEvent) (l : List (SubscriptionId × HubCallback τ))
    (h : Hub τ) (calls : List (HookKind × SubscriptionId)) :
    let s := l.foldl (Scene.call Outbox.perform (fun d _ => d.elim) kind e)
      { topics := h.topics, surroundings := h.outbox, calls := calls }
    s.calls = calls ++ l.map (fun p => (kind, p.1)) ∧
      { h with topics := s.topics, outbox := s.surroundings } =
        (l.map fun p => p.2 e).foldl undergo h := by
  induction l generalizing h calls with
  | nil => exact ⟨(List.append_nil calls).symm, rfl⟩
  | cons p l ih =>
    have hcall : Scene.call Outbox.perform (fun d _ => d.elim) kind e
        { topics := h.topics, surroundings := h.outbox, calls := calls } p =
        { topics := (h.undergo (p.2 e)).topics, surroundings := (h.undergo (p.2 e)).outbox,
          calls := calls ++ [(kind, p.1)] } :=
      Scene.run_calls (p.2 e) { topics := h.topics, surroundings := h.outbox } _
    obtain ⟨hcalls, hhub⟩ := ih (h.undergo (p.2 e)) (calls ++ [(kind, p.1)])
    simp only [List.foldl_cons, hcall, List.map_cons]
    refine ⟨?_, hhub⟩
    rw [hcalls, List.append_assoc]
    rfl

/-- **A hook is served by the reactions of its subscribers**, each once and in order. -/
theorem publish_eq (h : Hub τ) (e : HookEvent) :
    h.publish e =
      ((h.topics e.hook.kind).ids.map (fun id => (e.hook.kind, id)),
        ((h.topics e.hook.kind).entries.map fun p => p.2 e).foldl undergo h) := by
  obtain ⟨hcalls, hhub⟩ := foldl_call e.hook.kind e (h.topics e.hook.kind).entries h []
  refine Prod.ext ?_ hhub
  rw [Subscribers.ids, List.map_map]
  exact hcalls

theorem topics_undergo {kind : HookKind} {r : HubReaction τ} (hr : r.Spares kind) (h : Hub τ) :
    (h.undergo r).topics kind = h.topics kind := Scene.topics_run hr _

/-- A list changes only by what a subscriber does to it. -/
theorem topics_foldl {kind : HookKind} {l : List (HubReaction τ)} (hl : ∀ r ∈ l, r.Spares kind)
    (h : Hub τ) : (l.foldl undergo h).topics kind = h.topics kind := by
  induction l generalizing h with
  | nil => rfl
  | cons r l ih =>
    rw [List.foldl_cons, ih fun r' hr' => hl r' (List.mem_cons_of_mem _ hr')]
    exact topics_undergo (hl r List.mem_cons_self) h

/-! ## The entry that a message names -/

/-- Takes out the entry of the id that a message names. -/
def shed (h : Hub τ) (m : InboundMessage) : Hub τ :=
  match m.inReplyTo with
  | some id => { h with outbox := { h.outbox with replies := h.outbox.replies.erase id } }
  | none => h

/-- From `h` to `h'` nothing has changed but that nobody waits under the id that the message names. -/
structure Clears (m : InboundMessage) (h h' : Hub τ) : Prop where
  awaited?_eq : ∀ id, h'.outbox.replies.awaited? id =
    if m.inReplyTo = some id then none else h.outbox.replies.awaited? id
  slot?_eq : ∀ s, h'.outbox.replies.slot? s = h.outbox.replies.slot? s
  rest_eq : h' = { h with outbox := { h.outbox with replies :=
    { h.outbox.replies with entries := h'.outbox.replies.entries } } }

theorem clears_shed (m : InboundMessage) (h : Hub τ) : h.Clears m (h.shed m) := by
  rw [shed]
  split
  · rename_i id hid
    refine ⟨fun id' => ?_, fun s => rfl, rfl⟩
    show (h.outbox.replies.erase id).awaited? id' = _
    rw [Replies.awaited?_erase, hid]
    simp only [Option.some.injEq, eq_comm]
  · rename_i hid
    refine ⟨fun id' => ?_, fun s => rfl, rfl⟩
    rw [hid, if_neg (by simp)]

/-- **Where nobody waits under the id that a message names**, or the slot has been left, the message is
a hook for the subscribers of its kind, or for nobody. -/
theorem deliver_of_untaken {h : Hub τ} {m : InboundMessage}
    (hfree : ∀ id s, m.inReplyTo = some id → h.outbox.replies.awaited? id = some s →
      h.outbox.replies.slot? s = none) :
    h.deliver m = match hookOf? m with
      | some e => (h.shed m).publish e
      | none => ([], h.shed m) := by
  rw [deliver, shed]
  cases hm : m.inReplyTo with
  | none => rfl
  | some id =>
    have hresolve : h.outbox.replies.resolve id m.event = (false, h.outbox.replies.erase id) := by
      cases hs : h.outbox.replies.awaited? id with
      | none => simp only [Replies.resolve, hs, Replies.erase_of_none hs]
      | some s => simp only [Replies.resolve, hs, hfree id s hm hs]
    simp only [hresolve]
    rfl

/-! ## Places -/

/-- Where a message can go. -/
inductive Place where
  /-- To the request that waits on a slot. -/
  | request (s : Slot)
  /-- To the subscribers of a hook. -/
  | subscribers (e : HookEvent)
  | nobody

/-- The message names the request that waits on the slot, and the slot has not been left. -/
def Answers (h : Hub τ) (m : InboundMessage) (s : Slot) : Prop :=
  ∃ id, m.inReplyTo = some id ∧ h.outbox.replies.awaited? id = some s ∧
    (h.outbox.replies.slot? s).isSome

/-- **The place that a message is for.** -/
def IsFor (h : Hub τ) (m : InboundMessage) : Place → Prop
  | .request s => h.Answers m s
  | .subscribers e => (∀ s, ¬ h.Answers m s) ∧ m.event = .hook e.hook ∧ m.session = some e.session
  | .nobody => (∀ s, ¬ h.Answers m s) ∧ ((∀ k, m.event ≠ .hook k) ∨ m.session = none)

/-- **The request that waits on `s` gets the message**, and nobody else. -/
structure Answered (h : Hub τ) (m : InboundMessage) (s : Slot) : Prop where
  calls_eq : (h.deliver m).1 = []
  /-- Whoever waits on the slot has the event, whenever it looks. -/
  outcome?_eq : ∀ now w, w.slot = s →
    (h.deliver m).2.outbox.replies.outcome? now w = some (.ok m.event)
  /-- The slot holds the event, and the other slots hold what they held. -/
  slot?_eq : ∀ s', (h.deliver m).2.outbox.replies.slot? s' = if s' = s
    then (h.outbox.replies.slot? s').map fun st => { st with content := .reply m.event }
    else h.outbox.replies.slot? s'
  /-- Nobody waits under the id any more, and under the others the same as before. -/
  awaited?_eq : ∀ id, (h.deliver m).2.outbox.replies.awaited? id =
    if m.inReplyTo = some id then none else h.outbox.replies.awaited? id
  rest_eq : (h.deliver m).2 = { h with outbox := { h.outbox with replies := { h.outbox.replies with
    entries := (h.deliver m).2.outbox.replies.entries
    slots := (h.deliver m).2.outbox.replies.slots } } }

/-- **The subscribers of the kind of a hook get the message**, and nobody else. -/
structure Served (h : Hub τ) (m : InboundMessage) (e : HookEvent) : Prop where
  /-- Each of them is called once, in the order of their subscriptions. -/
  calls_eq : (h.deliver m).1 = (h.topics e.hook.kind).ids.map fun id => (e.hook.kind, id)
  /-- What becomes of the hub is what their reactions to the hook make of it in turn. -/
  hub_eq : (h.deliver m).2 =
    ((h.topics e.hook.kind).entries.map fun p => p.2 e).foldl undergo (h.shed m)
  /-- Before they are called nothing changes but that a stale entry goes. -/
  clears : h.Clears m (h.shed m)
  /-- They leave the other requests waiting, or close the table. -/
  replies_eq : (h.deliver m).2.outbox.replies = (h.shed m).outbox.replies ∨
    (h.deliver m).2.outbox.replies = (h.shed m).outbox.replies.closeAll
  /-- A list of subscribers changes only if one of them changes it. -/
  topics_eq : ∀ kind, (∀ p ∈ (h.topics e.hook.kind).entries, (p.2 e).Spares kind) →
    (h.deliver m).2.topics kind = h.topics kind

/-- **Nobody gets the message.** -/
structure Dropped (h : Hub τ) (m : InboundMessage) : Prop where
  calls_eq : (h.deliver m).1 = []
  /-- Nothing changes but that a stale entry goes. -/
  clears : h.Clears m (h.deliver m).2

/-- What happens at a place. -/
def Reaches (h : Hub τ) (m : InboundMessage) : Place → Prop
  | .request s => h.Answered m s
  | .subscribers e => h.Served m e
  | .nobody => h.Dropped m

section Places

variable {h : Hub τ} {m : InboundMessage} {s : Slot} {e : HookEvent}

theorem untaken_of_not_answers (hno : ∀ s, ¬ h.Answers m s) (id : RequestId) (s : Slot)
    (hid : m.inReplyTo = some id) (hs : h.outbox.replies.awaited? id = some s) :
    h.outbox.replies.slot? s = none :=
  Option.not_isSome_iff_eq_none.mp fun hsome => hno s ⟨id, hid, hs, hsome⟩

theorem answered_of_answers (ha : h.Answers m s) : h.Answered m s := by
  obtain ⟨id, hid, hs, hsome⟩ := ha
  obtain ⟨st, hst⟩ := Option.isSome_iff_exists.mp hsome
  let t : Replies := (h.outbox.replies.erase id).fill s (.reply m.event)
  have hdeliver : h.deliver m = ([], { h with outbox := { h.outbox with replies := t } }) := by
    simp only [deliver, hid, Replies.resolve, hs, hst]
    rfl
  have hslot : ∀ s', t.slot? s' = if s' = s
      then (h.outbox.replies.slot? s').map fun st => { st with content := .reply m.event }
      else h.outbox.replies.slot? s' := fun s' =>
    Replies.slot?_fill (h.outbox.replies.erase id) s s' (.reply m.event)
  refine ⟨?_, ?_, ?_, ?_, ?_⟩
  · rw [hdeliver]
  · rintro now w rfl
    rw [hdeliver]
    show t.outcome? now w = _
    rw [Replies.outcome?, hslot, if_pos rfl, hst]
    rfl
  · intro s'
    rw [hdeliver]
    exact hslot s'
  · intro id'
    rw [hdeliver, hid]
    refine (Replies.awaited?_erase h.outbox.replies id id').trans ?_
    simp only [Option.some.injEq, eq_comm]
  · rw [hdeliver]
    rfl

theorem served_of_hook (hno : ∀ s, ¬ h.Answers m s) (hevent : m.event = .hook e.hook)
    (hsession : m.session = some e.session) : h.Served m e := by
  have hhook : hookOf? m = some e := by
    rw [hookOf?, hevent, hsession]
  have hdeliver : h.deliver m = (h.shed m).publish e := by
    rw [deliver_of_untaken (untaken_of_not_answers hno), hhook]
  have hclears := clears_shed m h
  have htopics : (h.shed m).topics = h.topics := by
    rw [hclears.rest_eq]
  have hpublish := (h.shed m).publish_eq e
  rw [htopics] at hpublish
  refine ⟨?_, ?_, hclears, ?_, fun kind hspares => ?_⟩
  · rw [hdeliver, hpublish]
  · rw [hdeliver, hpublish]
  · rw [hdeliver]
    exact (later_publish (h.shed m) e).keeps.replies_eq
  · have hbefore : (h.shed m).topics kind = h.topics kind := congrFun htopics kind
    rw [hdeliver, hpublish]
    refine (topics_foldl (fun r hr => ?_) (h.shed m)).trans hbefore
    obtain ⟨p, hp, rfl⟩ := List.mem_map.mp hr
    exact hspares p hp

theorem dropped_of_no_hook (hno : ∀ s, ¬ h.Answers m s)
    (hnone : (∀ k, m.event ≠ .hook k) ∨ m.session = none) : h.Dropped m := by
  have hhook : hookOf? m = none := by
    rw [hookOf?]
    split
    · rename_i k session hevent hsession
      rcases hnone with hnot | hnot
      · exact absurd hevent (hnot k)
      · exact nomatch hsession.symm.trans hnot
    · rfl
  have hdeliver : h.deliver m = ([], h.shed m) := by
    rw [deliver_of_untaken (untaken_of_not_answers hno), hhook]
  refine ⟨?_, ?_⟩
  · rw [hdeliver]
  · rw [hdeliver]
    exact clears_shed m h

/-- A message reaches the place that it is for. -/
theorem reaches_of_isFor {p : Place} (hp : h.IsFor m p) : h.Reaches m p := by
  cases p with
  | request s => exact answered_of_answers hp
  | subscribers e => exact served_of_hook hp.1 hp.2.1 hp.2.2
  | nobody => exact dropped_of_no_hook hp.1 hp.2

theorem isFor_unique {p p' : Place} (hp : h.IsFor m p) (hp' : h.IsFor m p') : p' = p := by
  have hone : ∀ {s s'}, h.Answers m s → h.Answers m s' → s' = s := by
    rintro s s' ⟨id, hid, hs, -⟩ ⟨id', hid', hs', -⟩
    cases hid.symm.trans hid'
    exact Option.some.inj (hs'.symm.trans hs)
  cases p with
  | request s =>
    cases p' with
    | request s' => rw [hone hp hp']
    | subscribers e => exact absurd hp (hp'.1 s)
    | nobody => exact absurd hp (hp'.1 s)
  | subscribers e =>
    obtain ⟨hno, hevent, hsession⟩ := hp
    cases p' with
    | request s' => exact absurd hp' (hno s')
    | subscribers e' =>
      obtain ⟨-, hevent', hsession'⟩ := hp'
      obtain ⟨session, hook⟩ := e
      obtain ⟨session', hook'⟩ := e'
      cases hevent.symm.trans hevent'
      cases hsession.symm.trans hsession'
      rfl
    | nobody =>
      rcases hp'.2 with hnot | hnot
      · exact absurd hevent (hnot e.hook)
      · exact nomatch hsession.symm.trans hnot
  | nobody =>
    obtain ⟨hno, hnone⟩ := hp
    cases p' with
    | request s' => exact absurd hp' (hno s')
    | subscribers e' =>
      rcases hnone with hnot | hnot
      · exact absurd hp'.2.1 (hnot e'.hook)
      · exact nomatch hp'.2.2.symm.trans hnot
    | nobody => rfl

theorem exists_isFor (h : Hub τ) (m : InboundMessage) : ∃ p, h.IsFor m p := by
  by_cases ha : ∃ s, h.Answers m s
  · obtain ⟨s, hs⟩ := ha
    exact ⟨.request s, hs⟩
  · have hno : ∀ s, ¬ h.Answers m s := not_exists.mp ha
    cases hevent : m.event with
    | hook k =>
      cases hsession : m.session with
      | some session => exact ⟨.subscribers ⟨session, k⟩, hno, hevent, hsession⟩
      | none => exact ⟨.nobody, hno, .inr hsession⟩
    | processResult r => exact ⟨.nobody, hno, .inl fun k => by rw [hevent]; exact nofun⟩
    | pong => exact ⟨.nobody, hno, .inl fun k => by rw [hevent]; exact nofun⟩

end Places

/-- **Every message goes to exactly one place**, whatever the state of the hub: to the request that it
answers, or else to the subscribers of its hook, or else to nobody. -/
theorem exists_place (h : Hub τ) (m : InboundMessage) :
    ∃ p, h.IsFor m p ∧ (∀ p', h.IsFor m p' → p' = p) ∧ h.Reaches m p := by
  obtain ⟨p, hp⟩ := exists_isFor h m
  exact ⟨p, hp, fun p' hp' => isFor_unique hp hp', reaches_of_isFor hp⟩

/-- A hook that names a request goes to its subscribers when the request has not been heard of. -/
example :
    let h : Hub Unit := ((Hub.start {} ()).subscribe .prompt fun _ => .done).2
    (h.deliver ⟨some "main", some ⟨7⟩, .hook (.prompt ⟨none⟩)⟩).1 = [(.prompt, ⟨1⟩)] := rfl

end Hub

end SessionMux
