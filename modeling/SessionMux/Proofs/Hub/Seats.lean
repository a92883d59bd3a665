import SessionMux.Proofs.Hub.History

/-!
# Calls and their slots

The invariant behind the correlation of requests and replies: of every call the table of replies holds
what the history tells. While a call has a slot, no other slot belongs to its id (`Seated`), and the
slot is empty exactly as long as the call has no answer, unless the table has been closed (`Told`).

An act changes the table for one call, or for all of them alike, by closing it or by offering it a
message. `Carries` says that a call goes on as before, and is shown here for all acts but those of the
call itself.

* `Orderly`, `Inv` — the invariant, without and with the note that the table has been closed.
* `Carries.of_hear`, `Carries.of_keeps` — a message is offered, callbacks have acted.
* **`InOrder.carry`** — a call that goes on as before stays in order.
* **`orderly_inbound`** — a step of the inbound task keeps the invariant.
-/

namespace SessionMux

namespace World

variable {τ : Type}

/-! ## The invariant -/

/-- What a slot of the call `id` holds is what the history tells. -/
def Told (w : World τ) (id : RequestId) : SlotContent → Prop
  | .empty => answer? id w.history = none
  | .reply e => answer? id w.history = some e
  | .orphaned => w.replies.closed = true

/-- No slot belongs to the call `id`. -/
def Unseated (w : World τ) (id : RequestId) : Prop :=
  ∀ s content, w.replies.slot? s ≠ some ⟨id, content⟩

/-- The call `id` has registered, and the slot of `c` and no other belongs to it. -/
structure Seated (w : World τ) (id : RequestId) (kind : CallKind) (c : Call) : Prop where
  registered : .registered id kind ∈ w.history
  kind_eq : c.kind = kind
  slot : ∃ content, w.replies.slot? c.wait.slot = some ⟨id, content⟩
  unique : ∀ s content, w.replies.slot? s = some ⟨id, content⟩ → s = c.wait.slot
  told : ∀ s content, w.replies.slot? s = some ⟨id, content⟩ → w.Told id content

/-- The call `id` has not registered. -/
def Unregistered (w : World τ) (id : RequestId) : Prop :=
  ∀ x ∈ w.history, x.registers id = false

/-- The call `id` has not ended. -/
def Unended (w : World τ) (id : RequestId) : Prop := ∀ x ∈ w.history, x.ends id = false

/-- What holds of a call at a stage. -/
def Fits (w : World τ) (id : RequestId) (kind : CallKind) : Stage → Prop
  | .drawn => w.Unended id ∧ w.Unregistered id ∧ w.Unseated id
  | .registered c => w.Unended id ∧ w.Seated id kind c
  | .waiting c => w.Unended id ∧ w.Seated id kind c
  | .departing c => w.Seated id kind c

/-- What holds of a call that may be under way. -/
def Known (w : World τ) (id : RequestId) : Option Caller → Prop
  | some c => w.Fits id c.inquiry.kind c.stage
  | none => w.Unseated id

/-- Everything about the call `id` is in order. -/
structure InOrder (w : World τ) (id : RequestId) : Prop where
  accounted : Accounted w.history id
  known : w.Known id (w.callers.lookup id)

/-- **The invariant**, but for the note that the table has been closed. -/
structure Orderly (w : World τ) : Prop where
  sound : w.replies.Sound
  inOrder : ∀ id, w.InOrder id
  callers_le : ∀ id c, w.callers.lookup id = some c → id.value.toNat ≤ w.issued
  history_le : ∀ id, ∀ x ∈ w.history, x.id? = some id → id.value.toNat ≤ w.issued

/-- **The invariant.** -/
structure Inv (w : World τ) : Prop extends Orderly w where
  noted : w.replies.closed = true → .closed ∈ w.history

/-! ## Calls that do not notice -/

/-- From `w` to `w'` the call `id` goes on as before: what its slots hold changes only as the history
tells. -/
structure Carries (id : RequestId) (w w' : World τ) : Prop where
  callers_eq : w'.callers.lookup id = w.callers.lookup id
  grows : ∃ l, w'.history = w.history ++ l ∧ ∀ x ∈ l, x.id? ≠ some id
  forth : ∀ s content, w.replies.slot? s = some ⟨id, content⟩ →
    ∃ content', w'.replies.slot? s = some ⟨id, content'⟩
  back : ∀ s content', w'.replies.slot? s = some ⟨id, content'⟩ →
    ∃ content, w.replies.slot? s = some ⟨id, content⟩ ∧
      ((∃ x ∈ w.history, x.registers id = true) → w.Told id content → w'.Told id content')

section Carrying

variable {w w' : World τ} {id : RequestId} {kind : CallKind} {c : Call}

theorem Unseated.carry (h : w.Unseated id) (hc : Carries id w w') : w'.Unseated id := by
  intro s content' hs
  obtain ⟨content, hs', -⟩ := hc.back s content' hs
  exact h s content hs'

theorem exists_registers (h : Happening.registered id kind ∈ w.history) :
    ∃ x ∈ w.history, x.registers id = true :=
  ⟨_, h, by simp [Happening.registers]⟩

theorem Seated.carry (h : w.Seated id kind c) (hc : Carries id w w') : w'.Seated id kind c where
  registered := by
    obtain ⟨l, hl, -⟩ := hc.grows
    rw [hl]
    exact List.mem_append_left _ h.registered
  kind_eq := h.kind_eq
  slot := by
    obtain ⟨content, hs⟩ := h.slot
    exact hc.forth _ _ hs
  unique s content' hs := by
    obtain ⟨content, hs', -⟩ := hc.back s content' hs
    exact h.unique s content hs'
  told s content' hs := by
    obtain ⟨content, hs', htold⟩ := hc.back s content' hs
    exact htold (exists_registers h.registered) (h.told s content hs')

theorem Unregistered.carry (h : w.Unregistered id) (hc : Carries id w w') : w'.Unregistered id := by
  obtain ⟨l, hl, hid⟩ := hc.grows
  intro x hx
  rw [hl] at hx
  rcases List.mem_append.mp hx with hx | hx
  · exact h x hx
  · exact Happening.registers_of_id? (hid x hx)

theorem Unended.append {l : List Happening} (h : w.Unended id) (hl : w'.history = w.history ++ l)
    (hends : ∀ x ∈ l, x.ends id = false) : w'.Unended id := by
  intro x hx
  rw [hl] at hx
  exact (List.mem_append.mp hx).elim (h x) (hends x)

theorem Unended.carry (h : w.Unended id) (hc : Carries id w w') : w'.Unended id := by
  obtain ⟨l, hl, hid⟩ := hc.grows
  exact h.append hl fun x hx => Happening.ends_of_id? (hid x hx)

theorem Fits.carry {stage : Stage} (h : w.Fits id kind stage) (hc : Carries id w w') :
    w'.Fits id kind stage := by
  cases stage with
  | drawn => exact ⟨Unended.carry h.1 hc, Unregistered.carry h.2.1 hc, Unseated.carry h.2.2 hc⟩
  | registered c => exact ⟨Unended.carry h.1 hc, Seated.carry h.2 hc⟩
  | waiting c => exact ⟨Unended.carry h.1 hc, Seated.carry h.2 hc⟩
  | departing c => exact Seated.carry h hc

/-- **A call that does not notice stays in order.** -/
theorem InOrder.carry (h : w.InOrder id) (hc : Carries id w w') : w'.InOrder id := by
  obtain ⟨l, hl, hid⟩ := hc.grows
  refine ⟨?_, ?_⟩
  · rw [hl]
    exact h.accounted.append (fun x hx => Happening.registers_of_id? (hid x hx))
      (fun x hx => Happening.ends_of_id? (hid x hx))
  · have hknown := h.known
    rw [hc.callers_eq]
    cases hlook : w.callers.lookup id with
    | none =>
      rw [hlook] at hknown
      exact Unseated.carry hknown hc
    | some caller =>
      rw [hlook] at hknown
      exact Fits.carry hknown hc

/-- What a history that goes on without a message for the call `id` tells of it stays. -/
theorem Told.append {content : SlotContent} {l : List Happening} (h : w.Told id content)
    (hreg : ∃ x ∈ w.history, x.registers id = true) (hl : w'.history = w.history ++ l)
    (hreply : ∀ x ∈ l, x.reply? id = none)
    (hclosed : w.replies.closed = true → w'.replies.closed = true) : w'.Told id content := by
  have hsame : answer? id w'.history = answer? id w.history := by
    have hnone : l.findSome? (Happening.reply? id) = none := List.findSome?_eq_none_iff.mpr hreply
    rw [hl, answer?_append hreg, hnone, Option.or_none]
  cases content with
  | empty => exact hsame.trans h
  | reply e => exact hsame.trans h
  | orphaned => exact hclosed h

/-- Slots of other calls may change as they like. -/
theorem Carries.of_same {l : List Happening} (hcallers : w'.callers.lookup id = w.callers.lookup id)
    (hl : w'.history = w.history ++ l) (hid : ∀ x ∈ l, x.id? ≠ some id)
    (hreply : ∀ x ∈ l, x.reply? id = none)
    (hclosed : w.replies.closed = true → w'.replies.closed = true)
    (hslots : ∀ s content, w'.replies.slot? s = some ⟨id, content⟩ ↔
      w.replies.slot? s = some ⟨id, content⟩) : Carries id w w' where
  callers_eq := hcallers
  grows := ⟨l, hl, hid⟩
  forth s content hs := ⟨content, (hslots s content).mpr hs⟩
  back s content hs :=
    ⟨content, (hslots s content).mp hs, fun hreg htold => htold.append hreg hl hreply hclosed⟩

/-- Every slot may change, if each keeps its id and holds what the history tells. -/
theorem Carries.of_map {l : List Happening} {f : SlotState → SlotState}
    (hcallers : w'.callers.lookup id = w.callers.lookup id)
    (hl : w'.history = w.history ++ l) (hid : ∀ x ∈ l, x.id? ≠ some id)
    (hslots : ∀ s, w'.replies.slot? s = (w.replies.slot? s).map f)
    (hf : ∀ st, (f st).id = st.id)
    (htold : ∀ content, (∃ x ∈ w.history, x.registers id = true) → w.Told id content →
      w'.Told id (f ⟨id, content⟩).content) : Carries id w w' where
  callers_eq := hcallers
  grows := ⟨l, hl, hid⟩
  forth s content hs := by
    refine ⟨(f ⟨id, content⟩).content, ?_⟩
    rw [hslots, hs, Option.map_some]
    have hi : (f ⟨id, content⟩).id = id := hf ⟨id, content⟩
    exact congrArg some (congrArg (fun i => SlotState.mk i (f ⟨id, content⟩).content) hi)
  back s content' hs := by
    rw [hslots, Option.map_eq_some_iff] at hs
    obtain ⟨⟨i, content⟩, hs', hst⟩ := hs
    have hi : i = id := by
      have := hf ⟨i, content⟩
      rw [hst] at this
      exact this.symm
    subst hi
    refine ⟨content, hs', fun hreg ht => ?_⟩
    have := htold content hreg ht
    rwa [hst] at this

/-- One change after another. -/
theorem Carries.trans {w'' : World τ} (h : Carries id w w') (h' : Carries id w' w'') :
    Carries id w w'' where
  callers_eq := h'.callers_eq.trans h.callers_eq
  grows := by
    obtain ⟨l, hl, hid⟩ := h.grows
    obtain ⟨l', hl', hid'⟩ := h'.grows
    refine ⟨l ++ l', by rw [hl', hl, List.append_assoc], ?_⟩
    intro x hx
    exact (List.mem_append.mp hx).elim (hid x) (hid' x)
  forth s content hs := by
    obtain ⟨content', hs'⟩ := h.forth s content hs
    exact h'.forth s content' hs'
  back s content'' hs := by
    obtain ⟨content', hs', htold'⟩ := h'.back s content'' hs
    obtain ⟨content, hs'', htold⟩ := h.back s content' hs'
    refine ⟨content, hs'', fun hreg ht => htold' ?_ (htold hreg ht)⟩
    obtain ⟨l, hl, -⟩ := h.grows
    obtain ⟨x, hx, hxid⟩ := hreg
    exact ⟨x, by rw [hl]; exact List.mem_append_left _ hx, hxid⟩

/-- The table is closed. -/
theorem Carries.of_closeAll (hs : w.replies.Sound) (hcallers : w'.callers = w.callers)
    (hl : w'.history = w.history) (hr : w'.replies = w.replies.closeAll) : Carries id w w' := by
  refine Carries.of_map (l := []) (f := SlotState.orphan) (by rw [hcallers])
    (by rw [hl, List.append_nil]) (fun x hx => absurd hx List.not_mem_nil) ?_ ?_ ?_
  · intro s
    rw [hr, hs.slot?_closeAll]
  · intro st
    rw [SlotState.orphan]
    split <;> rfl
  · intro content _ htold
    cases content with
    | empty => exact (by rw [hr]; rfl : w'.replies.closed = true)
    | reply e => exact (by rw [hl]; exact htold : answer? id w'.history = some e)
    | orphaned => exact (by rw [hr]; rfl : w'.replies.closed = true)

theorem settle_id (st : SlotState) (id : RequestId) (content : SlotContent) :
    (st.settle id content).id = st.id := by
  rw [SlotState.settle]
  split
  · rename_i h
    rw [h]
  · rfl

theorem settle_of_ne {id' : RequestId} (h : id ≠ id') (content content' : SlotContent) :
    SlotState.settle id' content' ⟨id, content⟩ = ⟨id, content⟩ := by
  rw [SlotState.settle, if_neg]
  intro he
  exact h (SlotState.mk.inj he).1

/-- A message is offered to the table. -/
theorem Carries.of_hear {m : InboundMessage} (hs : w.replies.Sound)
    (hcallers : w'.callers = w.callers) (hl : w'.history = w.history ++ [.delivered m])
    (hr : w'.replies = w.replies.hear m) : Carries id w w' := by
  have hid : ∀ x ∈ [Happening.delivered m], x.id? ≠ some id :=
    List.forall_mem_singleton.mpr nofun
  have hclosed : w.replies.closed = true → w'.replies.closed = true := by
    rw [hr, Replies.closed_hear]
    exact fun h => h
  have hforeign : m.inReplyTo ≠ some id → ∀ x ∈ [Happening.delivered m], x.reply? id = none := by
    intro hne
    exact List.forall_mem_singleton.mpr (if_neg hne)
  cases hm : m.inReplyTo with
  | none =>
    refine Carries.of_same (by rw [hcallers]) hl hid (hforeign (by rw [hm]; exact nofun))
      hclosed ?_
    intro s content
    rw [hr, Replies.hear, hm]
  | some id' =>
    refine Carries.of_map (f := SlotState.settle id' (.reply m.event)) (by rw [hcallers]) hl hid ?_
      (fun st => settle_id st id' _) ?_
    · intro s
      rw [hr, Replies.hear, hm]
      exact hs.slot?_resolve id' m.event s
    · intro content hreg htold
      by_cases hne : id = id'
      · subst hne
        have hanswer : answer? id w'.history = (answer? id w.history).or (some m.event) := by
          have hown : Happening.reply? id (.delivered m) = some m.event := if_pos hm
          rw [hl, answer?_append hreg, List.findSome?_singleton, hown]
        cases content with
        | empty =>
          rw [SlotState.settle, if_pos rfl]
          show answer? id w'.history = some m.event
          rw [hanswer, show answer? id w.history = none from htold, Option.none_or]
        | reply e =>
          rw [SlotState.settle, if_neg (by simp)]
          show answer? id w'.history = some e
          rw [hanswer, show answer? id w.history = some e from htold, Option.some_or]
        | orphaned =>
          rw [SlotState.settle, if_neg (by simp)]
          exact hclosed htold
      · rw [settle_of_ne hne]
        exact htold.append hreg hl (hforeign (by rw [hm]; exact fun h => hne (Option.some.inj h).symm))
          hclosed

/-- What callers and callbacks share has changed, but nothing for one call alone. -/
theorem Carries.of_keeps (hs : w.replies.Sound) (hcallers : w'.callers = w.callers)
    (hl : w'.history = w.history) (hkeeps : w.hub.outbox.Keeps w'.hub.outbox) : Carries id w w' := by
  rcases hkeeps.replies_eq with he | he
  · have hr : w'.replies = w.replies := he
    refine Carries.of_same (l := []) (by rw [hcallers]) (by rw [hl, List.append_nil])
      (fun x hx => absurd hx List.not_mem_nil) (fun x hx => absurd hx List.not_mem_nil)
      (by rw [hr]; exact fun h => h) ?_
    intro s content
    rw [hr]
  · exact Carries.of_closeAll hs hcallers hl he

theorem sound_of_keeps {b b' : Outbox τ} (h : b.replies.Sound) (hkeeps : b.Keeps b') :
    b'.replies.Sound := by
  rcases hkeeps.replies_eq with he | he
  · rw [he]
    exact h
  · rw [he]
    exact h.closeAll

end Carrying

/-! ## Acts that change no call of their own -/

section Bystanders

variable {w w' : World τ}

theorem Orderly.of_carries (h : w.Orderly) (hc : ∀ id, Carries id w w') (hs : w'.replies.Sound)
    (hissued : w.issued ≤ w'.issued)
    (hhistory : ∀ x ∈ w'.history, x ∈ w.history ∨ x.id? = none) : w'.Orderly where
  sound := hs
  inOrder id := (h.inOrder id).carry (hc id)
  callers_le id c hlook := by
    rw [(hc id).callers_eq] at hlook
    exact Nat.le_trans (h.callers_le id c hlook) hissued
  history_le id x hx hid := by
    rcases hhistory x hx with hx | hnone
    · exact Nat.le_trans (h.history_le id x hx hid) hissued
    · rw [hnone] at hid
      cases hid

theorem Orderly.of_keeps (h : w.Orderly) (hcallers : w'.callers = w.callers)
    (hhistory : w'.history = w.history) (hkeeps : w.hub.outbox.Keeps w'.hub.outbox) :
    w'.Orderly :=
  h.of_carries (fun _ => Carries.of_keeps h.sound hcallers hhistory hkeeps)
    (sound_of_keeps h.sound hkeeps) hkeeps.issued_le
    (fun x hx => .inl (by rw [← hhistory]; exact hx))

/-- Something has been recorded that concerns no call. -/
theorem Orderly.record (h : w.Orderly) {l : List Happening} (hid : ∀ x ∈ l, x.id? = none)
    (hreply : ∀ x ∈ l, ∀ id, x.reply? id = none) : (w.record l).Orderly := by
  refine h.of_carries (fun id => ?_) h.sound (Nat.le_refl _) ?_
  · refine Carries.of_same rfl rfl ?_ (fun x hx => hreply x hx id) (fun h => h) (fun _ _ => Iff.rfl)
    intro x hx he
    rw [hid x hx] at he
    cases he
  · intro x hx
    exact (List.mem_append.mp hx).imp_right (hid x)

theorem orderly_deliver (h : w.Orderly) (m : InboundMessage) (phase : InboundPhase) :
    ({ w with hub := { (w.hub.deliver m).2 with phase := phase } }.record [.delivered m]).Orderly := by
  let t := w.replies.hear m
  let b : Outbox τ := { w.hub.outbox with replies := t }
  have hmid : ((w.withOutbox b).record [.delivered m]).Orderly := by
    refine h.of_carries (fun id => Carries.of_hear h.sound rfl rfl rfl) (h.sound.hear m)
      (Nat.le_refl _) ?_
    intro x hx
    refine (List.mem_append.mp hx).imp_right fun hx => ?_
    rw [List.mem_singleton.mp hx]
    rfl
  exact hmid.of_keeps rfl rfl (Hub.later_deliver w.hub m).keeps

theorem orderly_inbound (h : w.Orderly) : w.inbound.Orderly := by
  rw [inbound]
  split
  · rename_i notices hub hs
    rcases (Hub.moves_of_step? hs).keeps_or_deliver with ⟨hkeeps, hnone⟩ | ⟨m, rfl, rfl⟩
    · have hnil : notices.filterMap Notice.happening? = [] := by
        rw [List.filterMap_eq_nil_iff]
        intro x hx
        cases x with
        | decoded r => rfl
        | delivered m calls => exact absurd hx (hnone m calls)
      rw [hnil]
      exact h.of_keeps rfl (List.append_nil _) hkeeps
    · exact orderly_deliver h m .fetching
  · exact h

end Bystanders

end World

end SessionMux
