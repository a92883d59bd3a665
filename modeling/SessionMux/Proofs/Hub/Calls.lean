import SessionMux.Proofs.Hub.Seats

/-!
# The acts of one call

Each act of a call keeps the invariant: to draw an id, to register, to send, to end in whichever way,
and to leave the slot. The other calls do not notice (`carries_of_own`), because the act settles and
empties slots of one id only; for the call itself it is shown what the table holds now and what the
history has become.

* `Orderly.of_call` — it is enough to look at the call whose act it is.
* `Orderly.goOn` — acts that leave the table as it is.
* `orderly_draw`, `orderly_register`, `orderly_leave` — acts that do not.
* **`Seated.justified`** — a call that waits comes to an end that is justified.
-/

namespace SessionMux

namespace World

variable {τ : Type}

section Calls

variable {w w' : World τ} {id : RequestId} {caller : Caller}

theorem lookup_goOn (w : World τ) (id id' : RequestId) (stage : Stage) :
    (w.goOn id stage).callers.lookup id' =
      if id' = id then (w.callers.lookup id').map fun c => { c with stage := stage }
      else w.callers.lookup id' :=
  lookup_map_at id' id (fun c : Caller => { c with stage := stage }) w.callers

theorem lookup_dismiss (w : World τ) (id id' : RequestId) :
    (w.dismiss id).callers.lookup id' = if id' = id then none else w.callers.lookup id' :=
  lookup_filter_ne id' id w.callers

/-- An act of the call `id` keeps everything in order if it keeps that call in order and the others
do not notice. -/
theorem Orderly.of_call (h : w.Orderly) (id : RequestId)
    (hother : ∀ id', id' ≠ id → Carries id' w w')
    (hself : w'.InOrder id) (hs : w'.replies.Sound) (hissued : w.issued ≤ w'.issued)
    (hle : id.value.toNat ≤ w'.issued)
    (hhistory : ∀ x ∈ w'.history, x ∈ w.history ∨ x.id? = some id) : w'.Orderly where
  sound := hs
  inOrder id' := by
    by_cases hid : id' = id
    · rw [hid]
      exact hself
    · exact (h.inOrder id').carry (hother id' hid)
  callers_le id' c hlook := by
    by_cases hid : id' = id
    · rw [hid]
      exact hle
    · rw [(hother id' hid).callers_eq] at hlook
      exact Nat.le_trans (h.callers_le id' c hlook) hissued
  history_le id' x hx hxid := by
    rcases hhistory x hx with hx | hown
    · exact Nat.le_trans (h.history_le id' x hx hxid) hissued
    · rw [hown] at hxid
      rw [← Option.some.inj hxid]
      exact hle

/-- An id that has not been given out is new to the callers and to the history. -/
theorem Orderly.new (h : w.Orderly) (id : RequestId) (hid : w.issued < id.value.toNat) :
    w.callers.lookup id = none ∧ ∀ x ∈ w.history, x.id? ≠ some id := by
  refine ⟨?_, ?_⟩
  · cases hlook : w.callers.lookup id with
    | none => rfl
    | some c =>
      have := h.callers_le id c hlook
      omega
  · intro x hx hxid
    have := h.history_le id x hx hxid
    omega

theorem orderly_draw (h : w.Orderly) (q : Inquiry) (hb : w.issued + 1 < 2 ^ 64) :
    (w.draw q).Orderly := by
  have hid : w.hub.outbox.nextId.value.toNat = w.issued + 1 :=
    Outbox.toNat_nextId w.hub.outbox hb
  obtain ⟨hnew, hhistory⟩ := h.new w.hub.outbox.nextId (by omega)
  have hlook : ∀ id, (w.draw q).callers.lookup id =
      if id = w.hub.outbox.nextId then some ⟨q, .drawn⟩ else w.callers.lookup id := fun id =>
    lookup_append_one id w.hub.outbox.nextId (⟨q, .drawn⟩ : Caller) w.callers hnew
  have hun : w.Unseated w.hub.outbox.nextId := by
    have := (h.inOrder w.hub.outbox.nextId).known
    rwa [hnew] at this
  refine h.of_call w.hub.outbox.nextId ?_ ⟨(h.inOrder _).accounted, ?_⟩ h.sound
    (Nat.le_succ _) (Nat.le_of_eq hid) (fun x hx => .inl hx)
  · intro id' hne
    refine Carries.of_same (l := []) (by rw [hlook, if_neg hne]) (List.append_nil _).symm
      (fun x hx => absurd hx List.not_mem_nil) (fun x hx => absurd hx List.not_mem_nil)
      (fun hcl => hcl) (fun _ _ => Iff.rfl)
  · rw [hlook, if_pos rfl]
    exact ⟨fun x hx => Happening.ends_of_id? (hhistory x hx),
      fun x hx => Happening.registers_of_id? (hhistory x hx), hun⟩

/-- What holds of a call that is under way. -/
theorem Orderly.underway (h : w.Orderly) (hlook : w.callers.lookup id = some caller) :
    w.Fits id caller.inquiry.kind caller.stage := by
  have := (h.inOrder id).known
  rwa [hlook] at this

/-- Other calls do not notice what the history records of one. -/
theorem carries_of_own {l : List Happening} {id' : RequestId} (hne : id' ≠ id)
    (hcallers : w'.callers.lookup id' = w.callers.lookup id') (hl : w'.history = w.history ++ l)
    (hid : ∀ x ∈ l, x.id? = some id)
    (hclosed : w.replies.closed = true → w'.replies.closed = true)
    (hslots : ∀ s content, w'.replies.slot? s = some ⟨id', content⟩ ↔
      w.replies.slot? s = some ⟨id', content⟩) : Carries id' w w' := by
  refine Carries.of_same hcallers hl ?_ ?_ hclosed hslots
  · intro x hx he
    rw [hid x hx] at he
    exact hne (Option.some.inj he).symm
  · intro x hx
    have := hid x hx
    cases x with
    | delivered m => cases this
    | registered i k => rfl
    | unsent i f => rfl
    | closed => rfl
    | refused => rfl
    | ended i r => rfl
    | abandoned i => rfl

theorem map_settle_eq_some_iff {st : Option SlotState} {id id' : RequestId} (hne : id' ≠ id)
    (content content' : SlotContent) :
    st.map (SlotState.settle id content') = some ⟨id', content⟩ ↔ st = some ⟨id', content⟩ := by
  rw [Option.map_eq_some_iff]
  constructor
  · rintro ⟨⟨i, c⟩, hst, hsettle⟩
    have hi : i = id' := by
      have := settle_id ⟨i, c⟩ id content'
      rw [hsettle] at this
      exact this.symm
    subst hi
    rw [settle_of_ne hne] at hsettle
    rw [hst, hsettle]
  · intro hst
    exact ⟨_, hst, settle_of_ne hne content content'⟩

theorem map_settle_ne_of_unseated (hun : w.Unseated id) (s : Slot) (id' : RequestId)
    (content content' : SlotContent) :
    (w.replies.slot? s).map (SlotState.settle id' content') ≠ some ⟨id, content⟩ := by
  intro he
  obtain ⟨⟨i, c⟩, hst, hsettle⟩ := Option.map_eq_some_iff.mp he
  have hi : i = id := by
    have := settle_id ⟨i, c⟩ id' content'
    rw [hsettle] at this
    exact this.symm
  subst hi
  exact hun s c hst

/-- A call registers while the table is open. -/
theorem orderly_registered (h : w.Orderly) {q : Inquiry} (hlook : w.callers.lookup id = some ⟨q, .drawn⟩)
    (hcl : w.replies.closed = false) {c : Call} (hkind : c.kind = q.kind)
    (hseat : c.wait.slot = ⟨w.replies.given⟩) :
    (((w.withOutbox { w.hub.outbox with replies := w.replies.registered id }).goOn id
      (.registered c)).record [.registered id q.kind]).Orderly := by
  obtain ⟨hends, hunreg, hun⟩ := h.underway hlook
  have hslot : ∀ s, (w.replies.registered id).slot? s =
      if s = ⟨w.replies.given⟩ then some ⟨id, .empty⟩
      else (w.replies.slot? s).map (SlotState.settle id .orphaned) :=
    h.sound.slot?_registered id
  have hown : ∀ s content, (w.replies.registered id).slot? s = some ⟨id, content⟩ →
      s = ⟨w.replies.given⟩ ∧ content = .empty := by
    intro s content hs
    rw [hslot] at hs
    by_cases hg : s = ⟨w.replies.given⟩
    · rw [if_pos hg] at hs
      exact ⟨hg, (SlotState.mk.inj (Option.some.inj hs)).2.symm⟩
    · rw [if_neg hg] at hs
      exact absurd hs (map_settle_ne_of_unseated hun s id content .orphaned)
  refine h.of_call id ?_ ⟨(h.inOrder id).accounted.register hunreg q.kind, ?_⟩
    (h.sound.registered id hcl) (Nat.le_refl _) (h.callers_le id _ hlook) ?_
  · intro id' hne
    refine carries_of_own hne ((lookup_goOn w id id' _).trans (if_neg hne)) rfl ?_ ?_ ?_
    · exact List.forall_mem_singleton.mpr rfl
    · intro hc
      rw [hcl] at hc
      cases hc
    · intro s content
      show (w.replies.registered id).slot? s = _ ↔ _
      rw [hslot]
      by_cases hs : s = ⟨w.replies.given⟩
      · rw [if_pos hs, hs, h.sound.fresh _ (Nat.le_refl _)]
        constructor
        · intro he
          exact absurd (SlotState.mk.inj (Option.some.inj he)).1.symm hne
        · intro he
          cases he
      · rw [if_neg hs]
        exact map_settle_eq_some_iff hne content .orphaned
  · have hlook' : (w.goOn id (.registered c)).callers.lookup id = some ⟨q, .registered c⟩ := by
      rw [lookup_goOn, if_pos rfl, hlook]
      rfl
    show Known _ id ((w.goOn id (.registered c)).callers.lookup id)
    rw [hlook']
    refine ⟨Unended.append hends rfl ?_, ⟨?_, hkind, ⟨.empty, ?_⟩, ?_, ?_⟩⟩
    · exact List.forall_mem_singleton.mpr rfl
    · exact List.mem_append_right _ List.mem_cons_self
    · rw [hseat]
      exact (hslot _).trans (if_pos rfl)
    · intro s content hs
      rw [hseat]
      exact (hown s content hs).1
    · intro s content hs
      rw [(hown s content hs).2]
      exact answer?_registered q.kind hunreg
  · intro x hx
    refine (List.mem_append.mp hx).imp_right fun hx => ?_
    rw [List.mem_singleton.mp hx]
    rfl

/-- A call that cannot register ends. -/
theorem orderly_dismiss (h : w.Inv) {q : Inquiry} (hlook : w.callers.lookup id = some ⟨q, .drawn⟩)
    (hcl : w.replies.closed = true) :
    ((w.dismiss id).record [.ended id (.error .connectionClosed)]).Orderly := by
  obtain ⟨hends, -, hun⟩ := h.underway hlook
  refine h.of_call id ?_ ⟨?_, ?_⟩ h.sound (Nat.le_refl _) (h.callers_le id _ hlook) ?_
  · intro id' hne
    refine carries_of_own hne ((lookup_dismiss w id id').trans (if_neg hne)) rfl ?_ (fun hc => hc)
      (fun _ _ => Iff.rfl)
    exact List.forall_mem_singleton.mpr rfl
  · refine (h.inOrder id).accounted.end hends rfl ?_
    intro r hr
    cases hr
    exact .closed (h.noted hcl)
  · show Known _ id ((w.dismiss id).callers.lookup id)
    rw [lookup_dismiss, if_pos rfl]
    exact hun
  · intro x hx
    refine (List.mem_append.mp hx).imp_right fun hx => ?_
    rw [List.mem_singleton.mp hx]
    rfl

theorem orderly_register (h : w.Inv) (id : RequestId) : (w.register id).Orderly := by
  rw [register]
  split
  · rename_i q hlook
    have hmid : (q.message id).id = id := by cases q <;> rfl
    cases hcl : w.replies.closed with
    | true =>
      have hreg := Replies.register_closed (t := w.hub.outbox.replies) id hcl
      simp only [Outbox.enlist, hmid, hreg]
      exact orderly_dismiss h hlook hcl
    | false =>
      have hreg := Replies.register_open (t := w.hub.outbox.replies) id hcl
      simp only [Outbox.enlist, hmid, hreg]
      exact orderly_registered h.toOrderly hlook hcl rfl rfl
  · exact h.toOrderly

/-- What a call has its slot for goes on when the history does, but for messages and ends. -/
theorem Seated.record {kind : CallKind} {c : Call} (h : w.Seated id kind c) {l : List Happening}
    (hl : w'.history = w.history ++ l) (hreply : ∀ x ∈ l, x.reply? id = none)
    (hr : w'.replies = w.replies) : w'.Seated id kind c where
  registered := by
    rw [hl]
    exact List.mem_append_left _ h.registered
  kind_eq := h.kind_eq
  slot := by
    rw [hr]
    exact h.slot
  unique := by
    rw [hr]
    exact h.unique
  told s content hs := by
    rw [hr] at hs
    exact (h.told s content hs).append (exists_registers h.registered) hl hreply
      (by rw [hr]; exact fun hc => hc)

/-- A call that has its slot goes on to another stage, and the table stays as it is. -/
theorem Orderly.goOn (h : w.Orderly) (hlook : w.callers.lookup id = some caller) {stage : Stage}
    {l : List Happening} (hcallers : w'.callers = (w.goOn id stage).callers)
    (hl : w'.history = w.history ++ l) (hr : w'.replies = w.replies) (hi : w'.issued = w.issued)
    (hid : ∀ x ∈ l, x.id? = some id) (hacc : Accounted (w.history ++ l) id)
    (hfits : w'.Fits id caller.inquiry.kind stage) : w'.Orderly := by
  refine h.of_call id ?_ ⟨hl ▸ hacc, ?_⟩ (hr ▸ h.sound) (Nat.le_of_eq hi.symm)
    (hi ▸ h.callers_le id caller hlook) ?_
  · intro id' hne
    refine carries_of_own hne ?_ hl hid (by rw [hr]; exact fun hc => hc) (fun _ _ => by rw [hr])
    rw [hcallers, lookup_goOn, if_neg hne]
  · rw [hcallers, lookup_goOn, if_pos rfl, hlook]
    exact hfits
  · intro x hx
    rw [hl] at hx
    exact (List.mem_append.mp hx).imp_right (hid x)

/-- A call that has its slot ends, or is abandoned, and the table stays as it is. -/
theorem Orderly.conclude (h : w.Orderly) (hlook : w.callers.lookup id = some caller) {c : Call}
    (hends : w.Unended id) (hseat : w.Seated id caller.inquiry.kind c) {x : Happening}
    (hid : x.id? = some id) (hreg : x.registers id = false) (hreply : x.reply? id = none)
    (hx : ∀ r, x = .ended id r → Justified w.history id r) :
    ((w.goOn id (.departing c)).record [x]).Orderly := by
  refine h.goOn hlook (l := [x]) rfl rfl rfl rfl ?_ ?_ ?_
  · exact List.forall_mem_singleton.mpr hid
  · exact (h.inOrder id).accounted.end hends hreg hx
  · refine hseat.record (l := [x]) rfl ?_ rfl
    exact List.forall_mem_singleton.mpr hreply

theorem orderly_send (h : w.Orderly) (id : RequestId) : (w.send id).Orderly := by
  rw [send]
  split
  · rename_i q c hlook
    obtain ⟨hends, hseat⟩ : w.Unended id ∧ w.Seated id q.kind c := h.underway hlook
    have hnil : ∀ {P : Happening → Prop}, ∀ x ∈ [], P x := fun x hx => absurd hx List.not_mem_nil
    split
    · rename_i b hb
      obtain ⟨text, rfl⟩ := Outbox.transmit_ok hb
      refine h.goOn hlook (l := []) rfl (List.append_nil _).symm rfl rfl hnil
        ((h.inOrder id).accounted.append hnil hnil) ⟨hends, ?_⟩
      exact hseat.record (l := []) (List.append_nil _).symm hnil rfl
    · -- the failure is recorded first, so that it justifies the end
      rename_i f hf
      have hone : ∀ {P : Happening → Prop}, P (.unsent id f) → ∀ x ∈ [Happening.unsent id f], P x :=
        List.forall_mem_singleton.mpr
      have hmid : (w.record [.unsent id f]).Orderly := by
        refine h.of_call id ?_ ⟨?_, ?_⟩ h.sound (Nat.le_refl _) (h.callers_le id _ hlook) ?_
        · exact fun id' hne => carries_of_own hne rfl rfl (hone rfl) (fun hc => hc) (fun _ _ => Iff.rfl)
        · exact (h.inOrder id).accounted.append (hone rfl) (hone rfl)
        · show Known _ id (w.callers.lookup id)
          rw [hlook]
          exact ⟨Unended.append hends rfl (hone rfl), hseat.record rfl (hone rfl) rfl⟩
        · exact fun x hx => (List.mem_append.mp hx).imp_right
            (hone (P := fun y => y.id? = some id) rfl x)
      have hunsent : ∀ r, Happening.ended id (.error f) = .ended id r →
          Justified (w.history ++ [.unsent id f]) id r := by
        intro r hr
        cases hr
        exact .unsent (List.mem_append_right _ List.mem_cons_self)
      have hfinal : (((w.record [.unsent id f]).goOn id (.departing c)).record
          [.ended id (.error f)]).Orderly :=
        hmid.conclude hlook (Unended.append hends rfl (hone rfl)) (hseat.record rfl (hone rfl) rfl)
          rfl rfl rfl hunsent
      have htwice : ((w.record [.unsent id f]).goOn id (.departing c)).record [.ended id (.error f)]
          = (w.goOn id (.departing c)).record [.unsent id f, .ended id (.error f)] := by
        simp only [record, World.goOn, List.append_assoc, List.cons_append, List.nil_append]
      rw [← htwice]
      exact hfinal
  · exact h

theorem justified_result {history : List Happening} {kind : CallKind} {e : Event}
    (hreg : .registered id kind ∈ history) (hanswer : answer? id history = some e)
    (label : String) : Justified history id (kind.result label (.ok e)) := by
  cases kind with
  | process =>
    cases e with
    | processResult r => exact .answered (r := .process r) hreg hanswer
    | hook k => exact .unexpected hreg hanswer (by rintro (r | _) hk he <;> cases hk; cases he)
    | pong => exact .unexpected hreg hanswer (by rintro (r | _) hk he <;> cases hk; cases he)
  | ping =>
    cases e with
    | pong => exact .answered (r := .pong) hreg hanswer
    | hook k => exact .unexpected hreg hanswer (by rintro (r | _) hk he <;> cases hk; cases he)
    | processResult r =>
      exact .unexpected hreg hanswer (by rintro (r | _) hk he <;> cases hk; cases he)

/-- **A call that waits comes to an end that is justified.** -/
theorem Seated.justified {kind : CallKind} {c : Call} (h : w.Seated id kind c)
    (hnoted : w.replies.closed = true → .closed ∈ w.history) {r : Except MuxFault CallResult}
    (hr : w.hub.outbox.outcome? w.now c = some r) : Justified w.history id r := by
  obtain ⟨content, hs⟩ := h.slot
  have htold := h.told _ _ hs
  have hs' : w.hub.outbox.replies.slot? c.wait.slot = some ⟨id, content⟩ := hs
  rw [Outbox.outcome?, Replies.outcome?, hs', Option.map_some] at hr
  cases content with
  | empty =>
    by_cases hd : c.wait.deadline ≤ w.now
    · simp only [hd, if_true, Option.map_some, Option.some.injEq] at hr
      rw [← hr]
      exact .timedOut htold
    · simp [hd] at hr
  | orphaned =>
    simp only [Option.map_some, Option.some.injEq] at hr
    rw [← hr]
    exact .closed (hnoted htold)
  | reply e =>
    simp only [Option.map_some, Option.some.injEq] at hr
    have hanswer : answer? id w.history = some e := htold
    have hreg := h.registered
    have hkind := h.kind_eq
    rw [← hr, hkind]
    exact justified_result hreg hanswer _

theorem orderly_conclude (h : w.Inv) (id : RequestId) : (w.conclude id).Orderly := by
  rw [World.conclude]
  split
  · rename_i q c hlook
    obtain ⟨hends, hseat⟩ : w.Unended id ∧ w.Seated id q.kind c := h.underway hlook
    split
    · rename_i r hr
      refine h.toOrderly.conclude hlook hends hseat rfl rfl rfl ?_
      intro r' hr'
      cases hr'
      exact hseat.justified h.noted hr
    · exact h.toOrderly
  · exact h.toOrderly

theorem orderly_abandon (h : w.Orderly) (id : RequestId) : (w.abandon id).Orderly := by
  rw [abandon]
  split
  · rename_i q c hlook
    obtain ⟨hends, hseat⟩ : w.Unended id ∧ w.Seated id q.kind c := h.underway hlook
    exact h.conclude hlook hends hseat rfl rfl rfl (fun r hr => by cases hr)
  · exact h

/-- **A call leaves its slot**, and nothing of it is left in the table. -/
theorem orderly_leave (h : w.Orderly) (id : RequestId) : (w.leave id).Orderly := by
  rw [leave]
  split
  · rename_i q c hlook
    have hseat : w.Seated id q.kind c := h.underway hlook
    obtain ⟨content, hs⟩ := hseat.slot
    have hslot : ∀ s, (w.replies.leave c.wait.slot).2.slot? s =
        if s = c.wait.slot then none
        else (w.replies.slot? s).map (SlotState.settle id .orphaned) := h.sound.slot?_leave hs
    have hclosed : (w.replies.leave c.wait.slot).2.closed = w.replies.closed := by
      rw [Replies.leave_snd hs]
      exact Replies.closed_cancel _ _
    refine h.of_call id ?_ ⟨(h.inOrder id).accounted, ?_⟩ (h.sound.leave c.wait.slot)
      (Nat.le_refl _) (h.callers_le id _ hlook) (fun x hx => .inl hx)
    · intro id' hne
      refine carries_of_own (l := []) hne ((lookup_dismiss w id id').trans (if_neg hne))
        (List.append_nil _).symm (fun x hx => absurd hx List.not_mem_nil)
        (fun hc => hclosed.trans hc) ?_
      intro s content'
      show (w.replies.leave c.wait.slot).2.slot? s = _ ↔ _
      rw [hslot]
      by_cases hsc : s = c.wait.slot
      · rw [if_pos hsc, hsc, hs]
        constructor
        · intro he
          cases he
        · intro he
          exact absurd (SlotState.mk.inj (Option.some.inj he)).1.symm hne
      · rw [if_neg hsc]
        exact map_settle_eq_some_iff hne content' .orphaned
    · show Known _ id ((w.dismiss id).callers.lookup id)
      rw [lookup_dismiss, if_pos rfl]
      intro s content' he
      have he' : (w.replies.leave c.wait.slot).2.slot? s = some ⟨id, content'⟩ := he
      rw [hslot] at he'
      by_cases hsc : s = c.wait.slot
      · rw [if_pos hsc] at he'
        cases he'
      · rw [if_neg hsc] at he'
        obtain ⟨st, hst, hsettle⟩ := Option.map_eq_some_iff.mp he'
        have hi : st.id = id := by
          rw [← settle_id st id .orphaned, hsettle]
        obtain ⟨i, c'⟩ := st
        cases hi
        exact hsc (hseat.unique s c' hst)
  · exact h

end Calls

end World

end SessionMux
