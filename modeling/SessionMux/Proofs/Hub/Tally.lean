import SessionMux.Proofs.Hub.Correlation
import SessionMux.Proofs.Hub.Closing

/-!
# Who is in the table of replies

In every run the table of replies has an entry for each call that waits for its reply, and for nobody
else. Whether a call waits is read off the history: it has registered, no message has answered it, the
table has not been closed, and it has not left its slot. A call that has ended has yet to leave its slot
before it is over, and its entry, if it is still there, goes with it.

* `World.Awaits` — a call waits, as the history tells.
* `Inv.mem_ids_iff` — an entry is there exactly for a call that waits.
* `absent_run` — a call that is over is not taken up again.
* **`tallied_run`** — so the table is right at every moment of every run.
-/

namespace SessionMux

/-- Whose reply is awaited: the ids of the slots that are empty. -/
theorem Replies.Sound.mem_ids_iff {t : Replies} (h : t.Sound) {id : RequestId} :
    id ∈ t.ids ↔ ∃ s, t.slot? s = some ⟨id, .empty⟩ := by
  constructor
  · intro hid
    obtain ⟨⟨i, s⟩, hmem, rfl⟩ := List.mem_map.mp hid
    exact ⟨s, h.slot?_of_awaited? (lookup_of_mem h.ids_nodup hmem)⟩
  · rintro ⟨s, hs⟩
    exact List.mem_map.mpr ⟨_, mem_of_lookup ((h.entry_iff id s).mpr hs), rfl⟩

namespace World

variable {τ : Type}

/-! ## Calls that wait -/

/-- **The call `id` waits for its reply**, as the history tells. -/
structure Awaits (w : World τ) (id : RequestId) : Prop where
  registered : ∃ kind, .registered id kind ∈ w.history
  unanswered : answer? id w.history = none
  unclosed : .closed ∉ w.history
  /-- It has not left its slot. -/
  underway : ∃ caller, w.callers.lookup id = some caller

section Waiting

variable {w : World τ} {id : RequestId}

/-- A call has its slot from when it registers until it leaves. -/
theorem Fits.seated {kind : CallKind} {stage : Stage} (h : w.Fits id kind stage) :
    w.Unregistered id ∧ w.Unseated id ∨ ∃ c, w.Seated id kind c := by
  cases stage with
  | drawn => exact .inl h.2
  | registered c => exact .inr ⟨c, h.2⟩
  | waiting c => exact .inr ⟨c, h.2⟩
  | departing c => exact .inr ⟨c, h⟩

/-- Whoever has a slot has registered and not left. -/
theorem Orderly.seated_of_slot (h : w.Orderly) {s : Slot} {content : SlotContent}
    (hs : w.replies.slot? s = some ⟨id, content⟩) :
    ∃ caller c, w.callers.lookup id = some caller ∧ w.Seated id caller.inquiry.kind c := by
  have hknown := (h.inOrder id).known
  cases hlook : w.callers.lookup id with
  | none =>
    rw [hlook] at hknown
    exact absurd hs (hknown s content)
  | some caller =>
    rcases Fits.seated (h.underway hlook) with ⟨-, hun⟩ | ⟨c, hseat⟩
    · exact absurd hs (hun s content)
    · exact ⟨caller, c, rfl, hseat⟩

/-- **An entry is there exactly for a call that waits.** -/
theorem Inv.mem_ids_iff (h : w.Inv) (hcl : .closed ∈ w.history → w.replies.closed = true) :
    id ∈ w.replies.ids ↔ w.Awaits id := by
  rw [h.sound.mem_ids_iff]
  constructor
  · rintro ⟨s, hs⟩
    obtain ⟨caller, c, hlook, hseat⟩ := h.toOrderly.seated_of_slot hs
    refine ⟨⟨_, hseat.registered⟩, hseat.told s _ hs, fun hmem => ?_, caller, hlook⟩
    exact h.sound.content_ne_empty (hcl hmem) hs rfl
  · rintro ⟨⟨kind, hreg⟩, hnone, hopen, caller, hlook⟩
    obtain ⟨c, hseat⟩ : ∃ c, w.Seated id caller.inquiry.kind c := by
      refine (Fits.seated (h.underway hlook)).resolve_left fun hdrawn => ?_
      obtain ⟨x, hx, hxid⟩ := exists_registers hreg
      exact Bool.noConfusion (hxid.symm.trans (hdrawn.1 x hx))
    obtain ⟨content, hs⟩ := hseat.slot
    have htold := hseat.told _ _ hs
    cases content with
    | empty => exact ⟨_, hs⟩
    | reply e => exact nomatch htold.symm.trans hnone
    | orphaned => exact absurd (h.noted htold) hopen

/-- A call that is over has no entry. -/
theorem Orderly.not_mem_ids (h : w.Orderly) (hlook : w.callers.lookup id = none) :
    id ∉ w.replies.ids := by
  intro hid
  obtain ⟨s, hs⟩ := h.sound.mem_ids_iff.mp hid
  obtain ⟨caller, c, hsome, -⟩ := h.seated_of_slot hs
  exact nomatch hlook.symm.trans hsome

/-- A call that has ended is over, or about to leave its slot. -/
theorem Orderly.departing (h : w.Orderly) {caller : Caller} (hlook : w.callers.lookup id = some caller)
    (hends : ∃ x ∈ w.history, x.ends id = true) :
    ∃ q c, w.callers.lookup id = some ⟨q, .departing c⟩ := by
  obtain ⟨q, stage⟩ := caller
  have hfits : w.Fits id q.kind stage := h.underway hlook
  have hnot : ¬ w.Unended id := fun hun => by
    obtain ⟨x, hx, hxid⟩ := hends
    exact Bool.noConfusion (hxid.symm.trans (hun x hx))
  cases stage with
  | departing c => exact ⟨q, c, hlook⟩
  | _ => exact absurd hfits.1 hnot

/-- **Behind the closing of the table a call that waits can end**, with its answer if it has one. -/
theorem Inv.outcome?_of_closed (h : w.Inv) (hcl : w.replies.closed = true) {q : Inquiry} {c : Call}
    (hlook : w.callers.lookup id = some ⟨q, .waiting c⟩) (now : Nat) :
    w.hub.outbox.outcome? now c = some (.error .connectionClosed) ∨
      ∃ e, answer? id w.history = some e ∧
        w.hub.outbox.outcome? now c = some (c.kind.result c.wait.label (.ok e)) := by
  obtain ⟨-, hseat⟩ : w.Unended id ∧ w.Seated id q.kind c := h.underway hlook
  obtain ⟨content, hs⟩ := hseat.slot
  have hout : w.hub.outbox.replies.outcome? now c.wait = _ := h.sound.outcome?_eq hcl now c.wait
  rw [Outbox.outcome?, hout, Replies.reply?, hs]
  have htold := hseat.told _ _ hs
  cases content with
  | empty => exact absurd rfl (h.sound.content_ne_empty hcl hs)
  | reply e => exact .inr ⟨e, htold, rfl⟩
  | orphaned => exact .inl rfl

end Waiting

/-! ## Calls that are over -/

section Over

variable {w : World τ} {id : RequestId}

theorem absent_goOn (h : w.callers.lookup id = none) (id' : RequestId) (stage : Stage) :
    (w.goOn id' stage).callers.lookup id = none := by
  rw [lookup_goOn, h, Option.map_none, ite_self]

theorem absent_dismiss (h : w.callers.lookup id = none) (id' : RequestId) :
    (w.dismiss id').callers.lookup id = none := by
  rw [lookup_dismiss, h, ite_self]

/-- No act takes up a call that is over, as long as ids have not run out. -/
theorem absent_perform (h : w.callers.lookup id = none) (hid : id.value.toNat ≤ w.issued) (a : Act τ)
    (hb : (w.perform a).issued < 2 ^ 64) : (w.perform a).callers.lookup id = none := by
  cases a with
  | draw q =>
    have hnext : w.hub.outbox.nextId.value.toNat = w.issued + 1 :=
      Outbox.toNat_nextId w.hub.outbox hb
    have hne : id ≠ w.hub.outbox.nextId := by
      rintro rfl
      omega
    show (w.callers ++ [(w.hub.outbox.nextId, (⟨q, .drawn⟩ : Caller))]).lookup id = none
    rw [List.lookup_append, h, lookup_cons_if, if_neg hne]
    rfl
  | register id' =>
    show (w.register id').callers.lookup id = none
    rw [register]
    split
    · split
      · exact absent_goOn h id' _
      · exact absent_dismiss h id'
    · exact h
  | send id' =>
    show (w.send id').callers.lookup id = none
    rw [send]
    split
    · split
      · exact absent_goOn h id' _
      · exact absent_goOn h id' _
    · exact h
  | conclude id' =>
    show (w.conclude id').callers.lookup id = none
    rw [conclude]
    split
    · split
      · exact absent_goOn h id' _
      · exact h
    · exact h
  | abandon id' =>
    show (w.abandon id').callers.lookup id = none
    rw [abandon]
    split
    · exact absent_goOn h id' _
    · exact h
  | leave id' =>
    show (w.leave id').callers.lookup id = none
    rw [leave]
    split
    · exact absent_dismiss h id'
    · exact h
  | closeReplies =>
    show (if w.hub.isActive then w else w.withOutbox w.hub.outbox.closeReplies).callers.lookup id = none
    split <;> exact h
  | inbound =>
    show w.inbound.callers.lookup id = none
    rw [inbound]
    split <;> exact h
  | pump t =>
    show (w.pump t).callers.lookup id = none
    rw [pump]
    split
    · simp only
      split <;> exact h
    · exact h
  | _ => exact h

/-- **No run takes up a call that is over**, as long as ids have not run out. -/
theorem absent_run (h : w.callers.lookup id = none) (hid : id.value.toNat ≤ w.issued)
    (acts : List (Act τ)) (hb : (w.run acts).issued < 2 ^ 64) :
    (w.run acts).callers.lookup id = none := by
  induction acts generalizing w with
  | nil => exact h
  | cons a acts ih =>
    have hact : (w.perform a).issued < 2 ^ 64 := by
      rw [← issued_act]
      exact Nat.lt_of_le_of_lt (issued_le_run (w.act a) acts) hb
    refine ih ?_ ?_ hb
    · rw [callers_act]
      exact absent_perform h hid a hact
    · exact Nat.le_trans hid (issued_le_run w [a])

/-- A call that leaves its slot is over. -/
theorem absent_leave {q : Inquiry} {c : Call}
    (hlook : w.callers.lookup id = some ⟨q, .departing c⟩) :
    (w.act (.leave id)).callers.lookup id = none := by
  rw [callers_act]
  show (w.leave id).callers.lookup id = none
  rw [leave, hlook]
  simp only
  rw [lookup_dismiss, if_pos rfl]

theorem issued_leave (w : World τ) (id : RequestId) : (w.act (.leave id)).issued = w.issued := by
  rw [issued_act]
  show (w.leave id).issued = w.issued
  rw [leave]
  split <;> rfl

end Over

/-! ## The result -/

/-- **The table of replies is right.** -/
structure Tallies (w : World τ) : Prop where
  /-- It has an entry for each call that waits, one, and for nobody else. -/
  nodup : w.replies.ids.Nodup
  mem_iff : ∀ id, id ∈ w.replies.ids ↔ w.Awaits id
  /-- A call that has ended, however it has, still has an entry only if it has yet to leave its slot. -/
  departing : ∀ id, (∃ x ∈ w.history, x.ends id = true) → id ∈ w.replies.ids →
    ∃ q c, w.callers.lookup id = some ⟨q, .departing c⟩
  /-- When it has left it is over, and has none. -/
  left : ∀ id, (∃ x ∈ w.history, x.ends id = true) →
    (w.act (.leave id)).callers.lookup id = none ∧ id ∉ (w.act (.leave id)).replies.ids
  closed_iff : .closed ∈ w.history ↔ w.replies.closed = true
  /-- Behind the closing of the table nobody is left waiting. -/
  woken : w.replies.closed = true → ∀ id q c, w.callers.lookup id = some ⟨q, .waiting c⟩ →
    ∀ now, w.hub.outbox.outcome? now c = some (.error .connectionClosed) ∨
      ∃ e, answer? id w.history = some e ∧
        w.hub.outbox.outcome? now c = some (c.kind.result c.wait.label (.ok e))

/-- **What stays so** from `w` to a later `w'`. -/
structure Lasts (w w' : World τ) : Prop where
  /-- A table that has been closed stays closed, and empty. -/
  closed : w.replies.closed = true → w'.replies.closed = true ∧ w'.replies.entries = []
  /-- A call that is over has no entry any more, and neither has a request that was no call. -/
  gone : ∀ id : RequestId, id.value.toNat ≤ w.issued → w.callers.lookup id = none →
    id ∉ w'.replies.ids

section Result

variable {w : World τ}

theorem Inv.tallies (h : w.Inv) (hcl : .closed ∈ w.history → w.replies.closed = true)
    (hb : w.issued < 2 ^ 64) : w.Tallies where
  nodup := h.sound.ids_nodup
  mem_iff id := h.mem_ids_iff hcl
  departing id hends hid := by
    obtain ⟨caller, hlook⟩ := ((h.mem_ids_iff hcl).mp hid).underway
    exact h.departing hlook hends
  left id hends := by
    have hleft : (w.act (.leave id)).Inv := inv_act h _ (by rwa [issued_leave])
    have hover : (w.act (.leave id)).callers.lookup id = none := by
      cases hlook : w.callers.lookup id with
      | some caller =>
        obtain ⟨q, c, hdeparting⟩ := h.departing hlook hends
        exact absent_leave hdeparting
      | none =>
        rw [callers_act]
        show (w.leave id).callers.lookup id = none
        rw [leave, hlook]
        exact hlook
    exact ⟨hover, hleft.not_mem_ids hover⟩
  closed_iff := ⟨hcl, h.noted⟩
  woken hclosed id q c hlook now := h.outcome?_of_closed hclosed hlook now

theorem Inv.lasts (h : w.Inv) (more : List (Act τ)) (hb : (w.run more).issued < 2 ^ 64) :
    w.Lasts (w.run more) where
  closed hcl := by
    have hstays : (w.run more).replies.closed = true :=
      run_induction (P := fun w => w.replies.closed = true) closed_act w hcl more
    exact ⟨hstays, (inv_run h more hb).sound.closed_nil hstays⟩
  gone id hid hlook := (inv_run h more hb).not_mem_ids (absent_run hlook hid more hb)

end Result

/-- **At every moment of every run the table of replies holds exactly the calls that wait**, whoever
acts in whatever order, as long as fewer than `2 ^ 64` requests have taken an id; and what has gone from
it does not come back. -/
theorem tallied_run (options : HubOptions) (own : τ) (latencies : List Nat)
    (acts more : List (Act τ))
    (hb : ((start options own latencies).run (acts ++ more)).issued < 2 ^ 64) :
    let w := (start options own latencies).run acts
    w.Tallies ∧ w.Lasts (w.run more) := by
  intro w
  rw [run_append] at hb
  have hfew : w.issued < 2 ^ 64 := Nat.lt_of_le_of_lt (issued_le_run w more) hb
  have hinv : w.Inv := inv_run (inv_start options own latencies) acts hfew
  have hcl : .closed ∈ w.history → w.replies.closed = true :=
    run_induction (P := fun w => .closed ∈ w.history → w.replies.closed = true)
      (fun w a h => closed_of_mem_act h) (start options own latencies)
      (fun hmem => absurd hmem List.not_mem_nil) acts
  exact ⟨hinv.tallies hcl hfew, hinv.lasts more hb⟩

/-- A ping whose time is up leaves with its entry. -/
theorem tallied_run_late :
    let acts : List (Act Unit) := [.draw .ping, .register ⟨1⟩, .send ⟨1⟩, .elapse 10000,
      .conclude ⟨1⟩]
    let w := (start {} () []).run acts
    (w.Tallies ∧ w.Lasts (w.run [.leave ⟨1⟩])) ∧ w.replies.ids = [⟨1⟩] ∧
      (w.run [.leave ⟨1⟩]).replies.ids = [] :=
  ⟨tallied_run {} () [] _ [.leave ⟨1⟩] (by decide +kernel), by decide +kernel, by decide +kernel⟩

end World

end SessionMux
