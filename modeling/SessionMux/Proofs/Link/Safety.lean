import SessionMux.Proofs.Link.Traffic

/-!
# What is seen of a link

In every run of a link among its callers, its pump and its transport, some things are not seen behind
others. Behind the first close no event is handed out, though it may have arrived before, and no send
finds the link open. Behind the announcement of the end no event is handed out, so that the end is
announced once. And when the way out has been left, no text goes out any more, and it is not left again.

* `Sight.bars` — what is not seen behind what.
* `Traffic.Inv` — the invariant: the flag, the pump and the queue of events agree with what has been
  seen.
* `inv_send` … `inv_pump`, **`inv_run`** — every act keeps it, and so does every run.
* **`safe_run`** — so nothing is seen that is barred, and a send behind the first close does nothing but
  fail.
-/

namespace SessionMux

/-- The second is not seen behind the first. -/
def Sight.bars : Sight → Sight → Bool
  | closing, closing | closing, admitted _ | closing, received _ => true
  | received .closed, received _ => true
  | finished, finished | finished, wrote _ => true
  | _, _ => false

namespace Sight

/-- Nothing bars the end of a call, or that there is no event. -/
def isFree : Sight → Bool
  | sent _ | refused _ | nothing => true
  | _ => false

theorem bars_of_isFree (x : Sight) {y : Sight} (h : y.isFree = true) : x.bars y = false := by
  cases x with
  | received e =>
    cases e with
    | closed => cases y <;> first | rfl | cases h
    | message text => rfl
  | closing => cases y <;> first | rfl | cases h
  | finished => cases y <;> first | rfl | cases h
  | _ => rfl

theorem bars_admitted {x : Sight} (h : x ≠ closing) (text : String) :
    x.bars (admitted text) = false := by
  cases x with
  | closing => exact absurd rfl h
  | received e => cases e <;> rfl
  | _ => rfl

theorem bars_closing {x : Sight} (h : x ≠ closing) : x.bars closing = false := by
  cases x with
  | closing => exact absurd rfl h
  | received e => cases e <;> rfl
  | _ => rfl

theorem bars_received {x : Sight} (h : x ≠ closing) (h' : x ≠ received .closed) (e : LinkEvent) :
    x.bars (received e) = false := by
  cases x with
  | closing => exact absurd rfl h
  | received e' =>
    cases e' with
    | closed => exact absurd rfl h'
    | message text => rfl
  | _ => rfl

theorem bars_wrote {x : Sight} (h : x ≠ finished) (text : String) :
    x.bars (wrote text) = false := by
  cases x with
  | finished => exact absurd rfl h
  | received e => cases e <;> rfl
  | _ => rfl

theorem bars_finished {x : Sight} (h : x ≠ finished) : x.bars finished = false := by
  cases x with
  | finished => exact absurd rfl h
  | received e => cases e <;> rfl
  | _ => rfl

end Sight

/-- What has been seen is in an order in which it may be seen. -/
abbrev InOrder (history : List Sight) : Prop := history.Pairwise fun x y => x.bars y = false

/-- One thing more is seen that nothing bars. -/
theorem InOrder.snoc {history : List Sight} (h : InOrder history) {y : Sight}
    (hy : ∀ x ∈ history, x.bars y = false) : InOrder (history ++ [y]) := by
  refine List.pairwise_append.mpr ⟨h, List.pairwise_singleton _ y, fun x hx z hz => ?_⟩
  rw [List.mem_singleton.mp hz]
  exact hy x hx

/-- What is barred is not seen behind. -/
theorem InOrder.bars_eq {before after : List Sight} {x y : Sight}
    (h : InOrder (before ++ x :: after)) (hy : y ∈ after) : x.bars y = false :=
  (List.pairwise_cons.mp (List.pairwise_append.mp h).2.1).1 y hy

namespace Traffic

/-- **The invariant.** -/
structure Inv (w : Traffic) : Prop where
  inOrder : InOrder w.history
  closing_iff : .closing ∈ w.history ↔ w.link.active = false
  finished_iff : .finished ∈ w.history ↔ w.link.pumping = false
  spent : .received .closed ∈ w.history → w.link.pumping = false ∧ w.link.events = []
  endsOnce : w.link.EndsOnce

section Acts

variable {w w' : Traffic}

theorem inv_start : ({} : Traffic).Inv where
  inOrder := List.Pairwise.nil
  closing_iff := iff_of_false List.not_mem_nil (by decide)
  finished_iff := iff_of_false List.not_mem_nil (by decide)
  spent h := absurd h List.not_mem_nil
  endsOnce := ⟨fun _ => List.not_mem_nil, List.not_mem_nil⟩

theorem mem_snoc_of_ne {history : List Sight} {x y : Sight} (h : x ≠ y) :
    x ∈ history ++ [y] ↔ x ∈ history := by
  rw [List.mem_append, List.mem_singleton]
  exact or_iff_left h

/-- What changes neither the flag, nor the pump, nor the events, and lets nothing be seen. -/
theorem Inv.of_link (h : w.Inv) (hhistory : w'.history = w.history)
    (hactive : w'.link.active = w.link.active) (hpumping : w'.link.pumping = w.link.pumping)
    (hevents : w'.link.events = w.link.events) : w'.Inv := by
  constructor
  · rw [hhistory]
    exact h.inOrder
  · rw [hhistory, hactive]
    exact h.closing_iff
  · rw [hhistory, hpumping]
    exact h.finished_iff
  · rw [hhistory, hpumping, hevents]
    exact h.spent
  · refine ⟨fun hp => ?_, ?_⟩
    · rw [hevents]
      exact h.endsOnce.open_of_pumping (hpumping.symm.trans hp)
    · rw [hevents]
      exact h.endsOnce.closed_last

/-- Something is seen that says nothing about the flag, the pump, or the end. -/
theorem Inv.record (h : w.Inv) {y : Sight} (hy : ∀ x ∈ w.history, x.bars y = false)
    (hclosing : .closing ≠ y) (hfinished : .finished ≠ y) (hclosed : .received .closed ≠ y) :
    (w.record [y]).Inv where
  inOrder := h.inOrder.snoc hy
  closing_iff := (mem_snoc_of_ne hclosing).trans h.closing_iff
  finished_iff := (mem_snoc_of_ne hfinished).trans h.finished_iff
  spent hmem := h.spent ((mem_snoc_of_ne hclosed).mp hmem)
  endsOnce := h.endsOnce

theorem Inv.record_free (h : w.Inv) {y : Sight} (hy : y.isFree = true) : (w.record [y]).Inv := by
  have hne : ∀ {x : Sight}, x.isFree = false → x ≠ y := by
    rintro x hx rfl
    exact Bool.false_ne_true (hx.symm.trans hy)
  exact h.record (fun x _ => x.bars_of_isFree hy) (hne rfl) (hne rfl) (hne rfl)

/-- As long as the link is open, no close has been seen. -/
theorem Inv.ne_closing (h : w.Inv) (ha : w.link.active = true) : ∀ x ∈ w.history, x ≠ .closing := by
  rintro x hx rfl
  exact Bool.false_ne_true ((h.closing_iff.mp hx).symm.trans ha)

/-- As long as the pump is there, the way out has not been left. -/
theorem Inv.ne_finished (h : w.Inv) (hp : w.link.pumping = true) :
    ∀ x ∈ w.history, x ≠ .finished := by
  rintro x hx rfl
  exact Bool.false_ne_true ((h.finished_iff.mp hx).symm.trans hp)

theorem inv_send (h : w.Inv) (text : String) : (w.send text).Inv := by
  rw [send]
  split
  · rename_i ha
    have hbase : Inv { w with halves := w.halves ++ [.send text] } := h.of_link rfl rfl rfl rfl
    refine hbase.record (fun x hx => ?_) (by simp) (by simp) (by simp)
    exact Sight.bars_admitted (h.ne_closing ha x hx) text
  · exact h.record_free rfl

theorem inv_close (h : w.Inv) : w.close.Inv := by
  rw [close]
  split
  · rename_i ha
    refine ⟨h.inOrder.snoc fun x hx => Sight.bars_closing (h.ne_closing ha x hx), ?_, ?_, ?_, ?_⟩
    · exact iff_of_true (List.mem_append_right _ List.mem_cons_self) rfl
    · exact (mem_snoc_of_ne (by simp)).trans h.finished_iff
    · exact fun hmem => h.spent ((mem_snoc_of_ne (by simp)).mp hmem)
    · exact ⟨h.endsOnce.open_of_pumping, h.endsOnce.closed_last⟩
  · exact h

theorem inv_queue (h : w.Inv) (k : Nat) : (w.queue k).Inv := by
  have hsights : ∀ {w' : Traffic} (c : HalfCall) (queued : Bool), w'.Inv →
      (w'.record (c.sights queued)).Inv := by
    intro w' c queued h'
    cases c with
    | send text =>
      cases queued with
      | true => exact h'.record_free (y := .sent text) rfl
      | false => exact h'.record_free (y := .refused text) rfl
    | close => exact h'.of_link (List.append_nil _) rfl rfl rfl
  rw [queue]
  split
  · exact h
  · rename_i c hc
    simp only
    split
    · rename_i l hl
      refine hsights c true ?_
      rw [Link.queue] at hl
      split at hl
      · cases hl
        exact h.of_link rfl rfl rfl rfl
      · cases hl
    · exact hsights c false (h.of_link rfl rfl rfl rfl)

theorem inv_poll (h : w.Inv) : w.poll.Inv := by
  rw [poll]
  split
  · exact h.of_link rfl rfl rfl rfl
  · exact h.record_free (y := .nothing) rfl

theorem resume_eq {r : Received} {l : Link} (hw : w.waiting = true) (h : w.link.resume = (r, l)) :
    w.resume = { w with link := l, waiting := r.isPending }.record r.sights := by
  rw [resume, if_pos hw, h]

/-- **An event is taken**, and handed out if the link is still open. -/
theorem inv_resume (h : w.Inv) : w.resume.Inv := by
  cases hw : w.waiting with
  | false =>
    rw [resume, if_neg (by simp [hw])]
    exact h
  | true =>
    cases he : w.link.events with
    | nil =>
      have hbase (b : Bool) : Inv { w with waiting := b } := h.of_link rfl rfl rfl rfl
      cases hp : w.link.pumping with
      | true =>
        rw [resume_eq (r := .pending) (l := w.link) hw (by simp [Link.resume, he, hp])]
        exact (hbase true).of_link (List.append_nil _) rfl rfl rfl
      | false =>
        rw [resume_eq (r := .ended) (l := w.link) hw (by simp [Link.resume, he, hp])]
        exact (hbase false).record_free (y := .nothing) rfl
    | cons e rest =>
      -- there is still an event, so that the end has not been handed out
      have hopen : ∀ x ∈ w.history, x ≠ .received .closed := by
        rintro x hx rfl
        exact absurd (he.symm.trans (h.spent hx).2) (List.cons_ne_nil _ _)
      have hends := h.endsOnce.take he
      cases ha : w.link.active with
      | true =>
        rw [resume_eq (r := .event e) (l := { w.link with events := rest }) hw
          (by simp [Link.resume, he, ha])]
        refine ⟨h.inOrder.snoc fun x hx => ?_, ?_, ?_, fun hmem => ?_, hends⟩
        · exact Sight.bars_received (h.ne_closing ha x hx) (hopen x hx) e
        · exact (mem_snoc_of_ne (by simp)).trans h.closing_iff
        · exact (mem_snoc_of_ne (by simp)).trans h.finished_iff
        · rcases List.mem_append.mp hmem with hold | hnew
          · exact absurd rfl (hopen _ hold)
          · cases List.mem_singleton.mp hnew
            exact (h.endsOnce.end he).symm
      | false =>
        rw [resume_eq (r := .ended) (l := { w.link with events := rest }) hw
          (by simp [Link.resume, he, ha])]
        have hbase : Inv { w with link := { w.link with events := rest }, waiting := false } :=
          ⟨h.inOrder, h.closing_iff, h.finished_iff, fun hmem => absurd rfl (hopen _ hmem), hends⟩
        exact hbase.record_free (y := .nothing) rfl

/-- A text that goes out is seen. -/
theorem sights_put {l : Link} (hp : l.pumping = true) (o : Pipe) (text : String) :
    l.sights o (o.put (.frame (.text text))) = [.wrote text] := by
  rw [Link.sights, if_pos hp]
  show ((o.items ++ [_]).drop o.items.length).filterMap _ = _
  rw [List.drop_left]
  rfl

theorem sights_same {l : Link} (hp : l.pumping = true) (o : Pipe) : l.sights o o = [] := by
  rw [Link.sights, if_pos hp, List.drop_length]
  rfl

/-- A step of the pump lets a text be seen that goes out, or that the way out is left, or nothing. -/
theorem sights_of_pumps {l l' : Link} {i i' o o' : Pipe} {t : Turn} (hp : l.pumping = true)
    (hm : l.Pumps i o t l' i' o') :
    (l'.pumping = true ∧ (l'.sights o o' = [] ∨ ∃ text, l'.sights o o' = [.wrote text])) ∨
      (l'.pumping = false ∧ l'.sights o o' = [.finished]) := by
  cases hm with
  | @send text rest commands reading =>
    exact .inl ⟨hp, .inr ⟨text, sights_put (l := { l with commands := rest }) hp o text⟩⟩
  | @arrive f rest items =>
    have hp' := (Link.pumping_arrive l f.toText).trans hp
    exact .inl ⟨hp', .inl (sights_same hp' o)⟩
  | _ => exact .inr ⟨rfl, rfl⟩

/-- **A step of the pump.** -/
theorem inv_pump (h : w.Inv) (t : Turn) : (w.pump t).Inv := by
  rw [pump]
  split
  · rename_i l i o hpump
    obtain ⟨hp, hm⟩ := Link.pumps_of_pump hpump
    have hclosing : .closing ∈ w.history ↔ l.active = false := by
      rw [hm.active_eq]
      exact h.closing_iff
    have hopen : .received .closed ∉ w.history := fun hmem =>
      Bool.false_ne_true ((h.spent hmem).1.symm.trans hp)
    have hends := h.endsOnce.move hp hm
    rcases sights_of_pumps hp hm with ⟨hp', hsights⟩ | ⟨hp', hsights⟩
    · have hbase : Inv { w with link := l, inbound := i, outbound := o } := by
        refine ⟨h.inOrder, hclosing, ?_, fun hmem => absurd hmem hopen, hends⟩
        exact h.finished_iff.trans (iff_of_false (by simp [hp]) (by simp [hp']))
      rcases hsights with hnone | ⟨text, hwrote⟩
      · rw [hnone]
        exact hbase.of_link (List.append_nil _) rfl rfl rfl
      · rw [hwrote]
        refine hbase.record (fun x hx => ?_) (by simp) (by simp) (by simp)
        exact Sight.bars_wrote (h.ne_finished hp x hx) text
    · rw [hsights]
      refine ⟨h.inOrder.snoc fun x hx => Sight.bars_finished (h.ne_finished hp x hx), ?_, ?_, ?_, hends⟩
      · exact (mem_snoc_of_ne (by simp)).trans hclosing
      · exact iff_of_true (List.mem_append_right _ List.mem_cons_self) hp'
      · exact fun hmem => absurd ((mem_snoc_of_ne (by simp)).mp hmem) hopen
  · exact h

/-- **Every act keeps the invariant.** -/
theorem inv_act (h : w.Inv) (a : TrafficAct) : (w.act a).Inv := by
  cases a with
  | send text => exact inv_send h text
  | close => exact inv_close h
  | queue k => exact inv_queue h k
  | poll => exact inv_poll h
  | resume => exact inv_resume h
  | pump t => exact inv_pump h t
  | _ => exact h.of_link rfl rfl rfl rfl

theorem inv_run (acts : List TrafficAct) : (({} : Traffic).run acts).Inv :=
  run_induction (P := Inv) (fun _ a h => inv_act h a) {} inv_start acts

end Acts

/-! ## The result -/

/-- **A link is safe.** -/
structure Safe (w : Traffic) : Prop where
  /-- Whoever closes, a close is seen from then on. -/
  closes : .closing ∈ (w.act .close).history
  /-- Behind the first close no event is handed out, also none that was queued before. -/
  silent : ∀ before after, w.history = before ++ .closing :: after → ∀ e, .received e ∉ after
  /-- Behind the first close no send finds the link open. -/
  shut : ∀ before after, w.history = before ++ .closing :: after → ∀ text, .admitted text ∉ after
  /-- A send that begins behind the first close is refused, and that is all it does. -/
  refuses : .closing ∈ w.history → ∀ text, w.act (.send text) = w.record [.refused text]
  /-- A further close does nothing. -/
  idle : .closing ∈ w.history → w.act .close = w
  /-- Behind the announcement of the end no event is handed out, and so no further announcement. -/
  last : ∀ before after, w.history = before ++ .received .closed :: after → ∀ e, .received e ∉ after
  /-- When the way out has been left, no text goes out any more, and it is not left again. -/
  finished_last : ∀ before after, w.history = before ++ .finished :: after →
    .finished ∉ after ∧ ∀ text, .wrote text ∉ after

theorem Inv.safe {w : Traffic} (h : w.Inv) : w.Safe := by
  have hbarred : ∀ {before after : List Sight} {x y : Sight}, w.history = before ++ x :: after →
      x.bars y = true → y ∉ after := by
    intro before after x y hs hxy hy
    have horder := h.inOrder
    rw [hs] at horder
    exact Bool.false_ne_true ((horder.bars_eq hy).symm.trans hxy)
  have hinactive : .closing ∈ w.history → ¬ w.link.active = true := fun hmem =>
    Bool.eq_false_iff.mp (h.closing_iff.mp hmem)
  refine ⟨?_, fun before after hs e => hbarred hs rfl, fun before after hs text => hbarred hs rfl,
    fun hmem text => if_neg (hinactive hmem), fun hmem => if_neg (hinactive hmem),
    fun before after hs e => hbarred hs rfl,
    fun before after hs => ⟨hbarred hs rfl, fun text => hbarred hs rfl⟩⟩
  have hclosed := (inv_act h .close).closing_iff
  refine hclosed.mpr ?_
  show w.close.link.active = false
  rw [close]
  split
  · rfl
  · rename_i hshut
    exact Bool.eq_false_iff.mpr hshut

/-- **Every run of a link is safe**: whoever sends, closes and takes events in whatever order, however
the pump turns, and whatever the transport does. -/
theorem safe_run (acts : List TrafficAct) : (({} : Traffic).run acts).Safe := (inv_run acts).safe

end Traffic

end SessionMux
