import SessionMux.Proofs.Hub.Acts
import SessionMux.Proofs.Hub.Calls

/-!
# Replies find their requests

In every run of a world requests and replies are correlated. A call ends once at most. A good end
carries the event of the first message that answered the id of the call after the call had
registered, and that message was delivered before the end. No message answers two calls that end; and
what a call ends for is its own answer, or the time, or the closing of the table, or that its request
could not be sent, but never a message with another id.

* `orderly_perform`, `inv_act` — an act keeps the invariant.
* **`inv_run`** — the invariant holds after every run.
* **`correlated_run`** — so the history of every run is correlated.
-/

namespace SessionMux

namespace World

variable {τ : Type}

/-! ## All acts -/

section Acts

variable {w : World τ}

theorem orderly_pump (h : w.Orderly) (t : Turn) : (w.pump t).Orderly := by
  rw [pump]
  split
  · rename_i l i o hp
    have hbase : ({ w.withOutbox { w.hub.outbox with link := l } with toHub := i, toHost := o } :
        World τ).Orderly := h.of_keeps rfl rfl (Outbox.Keeps.of_replies_eq rfl rfl)
    simp only
    split
    · refine hbase.record ?_ ?_
      · exact List.forall_mem_singleton.mpr rfl
      · exact List.forall_mem_singleton.mpr fun _ => rfl
    · exact hbase
  · exact h

theorem orderly_perform (h : w.Inv) (a : Act τ) (hb : (w.perform a).issued < 2 ^ 64) :
    (w.perform a).Orderly := by
  have hsame : ∀ {w' : World τ}, w'.callers = w.callers → w'.history = w.history →
      w'.hub.outbox = w.hub.outbox → w'.Orderly := by
    intro w' hc hh ho
    exact h.toOrderly.of_keeps hc hh (Outbox.Keeps.of_replies_eq (by rw [ho]) (by rw [ho]))
  cases a with
  | draw q => exact orderly_draw h.toOrderly q hb
  | register id => exact orderly_register h id
  | send id => exact orderly_send h.toOrderly id
  | conclude id => exact orderly_conclude h id
  | leave id => exact orderly_leave h.toOrderly id
  | abandon id => exact orderly_abandon h.toOrderly id
  | tell session r =>
    exact h.toOrderly.of_keeps rfl rfl (Outbox.Later.send w.hub.outbox session r).keeps
  | subscribe kind callback => exact hsame rfl rfl rfl
  | unsubscribe kind id => exact hsame rfl rfl rfl
  | closeLink => exact h.toOrderly.of_keeps rfl rfl (Outbox.Keeps.of_replies_eq rfl rfl)
  | closeReplies =>
    show (if w.hub.isActive then w else _).Orderly
    split
    · exact h.toOrderly
    · exact h.toOrderly.of_keeps rfl rfl ⟨Nat.le_refl _, .inr rfl⟩
  | inbound => exact orderly_inbound h.toOrderly
  | pump t => exact orderly_pump h.toOrderly t
  | elapse milliseconds => exact hsame rfl rfl rfl
  | arrive d => exact hsame rfl rfl rfl
  | hostFinish => exact hsame rfl rfl rfl
  | hostLeave => exact hsame rfl rfl rfl

/-- **An act keeps the invariant**, as long as ids have not run out. -/
theorem inv_act (h : w.Inv) (a : Act τ) (hb : (w.act a).issued < 2 ^ 64) : (w.act a).Inv := by
  rw [issued_act] at hb
  have hord := orderly_perform h a hb
  refine ⟨?_, noted_act h.noted a⟩
  rw [act]
  split
  · refine hord.record ?_ ?_
    · exact List.forall_mem_singleton.mpr rfl
    · exact List.forall_mem_singleton.mpr fun _ => rfl
  · exact hord

theorem inv_start (options : HubOptions) (own : τ) (latencies : List Nat) :
    (start options own latencies).Inv where
  sound := Replies.sound_empty
  inOrder id := ⟨accounted_nil id, fun s content hs => by cases hs⟩
  callers_le id c hlook := by cases hlook
  history_le id x hx := by cases hx
  noted hcl := by cases hcl

theorem issued_le_run (w : World τ) (acts : List (Act τ)) : w.issued ≤ (w.run acts).issued :=
  run_induction (P := fun w' => w.issued ≤ w'.issued)
    (fun w' a h => Nat.le_trans h (by rw [issued_act]; exact (effect_perform w' a).issued_le)) w
    (Nat.le_refl _) acts

/-- **A run keeps the invariant**, as long as ids have not run out. -/
theorem inv_run (h : w.Inv) (acts : List (Act τ)) (hb : (w.run acts).issued < 2 ^ 64) :
    (w.run acts).Inv := by
  induction acts generalizing w with
  | nil => exact h
  | cons a acts ih =>
    have hle := issued_le_run (w.act a) acts
    exact ih (inv_act h a (Nat.lt_of_le_of_lt hle hb)) hb

end Acts

/-! ## The result -/

/-- Where at most one element of a list has a property, it stands at one place. -/
theorem place_unique {α : Type} {p : α → Bool} {l : List α} (h : (l.filter p).length ≤ 1)
    {j k : Nat} {x y : α} (hj : l[j]? = some x) (hk : l[k]? = some y) (hx : p x = true)
    (hy : p y = true) : j = k := by
  have hpos : ∀ {l : List α} {i : Nat} {z : α}, l[i]? = some z → p z = true →
      0 < (l.filter p).length := fun hi hz =>
    List.length_pos_of_mem (List.mem_filter.mpr ⟨List.mem_of_getElem? hi, hz⟩)
  induction l generalizing j k with
  | nil => simp at hj
  | cons a l ih =>
    cases j with
    | zero =>
      cases k with
      | zero => rfl
      | succ k =>
        rw [List.getElem?_cons_zero] at hj
        rw [List.getElem?_cons_succ] at hk
        cases hj
        rw [List.filter_cons_of_pos hx, List.length_cons] at h
        have := hpos hk hy
        omega
    | succ j =>
      rw [List.getElem?_cons_succ] at hj
      cases k with
      | zero =>
        rw [List.getElem?_cons_zero] at hk
        cases hk
        rw [List.filter_cons_of_pos hy, List.length_cons] at h
        have := hpos hj hx
        omega
      | succ k =>
        rw [List.getElem?_cons_succ] at hk
        have hsub : (l.filter p).length ≤ ((a :: l).filter p).length :=
          ((List.sublist_cons_self a l).filter p).length_le
        rw [ih (Nat.le_trans hsub h) hj hk]

theorem Inv.correlated {w : World τ} (h : w.Inv) : Correlated w.history where
  accounted id := (h.inOrder id).accounted
  answered j id r hj := by
    obtain ⟨hlt, hget⟩ := List.getElem?_eq_some_iff.mp hj
    have hsplit : w.history = w.history.take j ++ .ended id (.ok r) :: w.history.drop (j + 1) := by
      rw [← hget, ← List.drop_eq_getElem_cons hlt, List.take_append_drop]
    cases (h.inOrder id).accounted.justified _ _ _ hsplit with
    | answered _ answer => exact exists_answeredAt answer
  single i j k id id' e e' r r' hi hi' hj hk := by
    obtain ⟨m, hm, hid, -⟩ := hi.delivered
    obtain ⟨m', hm', hid', -⟩ := hi'.delivered
    cases hm.symm.trans hm'
    cases hid.symm.trans hid'
    exact ⟨rfl, place_unique (h.inOrder id).accounted.ends_once hk hj (by simp [Happening.ends])
      (by simp [Happening.ends])⟩

/-- **Requests and replies are correlated in every run**: whoever acts in whatever order, as long as
fewer than `2 ^ 64` requests have taken an id. -/
theorem correlated_run (options : HubOptions) (own : τ) (latencies : List Nat)
    (acts : List (Act τ)) (hb : ((start options own latencies).run acts).issued < 2 ^ 64) :
    Correlated ((start options own latencies).run acts).history :=
  (inv_run (inv_start options own latencies) acts hb).correlated

/-- A ping that is answered, and ends with the answer. -/
theorem correlated_run_ping :
    let pong : InboundMessage := ⟨none, some ⟨1⟩, .pong⟩
    let line := (Envelope.pack .none .zero pong).toLine.push '\n'
    let acts : List (Act Unit) := [.draw .ping, .register ⟨1⟩, .send ⟨1⟩,
      .arrive (.frame (.text line)), .pump .incoming, .inbound, .inbound, .inbound, .inbound,
      .inbound, .conclude ⟨1⟩, .leave ⟨1⟩]
    Correlated ((start {} () []).run acts).history ∧
      answer? ⟨1⟩ ((start {} () []).run acts).history = some .pong ∧
      .ended ⟨1⟩ (.ok .pong) ∈ ((start {} () []).run acts).history :=
  ⟨correlated_run {} () [] _ (by decide +kernel), by decide +kernel, by decide +kernel⟩

end World

end SessionMux
