import SessionMux.Proofs.Hub.World

/-!
# Histories of calls

What the history of a world says about a call, and what is asked of it. A call is named by its id.
Its answer is the event of the first message that answers its id and was delivered after it had
registered; messages that came before, or come later, or answer other ids, do not count.

* `answer?` — the answer of a call.
* `Accounted` — a call registers once and ends once, and its end is justified.
* `Justified` — the end of a call has a cause in what happened before: its own answer, or the time
  while there was no answer, or the closing of the table, or that its request could not be sent.
* `AnsweredAt` — the place of the message that answers a call.
* `Correlated` — everything that is asked of a history.
-/

namespace SessionMux

namespace Happening

/-- The call that something happens to. -/
def id? : Happening → Option RequestId
  | registered id _ | unsent id _ | ended id _ | abandoned id => some id
  | delivered _ | closed | refused => none

/-- The call of this id registers. -/
def registers (id : RequestId) : Happening → Bool
  | registered i _ => i = id
  | _ => false

/-- The call of this id is over. -/
def ends (id : RequestId) : Happening → Bool
  | ended i _ | abandoned i => i = id
  | _ => false

/-- The event of a message that answers this id. -/
def reply? (id : RequestId) : Happening → Option Event
  | delivered m => if m.inReplyTo = some id then some m.event else none
  | _ => none

theorem registers_of_id? {x : Happening} {id : RequestId} (h : x.id? ≠ some id) :
    x.registers id = false := by
  cases x <;> simp_all [id?, registers]

theorem ends_of_id? {x : Happening} {id : RequestId} (h : x.id? ≠ some id) :
    x.ends id = false := by
  cases x <;> simp_all [id?, ends]

end Happening

/-- The event that the good end of a call takes from its answer. -/
def CallResult.event : CallResult → Event
  | process r => .processResult r
  | pong => .pong

/-- The kind of the calls that end so. -/
def CallResult.kind : CallResult → CallKind
  | process _ => .process
  | pong => .ping

/-- **The answer of a call**: the event of the first message that answers its id and was delivered
after it had registered. -/
def answer? (id : RequestId) (history : List Happening) : Option Event :=
  (history.dropWhile fun x => !x.registers id).findSome? (Happening.reply? id)

/-- **A call may end so**, after what has happened. -/
inductive Justified (history : List Happening) (id : RequestId) :
    Except MuxFault CallResult → Prop where
  /-- The answer is of the kind that the call asks for. -/
  | answered {r : CallResult} (registered : .registered id r.kind ∈ history)
      (answer : answer? id history = some r.event) : Justified history id (.ok r)
  /-- The answer is of another kind. -/
  | unexpected {kind : CallKind} {label : String} {e : Event}
      (registered : .registered id kind ∈ history) (answer : answer? id history = some e)
      (other : ∀ r : CallResult, r.kind = kind → r.event ≠ e) :
      Justified history id (.error (.unexpectedReply label e.name))
  /-- The time was up, and there was no answer. -/
  | timedOut {label : String} {milliseconds : UInt64} (answer : answer? id history = none) :
      Justified history id (.error (.requestTimeout label milliseconds))
  /-- The table of replies had been closed. -/
  | closed (closed : .closed ∈ history) : Justified history id (.error .connectionClosed)
  /-- The request could not be sent. -/
  | unsent {f : MuxFault} (unsent : .unsent id f ∈ history) : Justified history id (.error f)

/-- **The call `id` is accounted for.** -/
structure Accounted (history : List Happening) (id : RequestId) : Prop where
  /-- It registers once at most. -/
  registers_once : (history.filter (Happening.registers id)).length ≤ 1
  /-- It ends, or is abandoned, once at most. -/
  ends_once : (history.filter (Happening.ends id)).length ≤ 1
  /-- When it ends, what has happened before justifies the end. -/
  justified : ∀ before r after, history = before ++ .ended id r :: after → Justified before id r

/-- **The message at the place `i` of a history answers the call `id`** with the event `e`: before it the
call had no answer, and with it `e` is its answer. -/
structure AnsweredAt (history : List Happening) (id : RequestId) (i : Nat) (e : Event) : Prop where
  before : answer? id (history.take i) = none
  after : answer? id (history.take (i + 1)) = some e

/-- **Requests and replies are correlated.** -/
structure Correlated (history : List Happening) : Prop where
  accounted : ∀ id, Accounted history id
  /-- A call that ends well has been answered with what it ends with, by a message that was delivered
  before its end. -/
  answered : ∀ (j : Nat) (id : RequestId) (r : CallResult),
    history[j]? = some (.ended id (.ok r)) → ∃ i < j, AnsweredAt history id i r.event
  /-- No message answers two calls: if the one at the place `i` answers two calls, and these end at the
  places `j` and `k`, then they are the same call and the same end. -/
  single : ∀ (i j k : Nat) (id id' : RequestId) (e e' : Event) (r r' : Except MuxFault CallResult),
    AnsweredAt history id i e → AnsweredAt history id' i e' → history[j]? = some (.ended id r) →
      history[k]? = some (.ended id' r') → id' = id ∧ k = j

/-! ## Histories that grow -/

section Growing

variable {id : RequestId} {h l : List Happening}

theorem dropWhile_of_registers (hreg : ∃ x ∈ h, x.registers id = true) :
    (h ++ l).dropWhile (fun x => !x.registers id) =
      h.dropWhile (fun x => !x.registers id) ++ l := by
  induction h with
  | nil => obtain ⟨x, hx, -⟩ := hreg; cases hx
  | cons y h ih =>
    by_cases hy : y.registers id = true
    · rw [List.cons_append, List.dropWhile_cons_of_neg (by simp [hy]),
        List.dropWhile_cons_of_neg (by simp [hy]), List.cons_append]
    · rw [List.cons_append, List.dropWhile_cons_of_pos (by simp [hy]),
        List.dropWhile_cons_of_pos (by simp [hy]), ih]
      obtain ⟨x, hx, hxid⟩ := hreg
      rcases List.mem_cons.mp hx with rfl | hx
      · exact absurd hxid hy
      · exact ⟨x, hx, hxid⟩

theorem answer?_append (hreg : ∃ x ∈ h, x.registers id = true) :
    answer? id (h ++ l) = (answer? id h).or (l.findSome? (Happening.reply? id)) := by
  rw [answer?, dropWhile_of_registers hreg, List.findSome?_append, ← answer?]

/-- A call that has just registered has no answer. -/
theorem answer?_registered (kind : CallKind) (h₀ : ∀ x ∈ h, x.registers id = false) :
    answer? id (h ++ [.registered id kind]) = none := by
  have hdrop : (h ++ [Happening.registered id kind]).dropWhile (fun x => !x.registers id)
      = [.registered id kind] := by
    rw [List.dropWhile_append_of_pos (by
      intro x hx
      rw [h₀ x hx]
      rfl)]
    exact List.dropWhile_cons_of_neg (by simp [Happening.registers])
  rw [answer?, hdrop]
  rfl

theorem registered_of_answer? {e : Event} (ha : answer? id h = some e) :
    ∃ x ∈ h, x.registers id = true := by
  by_contra hnone
  have hdrop : h.dropWhile (fun x => !x.registers id) = [] := by
    rw [← List.append_nil h, List.dropWhile_append_of_pos fun x hx => ?_]
    · rfl
    · rw [Bool.not_eq_true']
      exact Bool.eq_false_iff.mpr fun hreg => hnone ⟨x, hx, hreg⟩
  rw [answer?, hdrop] at ha
  cases ha

/-- A call that has an answer keeps it. -/
theorem answer?_append_of_some {e : Event} (ha : answer? id h = some e) :
    answer? id (h ++ l) = some e := by
  rw [answer?_append (registered_of_answer? ha), ha]
  rfl

/-- The place that answers a call holds a message with the id of the call. -/
theorem AnsweredAt.delivered {i : Nat} {e : Event} (ha : AnsweredAt h id i e) :
    ∃ m, h[i]? = some (.delivered m) ∧ m.inReplyTo = some id ∧ m.event = e := by
  obtain ⟨hbefore, hafter⟩ := ha
  rw [List.take_add_one] at hafter
  cases hx : h[i]? with
  | none =>
    rw [hx, Option.toList_none, List.append_nil, hbefore] at hafter
    cases hafter
  | some x =>
    rw [hx, Option.toList_some] at hafter
    by_cases hreg : ∃ y ∈ h.take i, y.registers id = true
    · rw [answer?_append hreg, hbefore, Option.none_or, List.findSome?_singleton] at hafter
      cases x with
      | delivered m =>
        rw [Happening.reply?] at hafter
        split at hafter
        · rename_i hid
          exact ⟨m, rfl, hid, Option.some.inj hafter⟩
        · cases hafter
      | _ => cases hafter
    · -- then `x` registers the call, and is no message
      obtain ⟨y, hy, hyreg⟩ := registered_of_answer? hafter
      rcases List.mem_append.mp hy with hy | hy
      · exact absurd ⟨y, hy, hyreg⟩ hreg
      · cases List.mem_singleton.mp hy
        cases x with
        | registered id' kind =>
          cases of_decide_eq_true hyreg
          rw [answer?_registered kind fun z hz => Bool.eq_false_iff.mpr fun hzreg =>
            hreg ⟨z, hz, hzreg⟩] at hafter
          cases hafter
        | _ => cases hyreg

/-- An answer has come at some place. -/
theorem exists_answeredAt {e : Event} {j : Nat} (ha : answer? id (h.take j) = some e) :
    ∃ i < j, AnsweredAt h id i e := by
  induction j with
  | zero => cases ha
  | succ j ih =>
    cases hj : answer? id (h.take j) with
    | none => exact ⟨j, Nat.lt_succ_self j, hj, ha⟩
    | some e' =>
      have he : answer? id (h.take (j + 1)) = some e' := by
        rw [List.take_add_one]
        exact answer?_append_of_some hj
      cases ha.symm.trans he
      obtain ⟨i, hij, hi⟩ := ih hj
      exact ⟨i, Nat.lt_succ_of_lt hij, hi⟩

theorem filter_append_of_false {p : Happening → Bool} (hl : ∀ x ∈ l, p x = false) :
    (h ++ l).filter p = h.filter p := by
  have hnil : l.filter p = [] := List.filter_eq_nil_iff.mpr fun x hx => by
    rw [hl x hx]
    exact Bool.false_ne_true
  rw [List.filter_append, hnil, List.append_nil]

/-- A place in a history that grows lies in the old part or in the new one. -/
theorem append_split {x : Happening} {before after : List Happening}
    (hs : h ++ l = before ++ x :: after) :
    (∃ after', h = before ++ x :: after') ∨ ∃ mid, before = h ++ mid ∧ l = mid ++ x :: after := by
  rcases List.append_eq_append_iff.mp hs with ⟨mid, hb, hl⟩ | ⟨mid, hh, hx⟩
  · exact .inr ⟨mid, hb, hl⟩
  · cases mid with
    | nil =>
      rw [List.append_nil] at hh
      refine .inr ⟨[], by rw [hh, List.append_nil], ?_⟩
      exact hx.symm
    | cons y mid =>
      rw [List.cons_append] at hx
      cases hx
      exact .inl ⟨mid, hh⟩

theorem accounted_nil (id : RequestId) : Accounted [] id where
  registers_once := Nat.zero_le 1
  ends_once := Nat.zero_le 1
  justified before r after hs := by
    cases before <;> cases hs

/-- Ends that are justified stay so when the history goes on without a further end. -/
theorem justified_append (hends : ∀ x ∈ l, x.ends id = false)
    (hj : ∀ before r after, h = before ++ .ended id r :: after → Justified before id r) :
    ∀ before r after, h ++ l = before ++ .ended id r :: after → Justified before id r := by
  intro before r after hs
  rcases append_split hs with ⟨after', hs'⟩ | ⟨mid, -, hmid⟩
  · exact hj before r after' hs'
  · have hend := hends (.ended id r) (by rw [hmid]; exact List.mem_append_right _ List.mem_cons_self)
    simp [Happening.ends] at hend

theorem Accounted.append (ha : Accounted h id) (hregs : ∀ x ∈ l, x.registers id = false)
    (hends : ∀ x ∈ l, x.ends id = false) : Accounted (h ++ l) id where
  registers_once := by
    rw [filter_append_of_false hregs]
    exact ha.registers_once
  ends_once := by
    rw [filter_append_of_false hends]
    exact ha.ends_once
  justified := justified_append hends ha.justified

/-- The call registers for the first time. -/
theorem Accounted.register (ha : Accounted h id) (h₀ : ∀ x ∈ h, x.registers id = false)
    (kind : CallKind) : Accounted (h ++ [.registered id kind]) id := by
  have hends : ∀ x ∈ [Happening.registered id kind], x.ends id = false :=
    List.forall_mem_singleton.mpr rfl
  refine ⟨?_, ?_, justified_append hends ha.justified⟩
  · have hnil : h.filter (Happening.registers id) = [] :=
      List.filter_eq_nil_iff.mpr fun x hx => by
        rw [h₀ x hx]
        exact Bool.false_ne_true
    rw [List.filter_append, hnil, List.nil_append]
    exact List.length_filter_le _ [_]
  · rw [filter_append_of_false hends]
    exact ha.ends_once

/-- The call ends, and this is justified, or is abandoned. -/
theorem Accounted.end {x : Happening} (ha : Accounted h id) (h₀ : ∀ y ∈ h, y.ends id = false)
    (hreg : x.registers id = false) (hx : ∀ r, x = .ended id r → Justified h id r) :
    Accounted (h ++ [x]) id where
  registers_once := by
    rw [filter_append_of_false (List.forall_mem_singleton.mpr hreg)]
    exact ha.registers_once
  ends_once := by
    have hnil : h.filter (Happening.ends id) = [] := List.filter_eq_nil_iff.mpr fun y hy => by
      rw [h₀ y hy]
      exact Bool.false_ne_true
    rw [List.filter_append, hnil, List.nil_append]
    exact List.length_filter_le _ [x]
  justified before r after hs := by
    rcases append_split hs with ⟨after', hs'⟩ | ⟨mid, hb, hmid⟩
    · exact ha.justified before r after' hs'
    · cases mid with
      | nil =>
        rw [hb, List.append_nil]
        exact hx r (List.cons.inj hmid).1
      | cons y mid =>
        have := congrArg List.length hmid
        simp at this

end Growing

end SessionMux
