import SessionMux.Proofs.Replies.Table

/-!
# How long a slot waits

A table of replies is used by many hands: requests register, under whatever ids, replies come in,
waits end and slots are dropped, and the table is closed. A slot that waits goes on waiting until a use
touches its id. Leaving a slot is such a use, and it is the id that counts: whoever leaves a slot takes
away the entry under its id, also when the entry belongs to a later registration.

* `Use`, `Replies.use`, `Replies.run` — what is done with a table, one use, and a run.
* `Replies.touches`, `Replies.spares` — a use touches an id, and a run leaves it alone.
* `Sound.use`, `sound_run` — the invariant of the table holds in every run.
* **`kept_run`** — a slot goes on waiting exactly as long as its id is left alone.
* `not_leave_spares` — so leaving a slot can end the wait of another one.
-/

namespace SessionMux

/-- What is done with a table of replies. -/
inductive Use where
  /-- A request registers, if the table is open. -/
  | register (id : RequestId)
  /-- An event comes in for an id. -/
  | resolve (id : RequestId) (e : Event)
  /-- Whoever waits looks at the moment `now`, and ends the wait if it has come to its end. -/
  | look (now : Nat) (w : Wait)
  /-- A slot is dropped. -/
  | drop (s : Slot)
  | closeAll

namespace Replies

/-- One use of a table. -/
def use (t : Replies) : Use → Replies
  | .register id => match t.register id with
    | .ok (_, t') => t'
    | .error _ => t
  | .resolve id e => (t.resolve id e).2
  | .look now w => match t.finish? now w with
    | some (_, t') => t'
    | none => t
  | .drop s => (t.leave s).2
  | .closeAll => t.closeAll

/-- One use after another. -/
def run (t : Replies) (uses : List Use) : Replies := uses.foldl use t

/-- The id under which a slot was registered that has not been left. -/
def idOf? (t : Replies) (s : Slot) : Option RequestId := (t.slot? s).map SlotState.id

/-- The use registers under the id, answers it, leaves one of its slots, or closes the table. -/
def touches (t : Replies) (id : RequestId) : Use → Bool
  | .register id' | .resolve id' _ => id' = id
  | .look now w => (t.outcome? now w).isSome && t.idOf? w.slot = some id
  | .drop s => t.idOf? s = some id
  | .closeAll => true

/-- No use of a run touches the id. -/
def spares (t : Replies) (id : RequestId) : List Use → Bool
  | [] => true
  | u :: uses => !t.touches id u && (t.use u).spares id uses

section Uses

variable {t : Replies} {id : RequestId} {s : Slot}

/-! ## One use -/

theorem use_register_closed (id : RequestId) (h : t.closed = true) : t.use (.register id) = t := by
  rw [use, register_closed id h]

theorem use_register_open (id : RequestId) (h : t.closed = false) :
    t.use (.register id) = t.registered id := by
  rw [use, register_open id h]

/-- To look is to leave the slot, or to do nothing. -/
theorem use_look (t : Replies) (now : Nat) (w : Wait) :
    t.use (.look now w) = if (t.outcome? now w).isSome then t.use (.drop w.slot) else t := by
  rw [use, finish?]
  cases t.outcome? now w <;> rfl

theorem touches_look (t : Replies) (id : RequestId) (now : Nat) (w : Wait) :
    t.touches id (.look now w) = ((t.outcome? now w).isSome && t.touches id (.drop w.slot)) := rfl

/-- **Every use keeps the invariant of the table.** -/
theorem Sound.use (h : t.Sound) (u : Use) : (t.use u).Sound := by
  cases u with
  | register id =>
    cases hcl : t.closed with
    | true =>
      rw [use_register_closed id hcl]
      exact h
    | false =>
      rw [use_register_open id hcl]
      exact h.registered id hcl
  | resolve id e => exact h.resolve id e
  | look now w =>
    rw [use_look]
    split
    · exact h.leave w.slot
    · exact h
  | drop s => exact h.leave s
  | closeAll => exact h.closeAll

/-- Slots that have been given out are not given out again. -/
theorem given_le_use (t : Replies) (u : Use) : t.given ≤ (t.use u).given := by
  cases u with
  | register id =>
    cases hcl : t.closed with
    | true => exact Nat.le_of_eq (by rw [use_register_closed id hcl])
    | false =>
      rw [use_register_open id hcl]
      exact Nat.le_succ t.given
  | resolve id e => exact Nat.le_of_eq (given_resolve t id e).symm
  | look now w =>
    rw [use_look]
    split
    · exact Nat.le_of_eq (given_leave t w.slot).symm
    · exact Nat.le_refl _
  | drop s => exact Nat.le_of_eq (given_leave t s).symm
  | closeAll => exact Nat.le_of_eq (given_closeAll t).symm

theorem Sound.lt_given {st : SlotState} (h : t.Sound) (hs : t.slot? s = some st) :
    s.number < t.given := by
  refine Nat.lt_of_not_le fun hle => ?_
  rw [h.fresh s hle] at hs
  cases hs

/-- **A slot that is left takes the entry under its id with it**, whosever the entry is. -/
theorem awaited?_leave_eq (t : Replies) (id : RequestId) (s : Slot) :
    (t.leave s).2.awaited? id = if t.idOf? s = some id then none else t.awaited? id := by
  rw [idOf?]
  cases hs : t.slot? s with
  | none =>
    rw [leave_of_none hs]
    exact (if_neg nofun).symm
  | some st =>
    rw [awaited?_leave hs, Option.map_some]
    by_cases hid : id = st.id
    · rw [if_pos hid, if_pos (congrArg some hid.symm)]
    · rw [if_neg hid, if_neg fun he => hid (Option.some.inj he).symm]

theorem Sound.awaited?_resolve (h : t.Sound) (id id' : RequestId) (e : Event) :
    (t.resolve id' e).2.awaited? id = if id = id' then none else t.awaited? id := by
  cases he : t.awaited? id' with
  | none =>
    simp only [Replies.resolve, he]
    by_cases hid : id = id'
    · rw [if_pos hid, hid, he]
    · rw [if_neg hid]
  | some s =>
    simp only [Replies.resolve, he, h.slot?_of_awaited? he]
    exact awaited?_erase t id' id

/-- **A slot goes on waiting through a use exactly if the use does not touch its id.** -/
theorem Sound.waits_use_iff (h : t.Sound) (hw : t.awaited? id = some s) (u : Use) :
    (t.use u).awaited? id = some s ↔ t.touches id u = false := by
  have hnone : ∀ {P : Prop}, none = some s → P := fun he => absurd he.symm (Option.some_ne_none s)
  have hdrop : ∀ s', (t.use (.drop s')).awaited? id = some s ↔ t.touches id (.drop s') = false := by
    intro s'
    show (t.leave s').2.awaited? id = some s ↔ decide (t.idOf? s' = some id) = false
    rw [awaited?_leave_eq, decide_eq_false_iff_not]
    by_cases hid : t.idOf? s' = some id
    · rw [if_pos hid]
      exact ⟨hnone, fun hne => absurd hid hne⟩
    · rw [if_neg hid]
      exact ⟨fun _ => hid, fun _ => hw⟩
  cases u with
  | register id' =>
    have hopen : t.closed = false := by
      cases hcl : t.closed with
      | false => rfl
      | true =>
        rw [awaited?, h.closed_nil hcl] at hw
        cases hw
    rw [use_register_open id' hopen, awaited?_registered]
    show _ ↔ decide (id' = id) = false
    rw [decide_eq_false_iff_not]
    by_cases hid : id = id'
    · -- the slot that has just registered is another one
      rw [if_pos hid]
      have hlt := h.lt_given (h.slot?_of_awaited? hw)
      constructor
      · intro he
        rw [← Option.some.inj he] at hlt
        exact absurd hlt (Nat.lt_irrefl _)
      · exact fun hne => absurd hid.symm hne
    · rw [if_neg hid]
      exact ⟨fun _ he => hid he.symm, fun _ => hw⟩
  | resolve id' e =>
    show (t.resolve id' e).2.awaited? id = some s ↔ decide (id' = id) = false
    rw [h.awaited?_resolve, decide_eq_false_iff_not]
    by_cases hid : id = id'
    · rw [if_pos hid]
      exact ⟨hnone, fun hne => absurd hid.symm hne⟩
    · rw [if_neg hid]
      exact ⟨fun _ he => hid he.symm, fun _ => hw⟩
  | look now w =>
    rw [use_look, touches_look]
    cases (t.outcome? now w).isSome with
    | true => exact hdrop w.slot
    | false => exact ⟨fun _ => rfl, fun _ => hw⟩
  | drop s' => exact hdrop s'
  | closeAll => exact ⟨hnone, fun hfalse => Bool.noConfusion hfalse⟩

/-- **A slot that does not wait any more does not wait again.** -/
theorem Sound.waits_of_use (h : t.Sound) (hgiven : s.number < t.given) (u : Use)
    (hw : (t.use u).awaited? id = some s) : t.awaited? id = some s := by
  rw [h.entry_iff]
  have hslot : (t.use u).slot? s = some ⟨id, .empty⟩ := (h.use u).slot?_of_awaited? hw
  have hsettled : ∀ {id' : RequestId} {c : SlotContent}, c ≠ .empty →
      (t.slot? s).map (SlotState.settle id' c) = some ⟨id, .empty⟩ →
      t.slot? s = some ⟨id, .empty⟩ := by
    intro id' c hc hs
    obtain ⟨st, hst, hsettle⟩ := Option.map_eq_some_iff.mp hs
    rw [hst, ((settle_eq_empty_iff hc).mp hsettle).1]
  have hleft : ∀ {s' : Slot}, (t.leave s').2.slot? s = some ⟨id, .empty⟩ →
      t.slot? s = some ⟨id, .empty⟩ := by
    intro s' hs
    cases hs' : t.slot? s' with
    | none =>
      rw [leave_of_none hs'] at hs
      exact hs
    | some st =>
      rw [h.slot?_leave hs'] at hs
      split at hs
      · cases hs
      · exact hsettled (by decide) hs
  cases u with
  | register id' =>
    cases hcl : t.closed with
    | true =>
      rw [use_register_closed id' hcl] at hslot
      exact hslot
    | false =>
      rw [use_register_open id' hcl, h.slot?_registered, if_neg] at hslot
      · exact hsettled (by decide) hslot
      · rintro rfl
        exact Nat.lt_irrefl _ hgiven
  | resolve id' e => exact hsettled (by simp) ((h.slot?_resolve id' e s).symm.trans hslot)
  | look now w =>
    rw [use_look] at hslot
    split at hslot
    · exact hleft hslot
    · exact hslot
  | drop s' => exact hleft hslot
  | closeAll =>
    obtain ⟨st, -, hst⟩ := Option.map_eq_some_iff.mp ((h.slot?_closeAll s).symm.trans hslot)
    rw [SlotState.orphan] at hst
    split at hst
    · cases hst
    · rename_i hne
      exact absurd (congrArg SlotState.content hst) hne

/-! ## A run -/

theorem Sound.run (h : t.Sound) (uses : List Use) : (t.run uses).Sound := by
  induction uses generalizing t with
  | nil => exact h
  | cons u uses ih => exact ih (h.use u)

theorem Sound.waits_of_run (h : t.Sound) (hgiven : s.number < t.given) (uses : List Use)
    (hw : (t.run uses).awaited? id = some s) : t.awaited? id = some s := by
  induction uses generalizing t with
  | nil => exact hw
  | cons u uses ih =>
    have hnext := ih (h.use u) (Nat.lt_of_lt_of_le hgiven (given_le_use t u)) hw
    exact h.waits_of_use hgiven u hnext

/-- A slot goes on waiting through a run exactly if the run leaves its id alone. -/
theorem Sound.waits_run_iff (h : t.Sound) (hw : t.awaited? id = some s) (uses : List Use) :
    (t.run uses).awaited? id = some s ↔ t.spares id uses = true := by
  induction uses generalizing t with
  | nil => exact ⟨fun _ => rfl, fun _ => hw⟩
  | cons u uses ih =>
    have hgiven := h.lt_given (h.slot?_of_awaited? hw)
    rw [spares, Bool.and_eq_true, Bool.not_eq_true', ← h.waits_use_iff hw u]
    constructor
    · intro hrun
      have hnext := (h.use u).waits_of_run
        (Nat.lt_of_lt_of_le hgiven (given_le_use t u)) uses hrun
      exact ⟨hnext, (ih (h.use u) hnext).mp hrun⟩
    · rintro ⟨hnext, hspares⟩
      exact (ih (h.use u) hnext).mpr hspares

/-- **What becomes of a slot that waits** while a table is used. -/
structure Kept (t : Replies) (id : RequestId) (s : Slot) (uses : List Use) : Prop where
  /-- It goes on waiting exactly as long as its id is left alone. -/
  waits_iff : (t.run uses).awaited? id = some s ↔ t.spares id uses = true
  /-- While it waits, an event for its id is put into it. -/
  resolvable : t.spares id uses = true → ∀ e, ((t.run uses).resolve id e).1 = true ∧
    ((t.run uses).resolve id e).2.slot? s = some ⟨id, .reply e⟩
  /-- When it does not wait any more, no event is. -/
  unresolvable : t.spares id uses = false → ∀ id' e,
    ((t.run uses).resolve id' e).2.slot? s = (t.run uses).slot? s
  /-- Whoever leaves a slot, whether its wait has ended or it is dropped, takes away the entry under
  the id of that slot and no other. -/
  leaves : ∀ s' id', ((t.run uses).leave s').2.awaited? id' =
    if (t.run uses).idOf? s' = some id' then none else (t.run uses).awaited? id'

end Uses

/-- **A slot waits as long as its id is left alone**, whatever is done with the table in whatever
order, and however often an id is registered. -/
theorem kept_run (before : List Use) {id : RequestId} {s : Slot}
    (hw : (({} : Replies).run before).awaited? id = some s) (uses : List Use) :
    Kept (({} : Replies).run before) id s uses := by
  have h : (({} : Replies).run before).Sound := sound_empty.run before
  have hslot := h.slot?_of_awaited? hw
  have hrun := h.run uses
  have hiff := h.waits_run_iff hw uses
  refine ⟨hiff, ?_, ?_, fun s' id' => awaited?_leave_eq _ id' s'⟩
  · intro hspares e
    have hwaits := hiff.mpr hspares
    rw [hrun.resolve_fst, hwaits, hrun.slot?_resolve, hrun.slot?_of_awaited? hwaits]
    exact ⟨rfl, congrArg some (if_pos rfl)⟩
  · intro hspares id' e
    rw [hrun.slot?_resolve]
    cases hst : ((({} : Replies).run before).run uses).slot? s with
    | none => rfl
    | some st =>
      rw [Option.map_some, SlotState.settle, if_neg]
      rintro rfl
      -- the slot would have waited under this id from the start, and so this is its own id
      have hwaits := (hrun.entry_iff id' s).mpr hst
      have hstart := h.slot?_of_awaited? (h.waits_of_run (h.lt_given hslot) uses hwaits)
      rw [hslot] at hstart
      cases hstart
      rw [hiff.mp hwaits] at hspares
      cases hspares

/-- Two slots of one id: the first has been answered and is left only after the second has registered.
Until then the second waits, and after that it does not. -/
theorem kept_run_again :
    let reply : Use := .resolve ⟨1⟩ .pong
    let t := ({} : Replies).run [.register ⟨1⟩, reply, .register ⟨1⟩]
    (t.run [.resolve ⟨2⟩ .pong]).awaited? ⟨1⟩ = some ⟨1⟩ ∧
      ∀ e, (((t.run [.look 0 ⟨⟨0⟩, "ping", 100, 0⟩]).resolve ⟨1⟩ e).2.slot? ⟨1⟩ =
        some ⟨⟨1⟩, .orphaned⟩) := by
  intro reply t
  have hkept := @kept_run [.register ⟨1⟩, reply, .register ⟨1⟩] ⟨1⟩ ⟨1⟩ (by decide)
  refine ⟨(hkept [.resolve ⟨2⟩ .pong]).waits_iff.mpr (by decide), fun e => ?_⟩
  rw [(hkept [.look 0 ⟨⟨0⟩, "ping", 100, 0⟩]).unresolvable (by decide)]
  decide

/-- **Leaving a slot can end the wait of another one**: of the one that registered under the same id
after the first had been answered. -/
theorem not_leave_spares :
    ¬ ∀ (uses : List Use) (id : RequestId) (s s' : Slot), s' ≠ s →
      (({} : Replies).run uses).awaited? id = some s →
        ((({} : Replies).run uses).leave s').2.awaited? id = some s := by
  intro h
  have hkept := h [.register ⟨1⟩, .resolve ⟨1⟩ .pong, .register ⟨1⟩] ⟨1⟩ ⟨1⟩ ⟨0⟩ (by decide) (by decide)
  revert hkept
  decide

end Replies

end SessionMux
