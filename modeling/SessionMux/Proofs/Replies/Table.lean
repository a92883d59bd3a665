import SessionMux.Proofs.Lookup
import SessionMux.Replies.Waiting

/-!
# The table of replies, step by step

A table is looked at through two questions: which slot waits under an id (`awaited?`), and what a slot
that has not been left holds (`slot?`). An operation on an id touches the slot that waits under it
and nothing else; the lemmas say so by one function on what a slot holds, `SlotState.settle`.

The invariant is `Replies.Sound`: the slots that wait are exactly the empty ones, each under its own
id. It holds of the empty table and every operation keeps it, whatever the ids.

* `slot?_cancel`, `slot?_registered`, `slot?_resolve`, `slot?_closeAll`, `slot?_leave` — what the
  slots hold after an operation.
* `Sound.registered`, `Sound.resolve`, `Sound.closeAll`, `Sound.leave` — the invariant is kept.
* **`Sound.resolve_fst`** — an event is taken exactly if a slot waits under the id.
-/

namespace SessionMux

/-- A slot that waits under `id` gets `c`; any other keeps what it holds. -/
def SlotState.settle (id : RequestId) (c : SlotContent) (st : SlotState) : SlotState :=
  if st = ⟨id, .empty⟩ then ⟨id, c⟩ else st

/-- A slot that waits is given up. -/
def SlotState.orphan (st : SlotState) : SlotState :=
  if st.content = .empty then { st with content := .orphaned } else st

namespace Replies

/-! ## What the operations do -/

theorem slot?_fill (t : Replies) (s s' : Slot) (c : SlotContent) :
    (t.fill s c).slot? s' =
      if s' = s then (t.slot? s').map fun st => { st with content := c } else t.slot? s' :=
  lookup_map_at s' s (fun st : SlotState => { st with content := c }) t.slots

theorem awaited?_erase (t : Replies) (id id' : RequestId) :
    (t.erase id).awaited? id' = if id' = id then none else t.awaited? id' :=
  lookup_filter_ne id' id t.entries

/-- Where nobody waits there is nothing to cancel. -/
theorem cancel_of_none {t : Replies} {id : RequestId} (h : t.awaited? id = none) :
    t.cancel id = t := by
  rw [cancel, h]

theorem awaited?_cancel (t : Replies) (id id' : RequestId) :
    (t.cancel id).awaited? id' = if id' = id then none else t.awaited? id' := by
  cases h : t.awaited? id with
  | some s =>
    have hc : t.cancel id = (t.fill s .orphaned).erase id := by rw [cancel, h]
    rw [hc, awaited?_erase]
    rfl
  | none =>
    rw [cancel_of_none h]
    by_cases hid : id' = id
    · rw [if_pos hid, hid, h]
    · rw [if_neg hid]

/-- **The invariant of the table.** -/
structure Sound (t : Replies) : Prop where
  ids_nodup : t.ids.Nodup
  entry_iff : ∀ id s, t.awaited? id = some s ↔ t.slot? s = some ⟨id, .empty⟩
  fresh : ∀ s : Slot, t.given ≤ s.number → t.slot? s = none
  closed_nil : t.closed = true → t.entries = []

theorem sound_empty : Sound {} where
  ids_nodup := List.nodup_nil
  entry_iff id s := by
    constructor <;> intro h <;> cases h
  fresh _ _ := rfl
  closed_nil h := by cases h

section Operations

variable {t : Replies} {id : RequestId} {s : Slot}

theorem Sound.slot?_of_awaited? (h : t.Sound) (he : t.awaited? id = some s) :
    t.slot? s = some ⟨id, .empty⟩ := (h.entry_iff id s).mp he

/-- Filling the slot that waits under an id settles the id. -/
theorem Sound.slot?_fill_entry (h : t.Sound) (he : t.awaited? id = some s) (c : SlotContent)
    (s' : Slot) : (t.fill s c).slot? s' = (t.slot? s').map (SlotState.settle id c) := by
  rw [slot?_fill]
  by_cases hs : s' = s
  · rw [if_pos hs, hs, h.slot?_of_awaited? he, Option.map_some, Option.map_some,
      SlotState.settle, if_pos rfl]
  · rw [if_neg hs]
    cases hst : t.slot? s' with
    | none => rfl
    | some st =>
      rw [Option.map_some, SlotState.settle, if_neg]
      rintro rfl
      have := (h.entry_iff id s').mpr hst
      rw [he] at this
      exact hs (Option.some.inj this).symm

/-- Where nobody waits under an id there is nothing to settle. -/
theorem Sound.settle_of_awaited?_none (h : t.Sound) (he : t.awaited? id = none) (c : SlotContent)
    (s' : Slot) : (t.slot? s').map (SlotState.settle id c) = t.slot? s' := by
  cases hst : t.slot? s' with
  | none => rfl
  | some st =>
    rw [Option.map_some, SlotState.settle, if_neg]
    rintro rfl
    have := (h.entry_iff id s').mpr hst
    rw [he] at this
    cases this

theorem Sound.slot?_cancel (h : t.Sound) (id : RequestId) (s' : Slot) :
    (t.cancel id).slot? s' = (t.slot? s').map (SlotState.settle id .orphaned) := by
  cases he : t.awaited? id with
  | some s =>
    have hc : t.cancel id = (t.fill s .orphaned).erase id := by rw [cancel, he]
    rw [hc, ← h.slot?_fill_entry he]
    rfl
  | none =>
    rw [cancel_of_none he, h.settle_of_awaited?_none he]

/-- After an id has been settled, exactly the other ids still wait. -/
theorem settle_eq_empty_iff {st : SlotState} {id id' : RequestId} {c : SlotContent}
    (hc : c ≠ .empty) : st.settle id c = ⟨id', .empty⟩ ↔ st = ⟨id', .empty⟩ ∧ id' ≠ id := by
  rw [SlotState.settle]
  by_cases hst : st = ⟨id, .empty⟩
  · rw [if_pos hst]
    constructor
    · intro he
      cases he
      exact absurd rfl hc
    · rintro ⟨rfl, hne⟩
      cases hst
      exact absurd rfl hne
  · rw [if_neg hst]
    constructor
    · rintro rfl
      exact ⟨rfl, fun he => hst (by rw [he])⟩
    · exact And.left

/-- **What settles an id keeps the invariant.** -/
theorem Sound.settle {t' : Replies} (h : t.Sound) {c : SlotContent} (hc : c ≠ .empty)
    (hids : t'.entries = t.entries.filter fun e => e.1 != id)
    (hslots : ∀ s, t'.slot? s = (t.slot? s).map (SlotState.settle id c))
    (hgiven : t'.given = t.given) (hclosed : t'.closed = t.closed) : t'.Sound where
  ids_nodup := by
    rw [ids, hids]
    exact (List.filter_sublist.map _).nodup h.ids_nodup
  entry_iff id' s := by
    have hentry : t'.awaited? id' = if id' = id then none else t.awaited? id' := by
      rw [awaited?, hids]
      exact lookup_filter_ne id' id t.entries
    rw [hentry, hslots]
    by_cases hid : id' = id
    · rw [if_pos hid, Option.map_eq_some_iff]
      constructor
      · intro hn
        cases hn
      · rintro ⟨st, -, hst⟩
        exact absurd hid ((settle_eq_empty_iff hc).mp hst).2
    · rw [if_neg hid, h.entry_iff, Option.map_eq_some_iff]
      constructor
      · intro hs
        exact ⟨_, hs, (settle_eq_empty_iff hc).mpr ⟨rfl, hid⟩⟩
      · rintro ⟨st, hs, hst⟩
        rw [hs, ((settle_eq_empty_iff hc).mp hst).1]
  fresh s hs := by
    rw [hslots, h.fresh s (hgiven ▸ hs)]
    rfl
  closed_nil hcl := by
    rw [hids, h.closed_nil (hclosed ▸ hcl), List.filter_nil]

theorem entries_cancel (t : Replies) (id : RequestId) :
    (t.cancel id).entries = t.entries.filter fun e => e.1 != id := by
  cases he : t.awaited? id with
  | some s =>
    rw [cancel, he]
    rfl
  | none =>
    rw [cancel_of_none he]
    refine (List.filter_eq_self.mpr ?_).symm
    intro e hmem
    have := List.lookup_eq_none_iff.mp he e hmem
    rw [bne, Bool.not_eq_true'] at this ⊢
    rw [BEq.comm]
    exact this

theorem erase_of_none {t : Replies} {id : RequestId} (h : t.awaited? id = none) :
    t.erase id = t := by
  rw [erase, ← entries_cancel, cancel_of_none h]

theorem given_cancel (t : Replies) (id : RequestId) : (t.cancel id).given = t.given := by
  rw [cancel]
  split <;> rfl

theorem closed_cancel (t : Replies) (id : RequestId) : (t.cancel id).closed = t.closed := by
  rw [cancel]
  split <;> rfl

theorem Sound.cancel (h : t.Sound) (id : RequestId) : (t.cancel id).Sound :=
  h.settle (by decide) (entries_cancel t id) (h.slot?_cancel id) (given_cancel t id)
    (closed_cancel t id)

/-! ### Registering -/

/-- A table that is closed registers nobody. -/
theorem register_closed (id : RequestId) (h : t.closed = true) :
    t.register id = .error .connectionClosed := by
  rw [register, if_pos h]

/-- The table after a registration. -/
def registered (t : Replies) (id : RequestId) : Replies :=
  { t.cancel id with
    entries := (t.cancel id).entries ++ [(id, ⟨t.given⟩)]
    slots := (t.cancel id).slots ++ [(⟨t.given⟩, ⟨id, .empty⟩)]
    given := t.given + 1 }

theorem register_open (id : RequestId) (h : t.closed = false) :
    t.register id = .ok (⟨t.given⟩, t.registered id) := by
  rw [register, if_neg (by rw [h]; exact Bool.false_ne_true)]
  show Except.ok _ = Except.ok _
  rw [registered, given_cancel]

/-- Registering does not close a table. -/
theorem closed_register {id : RequestId} {t' : Replies} (h : t.register id = .ok (s, t')) :
    t'.closed = t.closed := by
  cases hopen : t.closed with
  | true =>
    rw [register_closed id hopen] at h
    cases h
  | false =>
    rw [register_open id hopen] at h
    cases h
    exact (closed_cancel t id).trans hopen

theorem Sound.slot?_registered (h : t.Sound) (id : RequestId) (s' : Slot) :
    (t.registered id).slot? s' =
      if s' = ⟨t.given⟩ then some ⟨id, .empty⟩
      else (t.slot? s').map (SlotState.settle id .orphaned) := by
  rw [← h.slot?_cancel id s']
  refine lookup_append_one s' ⟨t.given⟩ _ _ ?_
  exact (h.cancel id).fresh ⟨t.given⟩ (Nat.le_of_eq (given_cancel t id))

theorem awaited?_registered (t : Replies) (id id' : RequestId) :
    (t.registered id).awaited? id' = if id' = id then some ⟨t.given⟩ else t.awaited? id' := by
  have hself : (t.cancel id).awaited? id = none := by rw [awaited?_cancel, if_pos rfl]
  have happ : (t.registered id).awaited? id'
      = if id' = id then some ⟨t.given⟩ else (t.cancel id).awaited? id' :=
    lookup_append_one id' id (⟨t.given⟩ : Slot) (t.cancel id).entries hself
  rw [happ]
  by_cases hid : id' = id
  · rw [if_pos hid, if_pos hid]
  · rw [if_neg hid, if_neg hid, awaited?_cancel, if_neg hid]

theorem Sound.registered (h : t.Sound) (id : RequestId) (hopen : t.closed = false) :
    (t.registered id).Sound where
  ids_nodup := by
    show (((t.cancel id).entries ++ [(id, (⟨t.given⟩ : Slot))]).map Prod.fst).Nodup
    rw [List.map_append, List.nodup_append]
    refine ⟨(h.cancel id).ids_nodup, List.nodup_cons.mpr ⟨List.not_mem_nil, List.nodup_nil⟩, ?_⟩
    rintro a ha b hb rfl
    rw [entries_cancel] at ha
    obtain ⟨e, he, rfl⟩ := List.mem_map.mp ha
    have hne := (List.mem_filter.mp he).2
    rw [List.mem_singleton.mp hb, bne_self_eq_false] at hne
    cases hne
  entry_iff id' s := by
    rw [awaited?_registered, h.slot?_registered]
    have hfresh : t.slot? ⟨t.given⟩ = none := h.fresh _ (Nat.le_refl _)
    by_cases hid : id' = id
    · rw [if_pos hid, hid]
      by_cases hs : s = ⟨t.given⟩
      · rw [if_pos hs, hs]
        exact ⟨fun _ => rfl, fun _ => rfl⟩
      · rw [if_neg hs, Option.map_eq_some_iff]
        constructor
        · intro he
          exact absurd (Option.some.inj he).symm hs
        · rintro ⟨st, -, hst⟩
          exact absurd rfl ((settle_eq_empty_iff (by decide)).mp hst).2
    · rw [if_neg hid, h.entry_iff]
      by_cases hs : s = ⟨t.given⟩
      · rw [if_pos hs, hs, hfresh]
        constructor
        · intro hn
          cases hn
        · intro hst
          exact absurd (SlotState.mk.inj (Option.some.inj hst)).1.symm hid
      · rw [if_neg hs, Option.map_eq_some_iff]
        constructor
        · intro hst
          exact ⟨_, hst, (settle_eq_empty_iff (by decide)).mpr ⟨rfl, hid⟩⟩
        · rintro ⟨st, hst, hsettle⟩
          rw [hst, ((settle_eq_empty_iff (by decide)).mp hsettle).1]
  fresh s hs := by
    have hgiven : t.given < s.number := hs
    rw [h.slot?_registered, if_neg, h.fresh s (Nat.le_of_lt hgiven), Option.map_none]
    rintro rfl
    exact Nat.lt_irrefl _ hgiven
  closed_nil hcl := by
    have hcl' : (t.cancel id).closed = true := hcl
    rw [closed_cancel, hopen] at hcl'
    cases hcl'

/-! ### Resolving -/

theorem Sound.resolve_fst (h : t.Sound) (id : RequestId) (e : Event) :
    (t.resolve id e).1 = (t.awaited? id).isSome := by
  cases he : t.awaited? id with
  | some s => simp only [resolve, he, h.slot?_of_awaited? he, Option.isSome_some]
  | none => simp only [resolve, he, Option.isSome_none]

theorem Sound.slot?_resolve (h : t.Sound) (id : RequestId) (e : Event) (s' : Slot) :
    (t.resolve id e).2.slot? s' = (t.slot? s').map (SlotState.settle id (.reply e)) := by
  cases he : t.awaited? id with
  | some s =>
    rw [← h.slot?_fill_entry he]
    simp only [resolve, he, h.slot?_of_awaited? he]
    rfl
  | none =>
    rw [h.settle_of_awaited?_none he]
    simp only [resolve, he]

theorem given_resolve (t : Replies) (id : RequestId) (e : Event) :
    (t.resolve id e).2.given = t.given := by
  rw [resolve]
  split
  · split <;> rfl
  · rfl

theorem closed_resolve (t : Replies) (id : RequestId) (e : Event) :
    (t.resolve id e).2.closed = t.closed := by
  rw [resolve]
  split
  · split <;> rfl
  · rfl

theorem Sound.resolve (h : t.Sound) (id : RequestId) (e : Event) : (t.resolve id e).2.Sound := by
  have hc : SlotContent.reply e ≠ .empty := by simp
  refine h.settle hc ?_ (h.slot?_resolve id e) (given_resolve t id e) (closed_resolve t id e)
  cases he : t.awaited? id with
  | some s =>
    simp only [Replies.resolve, he, h.slot?_of_awaited? he]
    rfl
  | none =>
    simp only [Replies.resolve, he]
    rw [← entries_cancel, cancel_of_none he]

/-! ### Closing -/

theorem slot?_foldl_fill (l : List (RequestId × Slot)) (t : Replies) (s' : Slot) :
    (l.foldl (fun t e => t.fill e.2 .orphaned) t).slot? s' =
      if s' ∈ l.map Prod.snd then (t.slot? s').map fun st => { st with content := .orphaned }
      else t.slot? s' := by
  induction l generalizing t with
  | nil => rw [List.map_nil, if_neg List.not_mem_nil, List.foldl_nil]
  | cons e l ih =>
    rw [List.foldl_cons, ih, slot?_fill, List.map_cons]
    by_cases hs : s' = e.2
    · have hmem : s' ∈ e.2 :: l.map Prod.snd := by
        rw [hs]
        exact List.mem_cons_self
      rw [if_pos hs, if_pos hmem, Option.map_map]
      exact ite_self _
    · have hmem : s' ∈ e.2 :: l.map Prod.snd ↔ s' ∈ l.map Prod.snd := by
        rw [List.mem_cons]
        exact ⟨fun h => h.resolve_left hs, Or.inr⟩
      rw [if_neg hs]
      simp only [hmem]

theorem Sound.slot?_closeAll (h : t.Sound) (s' : Slot) :
    t.closeAll.slot? s' = (t.slot? s').map SlotState.orphan := by
  have hfold : t.closeAll.slot? s'
      = (t.entries.foldl (fun t e => t.fill e.2 .orphaned) t).slot? s' := rfl
  rw [hfold, slot?_foldl_fill]
  by_cases hs : s' ∈ t.entries.map Prod.snd
  · obtain ⟨⟨id, s⟩, hmem, rfl⟩ := List.mem_map.mp hs
    have hslot := h.slot?_of_awaited? (lookup_of_mem h.ids_nodup hmem)
    rw [if_pos hs, hslot]
    rfl
  · rw [if_neg hs]
    cases hst : t.slot? s' with
    | none => rfl
    | some st =>
      obtain ⟨id, content⟩ := st
      rw [Option.map_some, SlotState.orphan, if_neg]
      rintro rfl
      exact hs (List.mem_map.mpr ⟨_, mem_of_lookup ((h.entry_iff id s').mpr hst), rfl⟩)

theorem given_closeAll (t : Replies) : t.closeAll.given = t.given := by
  have hfold : ∀ (l : List (RequestId × Slot)) (t : Replies),
      (l.foldl (fun t e => t.fill e.2 .orphaned) t).given = t.given := by
    intro l
    induction l with
    | nil => intro t; rfl
    | cons e l ih => intro t; rw [List.foldl_cons, ih]; rfl
  exact hfold t.entries t

theorem Sound.closeAll (h : t.Sound) : t.closeAll.Sound where
  ids_nodup := List.nodup_nil
  entry_iff id s := by
    rw [h.slot?_closeAll, Option.map_eq_some_iff]
    constructor
    · intro he
      cases he
    · rintro ⟨st, -, hst⟩
      rw [SlotState.orphan] at hst
      split at hst
      · cases hst
      · rename_i hne
        rw [hst] at hne
        exact absurd rfl hne
  fresh s hs := by
    rw [h.slot?_closeAll, h.fresh s (given_closeAll t ▸ hs), Option.map_none]
  closed_nil _ := rfl

/-- Closing a second time changes nothing. -/
theorem closeAll_closeAll (t : Replies) : t.closeAll.closeAll = t.closeAll := rfl

/-! ### Leaving -/

/-- A slot that has been left is not left again. -/
theorem leave_of_none (h : t.slot? s = none) : (t.leave s).2 = t := by
  simp only [leave, h]

/-- The table after a slot has been left that was registered under `id`. -/
theorem leave_snd {st : SlotState} (hs : t.slot? s = some st) :
    (t.leave s).2
      = { t.cancel st.id with slots := (t.cancel st.id).slots.filter fun p => p.1 != s } := by
  simp only [leave, hs]

theorem Sound.slot?_leave (h : t.Sound) {st : SlotState} (hs : t.slot? s = some st) (s' : Slot) :
    (t.leave s).2.slot? s' =
      if s' = s then none else (t.slot? s').map (SlotState.settle st.id .orphaned) := by
  rw [leave_snd hs, ← h.slot?_cancel]
  exact lookup_filter_ne s' s (t.cancel st.id).slots

theorem awaited?_leave {st : SlotState} (hs : t.slot? s = some st) (id' : RequestId) :
    (t.leave s).2.awaited? id' = if id' = st.id then none else t.awaited? id' := by
  rw [leave_snd hs, ← awaited?_cancel]
  rfl

theorem given_leave (t : Replies) (s : Slot) : (t.leave s).2.given = t.given := by
  cases hs : t.slot? s with
  | none => rw [leave_of_none hs]
  | some st =>
    rw [leave_snd hs]
    exact given_cancel t st.id

theorem closed_leave (t : Replies) (s : Slot) : (t.leave s).2.closed = t.closed := by
  cases hs : t.slot? s with
  | none => rw [leave_of_none hs]
  | some st =>
    rw [leave_snd hs]
    exact closed_cancel t st.id

theorem Sound.leave (h : t.Sound) (s : Slot) : (t.leave s).2.Sound := by
  cases hs : t.slot? s with
  | none =>
    rw [leave_of_none hs]
    exact h
  | some st =>
    have hc := h.cancel st.id
    refine ⟨?_, ?_, ?_, ?_⟩
    · rw [leave_snd hs]
      exact hc.ids_nodup
    · intro id' s'
      rw [awaited?_leave hs, h.slot?_leave hs, ← awaited?_cancel, ← h.slot?_cancel, hc.entry_iff]
      by_cases hss : s' = s
      · rw [if_pos hss, hss, h.slot?_cancel, hs, Option.map_some]
        constructor
        · intro he
          obtain ⟨rfl, hne⟩ := (settle_eq_empty_iff (by decide)).mp (Option.some.inj he)
          exact absurd rfl hne
        · intro hn
          cases hn
      · rw [if_neg hss]
    · intro s' hs'
      rw [h.slot?_leave hs, h.fresh s' (given_leave t s ▸ hs'), Option.map_none, ite_self]
    · intro hcl
      rw [closed_leave, ← closed_cancel t st.id] at hcl
      rw [leave_snd hs]
      exact hc.closed_nil hcl

/-- **Registering under an id of one's own and leaving at once** leaves no trace. -/
theorem Sound.leave_registered (h : t.Sound) (hopen : t.closed = false)
    (hfresh : t.awaited? id = none) :
    ((t.registered id).leave ⟨t.given⟩).2.entries = t.entries ∧
      ∀ s, ((t.registered id).leave ⟨t.given⟩).2.slot? s = t.slot? s := by
  have hcancel : t.cancel id = t := cancel_of_none hfresh
  have hself : ∀ c s, (t.slot? s).map (SlotState.settle id c) = t.slot? s :=
    h.settle_of_awaited?_none hfresh
  have hslot : (t.registered id).slot? ⟨t.given⟩ = some ⟨id, .empty⟩ := by
    rw [h.slot?_registered, if_pos rfl]
  constructor
  · have hkept : t.entries.filter (fun e => e.1 != id) = t.entries := by
      rw [← entries_cancel, hcancel]
    rw [leave_snd hslot]
    show ((t.registered id).cancel id).entries = t.entries
    rw [entries_cancel, Replies.registered, hcancel, List.filter_append, hkept,
      List.filter_cons_of_neg (by simp), List.filter_nil, List.append_nil]
  · intro s
    rw [(h.registered id hopen).slot?_leave hslot]
    by_cases hs : s = ⟨t.given⟩
    · rw [if_pos hs, hs, h.fresh _ (Nat.le_refl _)]
    · rw [if_neg hs, h.slot?_registered, if_neg hs, hself, hself]

end Operations

end Replies

end SessionMux
