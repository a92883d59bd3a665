import SessionMux.Link.Basic

/-!
# What a link can do in one step

The steps of a link, each with what holds of it: sending and closing on the side of the callers, and on
the other side the pump. What one step of the pump can be is `Link.Pumps`, one case for each way to go
on.

* `Link.queued`, `Link.Adds` — the texts that wait for the pump, and that callers only add to them.
* **`pumps_of_pump`** — every step of the pump is one of the moves.
* `Pumps.active_eq`, `Pumps.left`, `Pumps.incoming_decreases` — what follows for every move.
* `EndsOnce.move` — the end is announced once, behind everything else.
-/

namespace SessionMux

/-! ## Texts that wait -/

/-- The text that a command has for the transport. -/
def Command.text? : Command → Option String
  | .send text => some text
  | .close => none

/-- The texts that wait for the pump, the oldest first. -/
def Link.queued (l : Link) : List String := l.commands.filterMap Command.text?

theorem filterMap_text?_map (texts : List String) :
    (texts.map Command.send).filterMap Command.text? = texts := by
  rw [List.filterMap_map]
  exact List.filterMap_some

/-- `l'` comes of `l` by queueing texts. -/
def Link.Adds (l l' : Link) : Prop :=
  ∃ texts : List String, l' = { l with commands := l.commands ++ texts.map .send }

namespace Link

section Adds

variable {l l' l'' : Link}

theorem Adds.refl (l : Link) : l.Adds l := by
  refine ⟨[], ?_⟩
  rw [List.map_nil, List.append_nil]

theorem Adds.trans (h : l.Adds l') (h' : l'.Adds l'') : l.Adds l'' := by
  obtain ⟨texts, rfl⟩ := h
  obtain ⟨texts', rfl⟩ := h'
  refine ⟨texts ++ texts', ?_⟩
  rw [List.map_append, List.append_assoc]

/-- Further texts wait behind the others. -/
theorem queued_append (l : Link) (texts : List String) :
    Link.queued { l with commands := l.commands ++ texts.map .send } = l.queued ++ texts := by
  rw [Link.queued, List.filterMap_append, filterMap_text?_map]
  rfl

theorem Adds.queued (h : l.Adds l') : ∃ texts, l'.queued = l.queued ++ texts := by
  obtain ⟨texts, rfl⟩ := h
  exact ⟨texts, l.queued_append texts⟩

end Adds

/-! ## Sending and closing -/

theorem eq_of_send {l l' : Link} {text : String} (h : l.send text = some l') :
    l' = { l with commands := l.commands ++ [.send text] } ∧ l.active = true := by
  rw [Link.send] at h
  split at h
  · rename_i hop
    exact ⟨(Option.some.inj h).symm, (Bool.and_eq_true_iff.mp hop).1⟩
  · cases h

theorem active_close (l : Link) : l.close.active = false := by
  rw [Link.close]
  split
  · split <;> rfl
  · rename_i h
    exact Bool.eq_false_iff.mpr h

theorem close_of_inactive {l : Link} (h : l.active = false) : l.close = l := by
  rw [Link.close, if_neg (by rw [h]; exact Bool.false_ne_true)]

theorem pumping_close (l : Link) : l.close.pumping = l.pumping := by
  rw [Link.close]
  split
  · split <;> rfl
  · rfl

theorem held_close (l : Link) : l.close.held = l.held := by
  rw [Link.close]
  split
  · split <;> rfl
  · rfl

/-- A close is no text. -/
theorem queued_close (l : Link) : l.close.queued = l.queued := by
  rw [Link.close]
  split
  · split
    · rw [Link.queued, List.filterMap_append]
      exact List.append_nil _
    · rfl
  · rfl

/-- Taking an event touches neither the commands nor the pump. -/
theorem commands_resume (l : Link) :
    l.resume.2.commands = l.commands ∧ l.resume.2.pumping = l.pumping := by
  rw [Link.resume]
  split <;> exact ⟨rfl, rfl⟩

/-! ## The moves of the pump -/

/-- **What one step of the pump can be**: the link and both pipes before and after it. -/
inductive Pumps (l : Link) (i o : Pipe) : Turn → Link → Pipe → Pipe → Prop where
  /-- A text goes out. -/
  | send {text : String} {rest : List Command} (commands : l.commands = .send text :: rest)
      (reading : o.reading = true) :
      Pumps l i o .outgoing { l with commands := rest } i (o.put (.frame (.text text)))
  /-- The transport refuses a text. -/
  | refuse {text : String} {rest : List Command} (commands : l.commands = .send text :: rest)
      (reading : o.reading = false) : Pumps l i o .outgoing l.announce.stop i.abandon o.finish
  /-- The link has been closed. -/
  | close {rest : List Command} (commands : l.commands = .close :: rest) :
      Pumps l i o .outgoing l.stop i.abandon o.finish
  /-- No caller is left. -/
  | release (commands : l.commands = []) (held : l.held = false) :
      Pumps l i o .outgoing l.stop i.abandon o.finish
  /-- A frame comes in. -/
  | arrive {f : Frame} {rest : List Delivery} (items : i.items = .frame f :: rest) :
      Pumps l i o .incoming (l.arrive f.toText) { i with items := rest } o
  /-- The transport fails. -/
  | fail {reason : String} {rest : List Delivery} (items : i.items = .failure reason :: rest) :
      Pumps l i o .incoming l.announce.stop i.abandon o.finish
  /-- The transport has ended. -/
  | finish (items : i.items = []) (writing : i.writing = false) :
      Pumps l i o .incoming l.announce.stop i.abandon o.finish

/-- **Every step of the pump is one of the moves.** -/
theorem pumps_of_pump {l l' : Link} {t : Turn} {i i' o o' : Pipe}
    (h : l.pump t i o = some (l', i', o')) : l.pumping = true ∧ l.Pumps i o t l' i' o' := by
  cases hp : l.pumping with
  | false => simp [pump, hp] at h
  | true =>
    refine ⟨rfl, ?_⟩
    unfold pump at h
    rw [if_pos hp] at h
    cases t with
    | outgoing =>
      simp only at h
      split at h
      · rename_i text rest hc
        split at h
        · rename_i hr
          cases h
          exact .send hc hr
        · rename_i hr
          cases h
          exact .refuse hc (Bool.eq_false_iff.mpr hr)
      · rename_i rest hc
        cases h
        exact .close hc
      · rename_i hc
        split at h
        · cases h
        · rename_i hheld
          cases h
          exact .release hc (Bool.eq_false_iff.mpr hheld)
    | incoming =>
      simp only at h
      split at h
      · rename_i f rest hi
        cases h
        exact .arrive hi
      · rename_i reason rest hi
        cases h
        exact .fail hi
      · rename_i hi
        split at h
        · cases h
        · rename_i hw
          cases h
          exact .finish hi (Bool.eq_false_iff.mpr hw)

section Moves

variable {l l' : Link} {i i' o o' : Pipe} {t : Turn}

theorem active_announce (l : Link) : l.announce.active = l.active := by
  rw [announce]
  split <;> rfl

theorem active_arrive (l : Link) (text : String) : (l.arrive text).active = l.active := by
  rw [arrive]
  split <;> rfl

/-- Behind the close of a link nothing is announced and nothing taken in. -/
theorem announce_of_inactive (h : l.active = false) : l.announce = l := by
  rw [announce, if_neg (by rw [h]; exact Bool.false_ne_true)]

theorem arrive_of_inactive (h : l.active = false) (text : String) : l.arrive text = l := by
  rw [arrive, if_neg (by rw [h]; exact Bool.false_ne_true)]

theorem Pumps.active_eq (hm : l.Pumps i o t l' i' o') : l'.active = l.active := by
  cases hm with
  | send commands reading => rfl
  | refuse commands reading => exact active_announce l
  | close commands => rfl
  | release commands held => rfl
  | arrive items => exact active_arrive l _
  | fail items => exact active_announce l
  | finish items writing => exact active_announce l

/-- A step of the pump takes the first text, or loses them all, or leaves them alone. -/
theorem Pumps.queued (hm : l.Pumps i o t l' i' o') : l'.queued <:+ l.queued := by
  cases hm with
  | @send text rest commands reading =>
    rw [Link.queued, Link.queued, commands]
    exact List.suffix_cons text _
  | @arrive f rest items =>
    rw [Link.arrive]
    split <;> exact List.suffix_rfl
  | _ => exact List.nil_suffix

theorem pumping_arrive (l : Link) (text : String) : (l.arrive text).pumping = l.pumping := by
  rw [arrive]
  split <;> rfl

/-- Taking in brings the pump nearer to its rest, whatever goes out meanwhile. -/
theorem Pumps.incoming_decreases (hm : l.Pumps i o .incoming l' i' o') (hp : l.pumping = true) :
    i'.items.length + l'.pumping.toNat < i.items.length + l.pumping.toNat := by
  cases hm with
  | @arrive f rest items =>
    rw [pumping_arrive, items, List.length_cons]
    show rest.length + _ < _
    omega
  | fail items =>
    rw [hp]
    exact Nat.succ_pos _
  | finish items writing =>
    rw [hp]
    exact Nat.succ_pos _

/-- A pump that has nothing to take in has emptied its pipe, and more may come. -/
theorem items_of_pump (hp : l.pumping = true) (h : l.pump .incoming i o = none) :
    i.items = [] ∧ i.writing = true := by
  rw [pump, if_pos hp] at h
  split at h
  · cases h
  · cases h
  · rename_i hitems
    split at h
    · rename_i hw
      exact ⟨hitems, hw⟩
    · cases h

/-- A pump that ends has left its pipe. -/
theorem Pumps.left (hm : l.Pumps i o t l' i' o') (hp : l.pumping = true) (hr : i.reading = true) :
    i'.reading = l'.pumping ∧ (l'.pumping = false → i'.items = []) := by
  have hstay : i.reading = l.pumping ∧ (l.pumping = false → i.items = []) :=
    ⟨hr.trans hp.symm, fun hstop => absurd (hstop.symm.trans hp) Bool.false_ne_true⟩
  cases hm with
  | send commands reading => exact hstay
  | @arrive f rest items =>
    rw [pumping_arrive]
    exact ⟨hstay.1, fun hstop => absurd (hstop.symm.trans hp) Bool.false_ne_true⟩
  | _ => exact ⟨rfl, fun _ => rfl⟩

end Moves

/-! ## The end is announced once -/

/-- The end is announced behind everything else, and by a pump that ends. -/
structure EndsOnce (l : Link) : Prop where
  open_of_pumping : l.pumping = true → .closed ∉ l.events
  closed_last : .closed ∉ l.events.dropLast

section EndsOnce

variable {l l' : Link} {i i' o o' : Pipe} {t : Turn}

/-- Behind an event that has been taken the rest of them is as before. -/
theorem EndsOnce.take {e : LinkEvent} {rest : List LinkEvent} (h : l.EndsOnce)
    (he : l.events = e :: rest) : { l with events := rest }.EndsOnce where
  open_of_pumping hp hmem := by
    refine h.open_of_pumping hp ?_
    rw [he]
    exact List.mem_cons_of_mem e hmem
  closed_last hmem := by
    refine h.closed_last ?_
    cases rest with
    | nil => cases hmem
    | cons e' rest =>
      rw [he, List.dropLast_cons_of_ne_nil (List.cons_ne_nil _ _)]
      exact List.mem_cons_of_mem e hmem

/-- The end is the last event, and the pump has ended. -/
theorem EndsOnce.end {rest : List LinkEvent} (h : l.EndsOnce) (he : l.events = .closed :: rest) :
    rest = [] ∧ l.pumping = false := by
  constructor
  · cases rest with
    | nil => rfl
    | cons e rest =>
      refine absurd ?_ h.closed_last
      rw [he, List.dropLast_cons_of_ne_nil (List.cons_ne_nil _ _)]
      exact List.mem_cons_self
  · refine Bool.eq_false_iff.mpr fun hp => h.open_of_pumping hp ?_
    rw [he]
    exact List.mem_cons_self

/-- A pump that ends may announce it. -/
theorem EndsOnce.announce (h : l.EndsOnce) (hp : l.pumping = true) : l.announce.stop.EndsOnce := by
  refine ⟨fun hs => absurd hs Bool.false_ne_true, ?_⟩
  show _ ∉ l.announce.events.dropLast
  rw [Link.announce]
  split
  · rw [List.dropLast_concat]
    exact h.open_of_pumping hp
  · exact h.closed_last

theorem EndsOnce.stop (h : l.EndsOnce) : l.stop.EndsOnce :=
  ⟨fun hs => absurd hs Bool.false_ne_true, h.closed_last⟩

/-- A text that comes in is not the end. -/
theorem EndsOnce.arrive (h : l.EndsOnce) (hp : l.pumping = true) (text : String) :
    (l.arrive text).EndsOnce := by
  have hopen := h.open_of_pumping hp
  rw [Link.arrive]
  split
  · refine ⟨fun _ hmem => ?_, ?_⟩
    · exact (List.mem_append.mp hmem).elim hopen (by simp)
    · rw [List.dropLast_concat]
      exact hopen
  · exact h

/-- **A move of the pump** announces the end at most once, and last. -/
theorem EndsOnce.move (h : l.EndsOnce) (hp : l.pumping = true) (hm : l.Pumps i o t l' i' o') :
    l'.EndsOnce := by
  cases hm with
  | send commands reading => exact ⟨h.open_of_pumping, h.closed_last⟩
  | refuse commands reading => exact h.announce hp
  | close commands => exact h.stop
  | release commands held => exact h.stop
  | arrive items => exact h.arrive hp _
  | fail items => exact h.announce hp
  | finish items writing => exact h.announce hp

end EndsOnce

end Link

end SessionMux
