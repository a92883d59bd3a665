import SessionMux.Hub.Basic

/-!
# The inbound task at work

`Hub.run` lets the inbound task work until it has to wait. It comes to an end because each step
uses up an event of the link, or an envelope that is ready, or brings the task nearer to the next
place where it waits; delivering a message, whatever the callbacks do, brings nothing new to take.

* **`step?_decreases`** — each step brings the task nearer to the place where it waits.
* **`step?_run`** — when a run is over, the task waits.
-/

namespace SessionMux

/-- How far the inbound task is at most from the next place where it waits or takes an envelope. -/
def InboundPhase.rank : InboundPhase → Nat
  | .decoding .. => 6
  | .holding _ => 5
  | .fetching => 4
  | .receiving => 3
  | .leaving => 2
  | .closing => 1
  | .ended => 0

theorem Outbox.events_perform {τ : Type} (a : HubAct τ) (b : Outbox τ) :
    (Outbox.perform a b).2.link.events = b.link.events := by
  cases a with
  | close => exact Link.events_close b.link
  | send session r => exact Outbox.events_send b session r
  | own f => rfl

namespace Hub

variable {τ : Type}

theorem events_publish (h : Hub τ) (e : HookEvent) :
    (h.publish e).2.outbox.link.events = h.outbox.link.events := by
  have key : (Scene.dispatch Outbox.perform (fun (d : Empty) _ => d.elim) e.hook.kind e
      { topics := h.topics, surroundings := h.outbox }).2.surroundings.link.events =
        h.outbox.link.events :=
    Scene.surroundings_dispatch (fun b : Outbox τ => b.link.events = h.outbox.link.events)
      (fun a b hb => (Outbox.events_perform a b).trans hb) (fun d => Empty.elim d) _ _ _ rfl
  exact key

theorem inlet_publish (h : Hub τ) (e : HookEvent) : (h.publish e).2.inlet = h.inlet := rfl

/-- Delivering a message takes no event of the link. -/
theorem events_deliver (h : Hub τ) (m : InboundMessage) :
    (h.deliver m).2.outbox.link.events = h.outbox.link.events := by
  unfold deliver
  split
  simp only
  split
  · rfl
  · split
    · exact events_publish _ _
    · rfl

/-- Delivering a message takes no envelope. -/
theorem inlet_deliver (h : Hub τ) (m : InboundMessage) : (h.deliver m).2.inlet = h.inlet := by
  unfold deliver
  split
  simp only
  split
  · rfl
  · split
    · exact inlet_publish _ _
    · rfl

/-- How far the task is from the end of what it can take: events of the link, then envelopes and
steps. -/
def toDo (h : Hub τ) : Nat × Nat :=
  (h.outbox.link.events.length, 8 * h.inlet.ready.length + h.phase.rank)

theorem step?_decreases {h h' : Hub τ} {now : Nat} {n : List Notice}
    (hs : h.step? now = some (n, h')) :
    Prod.Lex (· < ·) (· < ·) h'.toDo h.toDo := by
  unfold step? at hs
  split at hs
  · rename_i hp
    split at hs
    · rename_i hr
      cases hs
      exact Prod.Lex.right _ (by simp [hp, hr, InboundPhase.rank]; omega)
    · rename_i hr
      cases hs
      refine Prod.Lex.right _ ?_
      cases h.isActive <;> simp [hp, hr, InboundPhase.rank]
  · rename_i hp
    have ended : ∀ {l : Link} {r : Received}, h.outbox.link.resume = (r, l) →
        l.events.length ≤ h.outbox.link.events.length := by
      intro l r hl
      unfold Link.resume at hl
      split at hl
      · rename_i he
        cases hl
        simp [he]
      · cases hl
        exact Nat.le_refl _
    have leave : ∀ {l : Link} {r : Received}, h.outbox.link.resume = (r, l) →
        Prod.Lex (· < ·) (· < ·)
          (toDo { h with outbox := { h.outbox with link := l }, phase := .leaving }) h.toDo := by
      intro l r hl
      rcases Nat.lt_or_eq_of_le (ended hl) with hlt | heq
      · exact Prod.Lex.left _ _ hlt
      · simp only [toDo, heq, hp]
        exact Prod.Lex.right _ (by simp [InboundPhase.rank])
    split at hs
    · rename_i hl
      cases hs
      exact Prod.Lex.left _ _ (Link.length_resume hl)
    · rename_i hl
      cases hs
      exact leave hl
    · rename_i hl
      cases hs
      exact leave hl
    · cases hs
  · rename_i hp
    split at hs
    · cases hs
      exact Prod.Lex.right _ (by simp [hp, InboundPhase.rank])
    · cases hs
  · rename_i hp
    cases hs
    exact Prod.Lex.right _ (by simp [hp, InboundPhase.rank])
  · rename_i m hp
    split at hs
    · have he := events_deliver h m
      have hi := inlet_deliver h m
      generalize h.deliver m = d at hs he hi
      cases hs
      simp only [toDo, he, hi, hp]
      exact Prod.Lex.right _ (by simp [InboundPhase.rank])
    · cases hs
      exact Prod.Lex.right _ (by simp [hp, InboundPhase.rank])
  · rename_i hp
    cases hs
    exact Prod.Lex.right _ (by simp [hp, InboundPhase.rank])
  · rename_i hp
    cases hs
    exact Prod.Lex.right _ (by simp [hp, InboundPhase.rank])
  · cases hs

/-- Lets the inbound task work at the moment `now` until it has to wait. -/
def run (h : Hub τ) (now : Nat) : List Notice × Hub τ :=
  match _h : h.step? now with
  | some (n, h') =>
    let (more, h'') := run h' now
    (n ++ more, h'')
  | none => ([], h)
termination_by h.toDo
decreasing_by exact step?_decreases _h

/-- When a run of the inbound task is over, the task waits. -/
theorem step?_run (h : Hub τ) (now : Nat) : (h.run now).2.step? now = none := by
  fun_induction run h now with
  | case1 _ _ _ _ _ _ hm ih => rw [hm] at ih; exact ih
  | case2 _ h => exact h

end Hub

end SessionMux
