import SessionMux.Hub.Basic

/-!
# The chronicle of lists of subscribers

Callbacks are programs that may act on the very lists that are being served, and may serve them
themselves. What happens then is told by a chronicle: one entry for each subscription, each one that is
taken out, and the beginning, the calls and the end of each dispatch, also of those that callbacks make.
Each entry comes with the lists as they are right after it.

The chronicle decides nothing: what it tells of is what a scene does that keeps none.

* `Incident`, `Moment`, `Chronicle` — what can happen, an entry, and a scene with its entries.
* `Reaction.narrate`, `Chronicle.dispatch`, `Chronicle.dispatchNested` — reactions and dispatches that are
  written down.
* `Order`, `Chronicle.run` — what is done from outside, and a run of it.
* **`scene_run`** — a run that is written down is a run.
-/

namespace SessionMux

/-- What happens to lists of subscribers. Dispatches are numbered as they begin. -/
inductive Incident (κ γ : Type) where
  | subscribed (topic : κ) (id : SubscriptionId) (callback : γ)
  | unsubscribed (topic : κ) (id : SubscriptionId) (found : Bool)
  | began (number : Nat) (topic : κ)
  /-- A subscriber is called in a dispatch. -/
  | called (number : Nat) (topic : κ) (id : SubscriptionId) (callback : γ)
  /-- A dispatch ends, and answers with a number of subscribers. -/
  | ended (number : Nat) (count : Nat)

/-- The dispatch that an incident belongs to. -/
def Incident.number? {κ γ : Type} : Incident κ γ → Option Nat
  | .began number _ | .called number _ _ _ | .ended number _ => some number
  | _ => none

/-- An incident, and the lists right after it. -/
structure Moment (κ γ : Type) where
  incident : Incident κ γ
  topics : Topics κ γ

/-- So many dispatches have begun. -/
def dispatches {κ γ : Type} (log : List (Moment κ γ)) : Nat :=
  log.countP fun m => m.incident matches .began ..

/-- A call as a scene keeps it. -/
def Moment.call? {κ γ : Type} (m : Moment κ γ) : Option (κ × SubscriptionId) :=
  match m.incident with
  | .called _ topic id _ => some (topic, id)
  | _ => none

/-- Lists of subscribers, what is around them, and what has happened to them, the latest last. -/
structure Chronicle (κ γ σ : Type) where
  topics : Topics κ γ
  surroundings : σ
  log : List (Moment κ γ) := []

variable {κ α ε ω δ σ : Type}

namespace Chronicle

variable {γ : Type}

/-- At the start there are no subscribers. -/
def start (surroundings : σ) : Chronicle κ γ σ := { topics := .empty, surroundings := surroundings }

/-- Something has happened, and the lists are what they are now. -/
def note (c : Chronicle κ γ σ) (i : Incident κ γ) : Chronicle κ γ σ :=
  { c with log := c.log ++ [⟨i, c.topics⟩] }

/-- The scene that is told of. -/
def scene (c : Chronicle κ γ σ) : Scene κ γ σ where
  topics := c.topics
  surroundings := c.surroundings
  calls := c.log.filterMap Moment.call?

variable [DecidableEq κ]

/-- Subscribes a callback to a topic. -/
def subscribe (c : Chronicle κ γ σ) (topic : κ) (callback : γ) : SubscriptionId × Chronicle κ γ σ :=
  let (id, list) := (c.topics topic).subscribe callback
  (id, { c with topics := c.topics.set topic list }.note (.subscribed topic id callback))

/-- Takes a subscription out of its topic, and says whether it was there. -/
def unsubscribe (c : Chronicle κ γ σ) (topic : κ) (id : SubscriptionId) : Bool × Chronicle κ γ σ :=
  let (found, list) := (c.topics topic).unsubscribe id
  (found, { c with topics := c.topics.set topic list }.note (.unsubscribed topic id found))

end Chronicle

variable [DecidableEq κ]

/-- Runs a reaction, and writes down what happens. -/
def Reaction.narrate (perform : ε → σ → ω × σ)
    (redispatch : δ → Chronicle κ (Callback κ α ε ω δ) σ → Nat × Chronicle κ (Callback κ α ε ω δ) σ) :
    Reaction κ α ε ω δ → Chronicle κ (Callback κ α ε ω δ) σ → Chronicle κ (Callback κ α ε ω δ) σ
  | .done, c => c
  | .subscribe topic callback next, c =>
    let (id, c) := c.subscribe topic callback
    (next id).narrate perform redispatch c
  | .unsubscribe topic id next, c =>
    let (found, c) := c.unsubscribe topic id
    (next found).narrate perform redispatch c
  | .dispatch event next, c =>
    let (count, c) := redispatch event c
    (next count).narrate perform redispatch c
  | .act effect next, c =>
    let (answer, rest) := perform effect c.surroundings
    (next answer).narrate perform redispatch { c with surroundings := rest }

/-- What is done to lists of subscribers from outside. -/
inductive Order (κ α ε ω δ σ : Type) where
  | subscribe (topic : κ) (callback : Callback κ α ε ω δ)
  | unsubscribe (topic : κ) (id : SubscriptionId)
  | dispatch (topic : κ) (event : α)
  /-- Something changes the surroundings. -/
  | turn (f : σ → σ)

namespace Chronicle

/-- Calls one subscriber in a dispatch. -/
def call (perform : ε → σ → ω × σ)
    (redispatch : δ → Chronicle κ (Callback κ α ε ω δ) σ → Nat × Chronicle κ (Callback κ α ε ω δ) σ)
    (number : Nat) (topic : κ) (event : α) (c : Chronicle κ (Callback κ α ε ω δ) σ)
    (subscriber : SubscriptionId × Callback κ α ε ω δ) : Chronicle κ (Callback κ α ε ω δ) σ :=
  (subscriber.2 event).narrate perform redispatch
    (c.note (.called number topic subscriber.1 subscriber.2))

/-- Serves an event, and writes down what happens. -/
def dispatch (perform : ε → σ → ω × σ)
    (redispatch : δ → Chronicle κ (Callback κ α ε ω δ) σ → Nat × Chronicle κ (Callback κ α ε ω δ) σ)
    (topic : κ) (event : α) (c : Chronicle κ (Callback κ α ε ω δ) σ) :
    Nat × Chronicle κ (Callback κ α ε ω δ) σ :=
  let list := (c.topics topic).entries
  let number := dispatches c.log
  let served := list.foldl (call perform redispatch number topic event) (c.note (.began number topic))
  (list.length, served.note (.ended number list.length))

/-- Serves an event where reactions dispatch in turn, to a given depth. -/
def dispatchNested (perform : ε → σ → ω × σ) (route : δ → κ × α) :
    (depth : Nat) → (topic : κ) → (event : α) → Chronicle κ (Callback κ α ε ω δ) σ →
      Nat × Chronicle κ (Callback κ α ε ω δ) σ
  | 0, topic, event, c => dispatch perform (fun _ c => (0, c)) topic event c
  | depth + 1, topic, event, c =>
    dispatch perform (fun d c => dispatchNested perform route depth (route d).1 (route d).2 c)
      topic event c

/-- Does what is ordered. -/
def obey (perform : ε → σ → ω × σ) (route : δ → κ × α) (depth : Nat)
    (c : Chronicle κ (Callback κ α ε ω δ) σ) :
    Order κ α ε ω δ σ → Chronicle κ (Callback κ α ε ω δ) σ
  | .subscribe topic callback => (c.subscribe topic callback).2
  | .unsubscribe topic id => (c.unsubscribe topic id).2
  | .dispatch topic event => (c.dispatchNested perform route depth topic event).2
  | .turn f => { c with surroundings := f c.surroundings }

/-- Does one thing after another. -/
def run (perform : ε → σ → ω × σ) (route : δ → κ × α) (depth : Nat)
    (c : Chronicle κ (Callback κ α ε ω δ) σ) (orders : List (Order κ α ε ω δ σ)) :
    Chronicle κ (Callback κ α ε ω δ) σ := orders.foldl (obey perform route depth) c

end Chronicle

namespace Scene

/-- Does what is ordered. -/
def obey (perform : ε → σ → ω × σ) (route : δ → κ × α) (depth : Nat)
    (s : Scene κ (Callback κ α ε ω δ) σ) : Order κ α ε ω δ σ → Scene κ (Callback κ α ε ω δ) σ
  | .subscribe topic callback =>
    { s with topics := s.topics.set topic ((s.topics topic).subscribe callback).2 }
  | .unsubscribe topic id =>
    { s with topics := s.topics.set topic ((s.topics topic).unsubscribe id).2 }
  | .dispatch topic event => (s.dispatchNested perform route depth topic event).2
  | .turn f => { s with surroundings := f s.surroundings }

/-- Does one thing after another. -/
def run (perform : ε → σ → ω × σ) (route : δ → κ × α) (depth : Nat)
    (s : Scene κ (Callback κ α ε ω δ) σ) (orders : List (Order κ α ε ω δ σ)) :
    Scene κ (Callback κ α ε ω δ) σ := orders.foldl (obey perform route depth) s

end Scene

/-! ## A chronicle tells of its scene -/

namespace Chronicle

section Scene

variable {γ : Type}

omit [DecidableEq κ] in
/-- What is noted changes the scene only if it is a call. -/
theorem scene_note {c : Chronicle κ γ σ} {i : Incident κ γ}
    (hi : (Moment.mk i c.topics).call? = none) : (c.note i).scene = c.scene := by
  simp [scene, note, List.filterMap_append, hi]

theorem scene_subscribe (c : Chronicle κ γ σ) (topic : κ) (callback : γ) :
    (c.subscribe topic callback).2.scene = { c.scene with
      topics := c.topics.set topic ((c.topics topic).subscribe callback).2 } :=
  scene_note rfl

theorem scene_unsubscribe (c : Chronicle κ γ σ) (topic : κ) (id : SubscriptionId) :
    (c.unsubscribe topic id).2.scene = { c.scene with
      topics := c.topics.set topic ((c.topics topic).unsubscribe id).2 } :=
  scene_note rfl

end Scene

variable {perform : ε → σ → ω × σ}
  {redispatch : δ → Chronicle κ (Callback κ α ε ω δ) σ → Nat × Chronicle κ (Callback κ α ε ω δ) σ}
  {redispatch' : δ → Scene κ (Callback κ α ε ω δ) σ → Nat × Scene κ (Callback κ α ε ω δ) σ}

/-- Two ways to dispatch from within agree: one of them writes down what happens. -/
def Tells (redispatch : δ → Chronicle κ (Callback κ α ε ω δ) σ →
      Nat × Chronicle κ (Callback κ α ε ω δ) σ)
    (redispatch' : δ → Scene κ (Callback κ α ε ω δ) σ → Nat × Scene κ (Callback κ α ε ω δ) σ) : Prop :=
  ∀ d c, (redispatch' d c.scene).1 = (redispatch d c).1 ∧
    (redispatch' d c.scene).2 = (redispatch d c).2.scene

theorem scene_narrate (h : Tells redispatch redispatch') (r : Reaction κ α ε ω δ)
    (c : Chronicle κ (Callback κ α ε ω δ) σ) :
    (r.narrate perform redispatch c).scene = r.run perform redispatch' c.scene := by
  induction r generalizing c with
  | done => rfl
  | subscribe topic callback next _ ih =>
    simp only [Reaction.narrate, Reaction.run]
    rw [ih, scene_subscribe]
    rfl
  | unsubscribe topic id next ih =>
    simp only [Reaction.narrate, Reaction.run]
    rw [ih, scene_unsubscribe]
    rfl
  | dispatch event next ih =>
    simp only [Reaction.narrate, Reaction.run]
    rw [ih, (h event c).1, (h event c).2]
  | act effect next ih => exact ih _ _

theorem scene_call (h : Tells redispatch redispatch') (number : Nat) (topic : κ) (event : α)
    (c : Chronicle κ (Callback κ α ε ω δ) σ) (p : SubscriptionId × Callback κ α ε ω δ) :
    (c.call perform redispatch number topic event p).scene =
      c.scene.call perform redispatch' topic event p := by
  rw [call, scene_narrate h, Scene.call]
  simp [scene, note, List.filterMap_append, Moment.call?]

theorem scene_dispatch (h : Tells redispatch redispatch') (topic : κ) (event : α)
    (c : Chronicle κ (Callback κ α ε ω δ) σ) :
    (c.scene.dispatch perform redispatch' topic event).1 =
        (c.dispatch perform redispatch topic event).1 ∧
      (c.scene.dispatch perform redispatch' topic event).2 =
        (c.dispatch perform redispatch topic event).2.scene := by
  have hcalls : ∀ (l : List (SubscriptionId × Callback κ α ε ω δ)) (number : Nat)
      (c : Chronicle κ (Callback κ α ε ω δ) σ),
      (l.foldl (call perform redispatch number topic event) c).scene =
        l.foldl (Scene.call perform redispatch' topic event) c.scene := by
    intro l number
    induction l with
    | nil => exact fun _ => rfl
    | cons p l ih =>
      intro c
      rw [List.foldl_cons, List.foldl_cons, ih, scene_call h]
  refine ⟨rfl, ?_⟩
  simp only [dispatch, Scene.dispatch]
  rw [scene_note rfl, hcalls, scene_note rfl]
  rfl

theorem scene_dispatchNested (route : δ → κ × α) (depth : Nat) (topic : κ) (event : α)
    (c : Chronicle κ (Callback κ α ε ω δ) σ) :
    (c.scene.dispatchNested perform route depth topic event).1 =
        (c.dispatchNested perform route depth topic event).1 ∧
      (c.scene.dispatchNested perform route depth topic event).2 =
        (c.dispatchNested perform route depth topic event).2.scene := by
  induction depth generalizing topic event c with
  | zero => exact scene_dispatch (fun _ _ => ⟨rfl, rfl⟩) topic event c
  | succ depth ih => exact scene_dispatch (fun d c => ih (route d).1 (route d).2 c) topic event c

theorem scene_obey (route : δ → κ × α) (depth : Nat) (c : Chronicle κ (Callback κ α ε ω δ) σ)
    (o : Order κ α ε ω δ σ) :
    (c.obey perform route depth o).scene = c.scene.obey perform route depth o := by
  cases o with
  | subscribe topic callback => exact scene_subscribe c topic callback
  | unsubscribe topic id => exact scene_unsubscribe c topic id
  | dispatch topic event => exact (scene_dispatchNested route depth topic event c).2.symm
  | turn f => rfl

/-- **A run that is written down is a run.** -/
theorem scene_run (route : δ → κ × α) (depth : Nat) (c : Chronicle κ (Callback κ α ε ω δ) σ)
    (orders : List (Order κ α ε ω δ σ)) :
    (c.run perform route depth orders).scene = c.scene.run perform route depth orders := by
  induction orders generalizing c with
  | nil => rfl
  | cons o orders ih =>
    rw [run, List.foldl_cons]
    exact (ih _).trans (congrArg (Scene.run perform route depth · orders) (scene_obey route depth c o))

end Chronicle

/-! ## The lists of a hub -/

/-- **Publishing a hook is a dispatch** to the list of its kind, where callbacks cannot dispatch. -/
theorem Hub.publish_eq_obey {τ : Type} (h : Hub τ) (e : HookEvent) :
    (h.publish e).2 =
      let s := Scene.obey Outbox.perform Empty.elim 0 { topics := h.topics, surroundings := h.outbox }
        (.dispatch e.hook.kind e)
      { h with topics := s.topics, outbox := s.surroundings } := by
  have hnone : (fun (_ : Empty) (s : Scene HookKind (HubCallback τ) (Outbox τ)) => (0, s)) =
      fun d _ => d.elim := by
    funext d
    exact d.elim
  simp only [Scene.obey, Scene.dispatchNested, hnone]
  rfl

end SessionMux
