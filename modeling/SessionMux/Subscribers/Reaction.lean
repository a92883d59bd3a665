import SessionMux.Subscribers.Basic

/-!
# Reactions

What a callback does when it is called: a program whose acts may change the very lists of
subscribers that are being served. There is one list for each topic. A reaction can subscribe and
unsubscribe, dispatch a further event, and act on its surroundings; what it does next may depend on
the answer to each act.

Serving an event works on the list as it was when the dispatch began: subscriptions that come or go
meanwhile count from the next dispatch on. `Scene.dispatch` serves one event, and
`Scene.dispatchNested` lets reactions dispatch in turn, to a given depth.

* **`dispatch_fst`** — a dispatch answers with the number of callbacks subscribed when it began,
  whatever they do.
-/

namespace SessionMux

/-- A program of acts. `τ` are the topics, `α` the events that callbacks are called with, `ε` the
acts on the surroundings, `ω` their answers and `δ` what can be dispatched from within. -/
inductive Reaction (τ α ε ω δ : Type) where
  | done
  /-- Subscribe a callback to a topic. -/
  | subscribe (topic : τ) (callback : α → Reaction τ α ε ω δ)
      (next : SubscriptionId → Reaction τ α ε ω δ)
  /-- Take a subscription out of its topic; the answer says whether it was there. -/
  | unsubscribe (topic : τ) (id : SubscriptionId) (next : Bool → Reaction τ α ε ω δ)
  /-- Dispatch a further event; the answer is the number of callbacks called. -/
  | dispatch (event : δ) (next : Nat → Reaction τ α ε ω δ)
  /-- Act on the surroundings. -/
  | act (effect : ε) (next : ω → Reaction τ α ε ω δ)

instance {τ α ε ω δ : Type} : Inhabited (Reaction τ α ε ω δ) := ⟨.done⟩

/-- A callback answers an event by a reaction. -/
abbrev Callback (τ α ε ω δ : Type) : Type := α → Reaction τ α ε ω δ

/-- A list of subscribers for each topic. -/
abbrev Topics (τ γ : Type) : Type := τ → Subscribers γ

/-- No topic has a subscriber. -/
def Topics.empty {τ γ : Type} : Topics τ γ := fun _ => {}

/-- Replaces the list of one topic. -/
def Topics.set {τ γ : Type} [DecidableEq τ] (t : Topics τ γ) (topic : τ) (s : Subscribers γ) :
    Topics τ γ :=
  fun k => if k = topic then s else t k

@[simp]
theorem Topics.set_self {τ γ : Type} [DecidableEq τ] (t : Topics τ γ) (topic : τ)
    (s : Subscribers γ) : t.set topic s topic = s := if_pos rfl

theorem Topics.set_of_ne {τ γ : Type} [DecidableEq τ] {topic other : τ} (h : other ≠ topic)
    (t : Topics τ γ) (s : Subscribers γ) : t.set other s topic = t topic := if_neg h.symm

/-- Where callbacks run: the lists, the surroundings, and the calls made so far, in order. -/
structure Scene (τ γ σ : Type) where
  topics : Topics τ γ
  surroundings : σ
  calls : List (τ × SubscriptionId) := []

variable {τ α ε ω δ σ : Type} [DecidableEq τ]

/-- Runs a reaction. `perform` does acts on the surroundings, `redispatch` serves the events that
are dispatched from within. -/
def Reaction.run (perform : ε → σ → ω × σ)
    (redispatch : δ → Scene τ (Callback τ α ε ω δ) σ → Nat × Scene τ (Callback τ α ε ω δ) σ) :
    Reaction τ α ε ω δ → Scene τ (Callback τ α ε ω δ) σ → Scene τ (Callback τ α ε ω δ) σ
  | .done, s => s
  | .subscribe topic callback next, s =>
    let (id, list) := (s.topics topic).subscribe callback
    (next id).run perform redispatch { s with topics := s.topics.set topic list }
  | .unsubscribe topic id next, s =>
    let (found, list) := (s.topics topic).unsubscribe id
    (next found).run perform redispatch { s with topics := s.topics.set topic list }
  | .dispatch event next, s =>
    let (count, s) := redispatch event s
    (next count).run perform redispatch s
  | .act effect next, s =>
    let (answer, rest) := perform effect s.surroundings
    (next answer).run perform redispatch { s with surroundings := rest }

namespace Scene

/-- Calls one subscriber. -/
def call (perform : ε → σ → ω × σ)
    (redispatch : δ → Scene τ (Callback τ α ε ω δ) σ → Nat × Scene τ (Callback τ α ε ω δ) σ)
    (topic : τ) (event : α) (s : Scene τ (Callback τ α ε ω δ) σ)
    (subscriber : SubscriptionId × Callback τ α ε ω δ) : Scene τ (Callback τ α ε ω δ) σ :=
  (subscriber.2 event).run perform redispatch
    { s with calls := s.calls ++ [(topic, subscriber.1)] }

/-- Serves an event: calls, in order, everyone who is subscribed to the topic now. -/
def dispatch (perform : ε → σ → ω × σ)
    (redispatch : δ → Scene τ (Callback τ α ε ω δ) σ → Nat × Scene τ (Callback τ α ε ω δ) σ)
    (topic : τ) (event : α) (s : Scene τ (Callback τ α ε ω δ) σ) :
    Nat × Scene τ (Callback τ α ε ω δ) σ :=
  let list := (s.topics topic).entries
  (list.length, list.foldl (call perform redispatch topic event) s)

/-- Serves an event where reactions dispatch in turn. `route` finds the topic and the event of what
is dispatched from within; below `depth` such dispatches it reaches nobody any more. -/
def dispatchNested (perform : ε → σ → ω × σ) (route : δ → τ × α) :
    (depth : Nat) → (topic : τ) → (event : α) → Scene τ (Callback τ α ε ω δ) σ →
      Nat × Scene τ (Callback τ α ε ω δ) σ
  | 0, topic, event, s => dispatch perform (fun _ s => (0, s)) topic event s
  | depth + 1, topic, event, s =>
    dispatch perform (fun d s => dispatchNested perform route depth (route d).1 (route d).2 s)
      topic event s

/-- What every act on the surroundings keeps, a reaction keeps. -/
theorem surroundings_run {perform : ε → σ → ω × σ}
    {redispatch : δ → Scene τ (Callback τ α ε ω δ) σ → Nat × Scene τ (Callback τ α ε ω δ) σ}
    (P : σ → Prop) (hp : ∀ e s, P s → P (perform e s).2)
    (hd : ∀ d s, P s.surroundings → P (redispatch d s).2.surroundings)
    (r : Reaction τ α ε ω δ) (s : Scene τ (Callback τ α ε ω δ) σ) (hs : P s.surroundings) :
    P (r.run perform redispatch s).surroundings := by
  induction r generalizing s with
  | done => exact hs
  | subscribe topic callback next _ ih => exact ih _ _ hs
  | unsubscribe topic id next ih => exact ih _ _ hs
  | dispatch event next ih => exact ih _ _ (hd _ _ hs)
  | act effect next ih => exact ih _ _ (hp _ _ hs)

/-- What every act on the surroundings keeps, a dispatch keeps. -/
theorem surroundings_dispatch {perform : ε → σ → ω × σ}
    {redispatch : δ → Scene τ (Callback τ α ε ω δ) σ → Nat × Scene τ (Callback τ α ε ω δ) σ}
    (P : σ → Prop) (hp : ∀ e s, P s → P (perform e s).2)
    (hd : ∀ d s, P s.surroundings → P (redispatch d s).2.surroundings)
    (topic : τ) (event : α) (s : Scene τ (Callback τ α ε ω δ) σ) (hs : P s.surroundings) :
    P (dispatch perform redispatch topic event s).2.surroundings := by
  simp only [dispatch]
  generalize (s.topics topic).entries = list
  induction list generalizing s with
  | nil => exact hs
  | cons c rest ih => exact ih _ (surroundings_run P hp hd _ _ hs)

/-- The answer counts the subscribers at the start, whatever the callbacks do. -/
theorem dispatch_fst (perform : ε → σ → ω × σ)
    (redispatch : δ → Scene τ (Callback τ α ε ω δ) σ → Nat × Scene τ (Callback τ α ε ω δ) σ)
    (topic : τ) (event : α) (s : Scene τ (Callback τ α ε ω δ) σ) :
    (dispatch perform redispatch topic event s).1 = (s.topics topic).size := rfl

end Scene

end SessionMux
