/-!
# Subscribers

An ordered list of callbacks. Every subscription gets an id of its own, counted from 1, under which
the callback can be taken out again; an id that has been given out is not given out again.
-/

namespace SessionMux

/-- Names one subscription in its list. -/
structure SubscriptionId where
  value : UInt64
deriving DecidableEq

/-- Callbacks in the order of their subscriptions. -/
structure Subscribers (γ : Type) where
  nextId : UInt64 := 1
  entries : List (SubscriptionId × γ) := []

namespace Subscribers

variable {γ : Type}

/-- The ids in the list, in order. -/
def ids (s : Subscribers γ) : List SubscriptionId := s.entries.map Prod.fst

/-- How many callbacks there are. -/
def size (s : Subscribers γ) : Nat := s.entries.length

/-- Adds a callback behind all others. -/
def subscribe (s : Subscribers γ) (callback : γ) : SubscriptionId × Subscribers γ :=
  (⟨s.nextId⟩, { nextId := s.nextId + 1, entries := s.entries ++ [(⟨s.nextId⟩, callback)] })

/-- Takes out the subscription of an id, and says whether it was there. -/
def unsubscribe (s : Subscribers γ) (id : SubscriptionId) : Bool × Subscribers γ :=
  (s.ids.contains id, { s with entries := s.entries.filter fun e => e.1 != id })

/-- It is reported as there exactly when it was there. -/
theorem unsubscribe_fst {s : Subscribers γ} {id : SubscriptionId} :
    (s.unsubscribe id).1 = true ↔ id ∈ s.ids := by
  simp [unsubscribe]

end Subscribers

end SessionMux
