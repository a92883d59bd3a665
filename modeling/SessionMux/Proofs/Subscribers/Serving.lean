import SessionMux.Proofs.Subscribers.Chronicle

/-!
# How lists of subscribers are kept

Who is registered on a topic can be read off what has happened: everyone who has subscribed to it and has
not been taken out since, in the order of the subscriptions. The lists agree with this at every moment,
also in the middle of a dispatch; and a dispatch calls those who are registered when it begins, whatever
they do to the lists meanwhile.

A moment is judged by what was before it and what comes after it. What comes after the beginning of a
dispatch holds the calls of the dispatch among those of others, which callbacks began; these have later
numbers, so that the two are told apart.

* `subscriptions`, `registered`, `callsIn` — what is read off a chronicle.
* `Incident.Lawful`, `Moment.Lawful` — what holds of an incident and of a moment.
* `Continues` — what holds of what follows a chronicle.
* **`proceeds_narrate`**, **`proceeds_dispatch`** — reactions and dispatches keep to it, to any depth.
* **`proceeds_run`** — so does whatever is done to the lists, inside of callbacks and outside.
-/

namespace SessionMux

/-- The id of a subscription that is made behind so many others. -/
def SubscriptionId.behind (others : Nat) : SubscriptionId := ⟨UInt64.ofNat (others + 1)⟩

theorem SubscriptionId.behind_succ (n : Nat) :
    SubscriptionId.behind (n + 1) = ⟨(SubscriptionId.behind n).value + 1⟩ := by
  simp [SubscriptionId.behind, UInt64.ofNat_add]

section Log

variable {κ γ : Type}

/-! ## What is read off a chronicle -/

/-- The call that is made at a moment, if it is one of a dispatch. -/
def Moment.callIn? (number : Nat) (m : Moment κ γ) : Option (SubscriptionId × γ) :=
  match m.incident with
  | .called n _ id callback => if n = number then some (id, callback) else none
  | _ => none

/-- Who is called in a dispatch, in order. -/
def callsIn (number : Nat) (log : List (Moment κ γ)) : List (SubscriptionId × γ) :=
  log.filterMap (Moment.callIn? number)

theorem callsIn_append (number : Nat) (l l' : List (Moment κ γ)) :
    callsIn number (l ++ l') = callsIn number l ++ callsIn number l' := List.filterMap_append

theorem callsIn_eq_nil {number : Nat} {l : List (Moment κ γ)}
    (h : ∀ m ∈ l, m.incident.number? ≠ some number) : callsIn number l = [] := by
  apply List.filterMap_eq_nil_iff.mpr
  intro m hm
  have hnot := h m hm
  unfold Moment.callIn?
  split
  · rename_i n t id callback heq
    rw [heq] at hnot
    exact if_neg fun hn => hnot (congrArg some hn)
  · rfl

theorem dispatches_append (l l' : List (Moment κ γ)) :
    dispatches (l ++ l') = dispatches l + dispatches l' := List.countP_append

theorem dispatches_concat_began (l : List (Moment κ γ)) (n : Nat) (t : κ) (topics : Topics κ γ) :
    dispatches (l ++ [⟨.began n t, topics⟩]) = dispatches l + 1 := dispatches_append l _

variable [DecidableEq κ] (topic : κ)

/-- The subscription that is made at a moment, if it is one to the topic. -/
def Moment.subscription? (m : Moment κ γ) : Option (SubscriptionId × γ) :=
  match m.incident with
  | .subscribed t id callback => if t = topic then some (id, callback) else none
  | _ => none

/-- Who has ever subscribed to a topic, in order. -/
def subscriptions (log : List (Moment κ γ)) : List (SubscriptionId × γ) :=
  log.filterMap (Moment.subscription? topic)

/-- At the moment a subscription is taken out of the topic. -/
def Moment.takesOut (id : SubscriptionId) (m : Moment κ γ) : Bool :=
  match m.incident with
  | .unsubscribed t i _ => t = topic && i = id
  | _ => false

/-- **Who is registered on a topic**: who has subscribed to it and has not been taken out since. -/
def registered : List (Moment κ γ) → List (SubscriptionId × γ)
  | [] => []
  | m :: rest =>
    match m.subscription? topic with
    | some p => if rest.any (Moment.takesOut topic p.1) then registered rest else p :: registered rest
    | none => registered rest

theorem subscriptions_append (l l' : List (Moment κ γ)) :
    subscriptions topic (l ++ l') = subscriptions topic l ++ subscriptions topic l' :=
  List.filterMap_append

/-- What comes later takes out some of those who are registered, and registers others. -/
theorem registered_append (l l' : List (Moment κ γ)) :
    registered topic (l ++ l') =
      (registered topic l).filter (fun p => !l'.any (Moment.takesOut topic p.1)) ++
        registered topic l' := by
  induction l with
  | nil => rfl
  | cons m l ih =>
    simp only [List.cons_append, registered]
    cases m.subscription? topic with
    | none => exact ih
    | some p =>
      simp only [List.any_append]
      by_cases hl : l.any (Moment.takesOut topic p.1) = true
      · simp [hl, ih]
      · by_cases hl' : l'.any (Moment.takesOut topic p.1) = true
        · simp [hl, hl', ih]
        · simp [hl, hl', ih]

/-- Everyone who is registered has subscribed. -/
theorem registered_sublist (l : List (Moment κ γ)) :
    (registered topic l).Sublist (subscriptions topic l) := by
  induction l with
  | nil => exact List.Sublist.refl []
  | cons m l ih =>
    simp only [registered, subscriptions, List.filterMap_cons]
    cases m.subscription? topic with
    | none => exact ih
    | some p =>
      simp only
      split
      · exact List.Sublist.cons p ih
      · exact ih.cons_cons p

section Last

variable {l : List (Moment κ γ)} {m : Moment κ γ}

theorem subscriptions_concat :
    subscriptions topic (l ++ [m]) = subscriptions topic l ++ (m.subscription? topic).toList := by
  rw [subscriptions_append, subscriptions, subscriptions, List.filterMap_cons, List.filterMap_nil]
  cases m.subscription? topic <;> rfl

theorem registered_concat_of_other (hsub : m.subscription? topic = none)
    (hout : ∀ id, m.takesOut topic id = false) : registered topic (l ++ [m]) = registered topic l := by
  rw [registered_append]
  simp [registered, hsub, hout]

theorem registered_concat_subscribed {t : κ} {id : SubscriptionId} {callback : γ}
    (hm : m.incident = .subscribed t id callback) :
    registered topic (l ++ [m]) = registered topic l ++ if t = topic then [(id, callback)] else [] := by
  rw [registered_append]
  by_cases ht : t = topic <;> simp [registered, Moment.subscription?, Moment.takesOut, hm, ht]

theorem registered_concat_unsubscribed {t : κ} {id : SubscriptionId} {found : Bool}
    (hm : m.incident = .unsubscribed t id found) :
    registered topic (l ++ [m]) =
      if t = topic then (registered topic l).filter (fun p => p.1 != id) else registered topic l := by
  rw [registered_append]
  by_cases ht : t = topic
  · simp only [registered, Moment.subscription?, hm, List.append_nil, List.any_cons, List.any_nil,
      Moment.takesOut, ht, decide_true, Bool.true_and, Bool.or_false, if_true]
    congr 1
    funext p
    by_cases hp : p.1 = id
    · simp [hp]
    · simp [hp, Ne.symm hp]
  · simp [registered, Moment.subscription?, Moment.takesOut, hm, ht]

end Last

/-! ## What holds of a moment -/

/-- Behind the beginning of a dispatch these are called in it, each once and in order; then it ends with
their number, and calls nobody any more. -/
def Serves (number : Nat) (list : List (SubscriptionId × γ)) (after : List (Moment κ γ)) : Prop :=
  ∃ inside m rest, after = inside ++ m :: rest ∧ m.incident = .ended number list.length ∧
    callsIn number inside = list ∧ callsIn number rest = []

/-- What holds of an incident, given what was before it and what comes after it. -/
def Incident.Lawful (before after : List (Moment κ γ)) : Incident κ γ → Prop
  | .subscribed t id _ => id = .behind (subscriptions t before).length
  | .unsubscribed t id found => found = true ↔ id ∈ (registered t before).map Prod.fst
  | .began n t => n = dispatches before ∧ callsIn n before = [] ∧ Serves n (registered t before) after
  | .called n t _ _ => ∃ m₀ ∈ before, m₀.incident = .began n t
  | .ended _ _ => True

/-- **What holds of a moment**: of its incident, and that the lists hold who is registered. -/
structure Moment.Lawful (before : List (Moment κ γ)) (m : Moment κ γ) (after : List (Moment κ γ)) :
    Prop where
  lists : ∀ t, (m.topics t).entries = registered t (before ++ [m])
  incident : m.incident.Lawful before after

theorem Moment.Lawful.of_incident {before after : List (Moment κ γ)} {m : Moment κ γ}
    {i : Incident κ γ} (hm : m.Lawful before after) (hi : m.incident = i) : i.Lawful before after :=
  hi ▸ hm.incident

/-- **`l` may follow `h`.** Besides the dispatches that begin in `l` there may be an `outer` one, which has
begun before. -/
structure Continues (outer : Option Nat) (h l : List (Moment κ γ)) : Prop where
  lawful : ∀ before m after, l = before ++ m :: after → m.Lawful (h ++ before) after
  numbers : ∀ m ∈ l, ∀ n, m.incident.number? = some n → outer = some n ∨ dispatches h ≤ n

section Continues

variable {outer : Option Nat} {h l l' : List (Moment κ γ)} {m : Moment κ γ}

omit [DecidableEq κ] in
theorem Serves.append {number : Nat} {list : List (SubscriptionId × γ)} (hs : Serves number list l)
    (hl' : callsIn number l' = []) : Serves number list (l ++ l') := by
  obtain ⟨inside, m, rest, rfl, hm, hinside, hrest⟩ := hs
  refine ⟨inside, m, rest ++ l', by simp, hm, hinside, ?_⟩
  rw [callsIn_append, hrest, hl']
  rfl

/-- What comes later leaves a moment lawful if it calls nobody in the dispatch that begins there. -/
theorem Moment.Lawful.append (hm : m.Lawful h l)
    (hl' : ∀ n t, m.incident = .began n t → callsIn n l' = []) : m.Lawful h (l ++ l') where
  lists := hm.lists
  incident := by
    cases hi : m.incident with
    | began n t =>
      obtain ⟨hnumber, hbefore, hserves⟩ := hm.of_incident hi
      exact ⟨hnumber, hbefore, hserves.append (hl' n t hi)⟩
    | _ => exact hm.of_incident hi

theorem Continues.nil : Continues outer h [] where
  lawful before m after heq := by simp at heq
  numbers m hm := by simp at hm

theorem Continues.weaken (hc : Continues none h l) : Continues outer h l where
  lawful := hc.lawful
  numbers m hm n hn := .inr ((hc.numbers m hm n hn).resolve_left (by simp))

theorem Continues.single (hm : m.Lawful h [])
    (hn : ∀ n, m.incident.number? = some n → outer = some n ∨ dispatches h ≤ n) :
    Continues outer h [m] where
  lawful before m' after heq := by
    cases before with
    | nil =>
      simp only [List.nil_append, List.cons.injEq] at heq
      obtain ⟨rfl, rfl⟩ := heq
      simpa using hm
    | cons _ before => simp at heq
  numbers m' hm' n := by
    rw [List.mem_singleton] at hm'
    subst hm'
    exact hn n

/-- The number of a dispatch that begins in what follows is not given out again later. -/
theorem Continues.number_lt (hc : Continues outer h l) {before after : List (Moment κ γ)} {n : Nat}
    {t : κ} (hl : l = before ++ m :: after) (hm : m.incident = .began n t) :
    dispatches h ≤ n ∧ n < dispatches (h ++ l) := by
  obtain ⟨hn, -, -⟩ := (hc.lawful before m after hl).of_incident hm
  have hone : dispatches [m] = 1 := by simp [dispatches, hm]
  have hsplit : dispatches (m :: after) = dispatches [m] + dispatches after :=
    dispatches_append [m] after
  rw [hl, hn]
  simp only [dispatches_append, hsplit, hone]
  omega

/-- **What follows can be followed.** -/
theorem Continues.append (hc : Continues outer h l) (hc' : Continues outer (h ++ l) l')
    (houter : ∀ n, outer = some n → n < dispatches h) : Continues outer h (l ++ l') where
  lawful before m after heq := by
    rcases List.append_eq_append_iff.mp heq.symm with ⟨mid, rfl, hmid⟩ | ⟨mid, rfl, hmid⟩
    · cases mid with
      | nil =>
        simp only [List.nil_append] at hmid
        simpa using hc'.lawful [] m after hmid.symm
      | cons m' mid =>
        simp only [List.cons_append, List.cons.injEq] at hmid
        obtain ⟨rfl, rfl⟩ := hmid
        refine (hc.lawful before m mid rfl).append fun n t hn => ?_
        obtain ⟨hle, hlt⟩ := hc.number_lt rfl hn
        -- the later part calls in its own dispatches and in the outer one
        refine callsIn_eq_nil fun m' hm' hn' => ?_
        rcases hc'.numbers m' hm' n hn' with hout | hge
        · exact absurd (houter n hout) (by omega)
        · omega
    · have hlawful := hc'.lawful mid m after hmid
      rwa [List.append_assoc] at hlawful
  numbers m hm n hn := by
    rcases List.mem_append.mp hm with hl | hl'
    · exact hc.numbers m hl n hn
    · rcases hc'.numbers m hl' n hn with hout | hge
      · exact .inl hout
      · rw [dispatches_append] at hge
        exact .inr (by omega)

/-- **A dispatch begins, calls those who are registered, and ends.** -/
theorem Continues.dispatch {m₀ m₁ : Moment κ γ} {t : κ}
    (hbegan : m₀.incident = .began (dispatches h) t)
    (hlists : ∀ t, (m₀.topics t).entries = registered t (h ++ [m₀]))
    (hfresh : callsIn (dispatches h) h = [])
    (hc : Continues (some (dispatches h)) (h ++ [m₀]) (l ++ [m₁]))
    (hcalls : callsIn (dispatches h) l = registered t h)
    (hended : m₁.incident = .ended (dispatches h) (registered t h).length) :
    Continues none h (m₀ :: (l ++ [m₁])) where
  lawful before m after heq := by
    cases before with
    | nil =>
      simp only [List.nil_append, List.cons.injEq] at heq
      obtain ⟨rfl, rfl⟩ := heq
      rw [List.append_nil]
      refine ⟨hlists, ?_⟩
      rw [hbegan]
      exact ⟨rfl, hfresh, l, m₁, [], rfl, hended, hcalls, rfl⟩
    | cons m' before =>
      simp only [List.cons_append, List.cons.injEq] at heq
      obtain ⟨rfl, heq⟩ := heq
      have hlawful := hc.lawful before m after heq
      rwa [List.append_assoc] at hlawful
  numbers m hm n hn := by
    refine .inr ?_
    rcases List.mem_cons.mp hm with rfl | hrest
    · rw [hbegan] at hn
      cases hn
      exact Nat.le_refl _
    · rcases hc.numbers m hrest n hn with hout | hge
      · cases hout
        exact Nat.le_refl _
      · rw [dispatches_append] at hge
        omega

end Continues

end Log

/-! ## What holds of a chronicle -/

namespace Chronicle

section Proceeds

variable {κ γ σ : Type} [DecidableEq κ] {outer : Option Nat} {c c' c'' : Chronicle κ γ σ}

/-- The lists are those that the chronicle tells of. -/
structure Sound (c : Chronicle κ γ σ) : Prop where
  entries_eq : ∀ t, (c.topics t).entries = registered t c.log
  nextId_eq : ∀ t, ⟨(c.topics t).nextId⟩ = SubscriptionId.behind (subscriptions t c.log).length
  numbers : ∀ m ∈ c.log, ∀ n, m.incident.number? = some n → n < dispatches c.log

theorem sound_start (surroundings : σ) : (start surroundings : Chronicle κ γ σ).Sound where
  entries_eq _ := rfl
  nextId_eq _ := rfl
  numbers m hm := by simp [start] at hm

/-- `c'` comes of `c`, and what is noted meanwhile may follow what has been noted. -/
structure Proceeds (outer : Option Nat) (c c' : Chronicle κ γ σ) : Prop where
  sound : c'.Sound
  log_eq : ∃ l, c'.log = c.log ++ l ∧ Continues outer c.log l

theorem Proceeds.refl (hs : c.Sound) : Proceeds outer c c :=
  ⟨hs, [], (List.append_nil _).symm, .nil⟩

theorem Proceeds.trans (h : Proceeds outer c c') (h' : Proceeds outer c' c'')
    (houter : ∀ n, outer = some n → n < dispatches c.log) : Proceeds outer c c'' := by
  obtain ⟨l, hl, hc⟩ := h.log_eq
  obtain ⟨l', hl', hc'⟩ := h'.log_eq
  rw [hl] at hl' hc'
  refine ⟨h'.sound, l ++ l', ?_, hc.append hc' houter⟩
  rw [hl', List.append_assoc]

theorem Proceeds.none_trans (h : Proceeds none c c') (h' : Proceeds none c' c'') :
    Proceeds none c c'' := h.trans h' (by simp)

/-- **One moment more.** -/
theorem proceeds_note (hs : c.Sound) {i : Incident κ γ} {topics : Topics κ γ}
    (hids : ∀ t, ⟨(topics t).nextId⟩ =
      SubscriptionId.behind (subscriptions t (c.log ++ [⟨i, topics⟩])).length)
    (hlawful : (Moment.mk i topics).Lawful c.log [])
    (hn : ∀ n, i.number? = some n → (outer = some n ∨ dispatches c.log ≤ n) ∧
      n < dispatches (c.log ++ [⟨i, topics⟩])) :
    Proceeds outer c ({ c with topics := topics }.note i) where
  sound := by
    refine ⟨hlawful.lists, hids, fun m hm n hmn => ?_⟩
    rcases List.mem_append.mp hm with hold | hnew
    · have hlt := hs.numbers m hold n hmn
      show n < dispatches (c.log ++ [⟨i, topics⟩])
      rw [dispatches_append]
      exact Nat.lt_add_right _ hlt
    · rw [List.mem_singleton] at hnew
      subst hnew
      exact (hn n hmn).2
  log_eq := ⟨[⟨i, topics⟩], rfl, .single hlawful fun n hin => (hn n hin).1⟩

/-! ### Subscriptions -/

theorem proceeds_subscribe (hs : c.Sound) (topic : κ) (callback : γ) :
    Proceeds outer c (c.subscribe topic callback).2 := by
  have hnext := hs.nextId_eq topic
  refine proceeds_note hs (fun t => ?_) ⟨fun t => ?_, hnext⟩ ?_
  · rw [subscriptions_concat]
    by_cases ht : topic = t
    · subst ht
      simp [Moment.subscription?, SubscriptionId.behind_succ, ← hnext]
    · simpa [Topics.set_of_ne ht, Moment.subscription?, ht] using hs.nextId_eq t
  · rw [registered_concat_subscribed t rfl, ← hs.entries_eq]
    by_cases ht : topic = t
    · subst ht
      simp
    · simp [Topics.set_of_ne ht, ht]
  · intro n hn
    simp [Incident.number?] at hn

theorem proceeds_unsubscribe (hs : c.Sound) (topic : κ) (id : SubscriptionId) :
    Proceeds outer c (c.unsubscribe topic id).2 := by
  refine proceeds_note hs (fun t => ?_) ⟨fun t => ?_, ?_⟩ ?_
  · rw [subscriptions_concat]
    by_cases ht : topic = t
    · subst ht
      simpa [Moment.subscription?] using hs.nextId_eq topic
    · simpa [Topics.set_of_ne ht, Moment.subscription?] using hs.nextId_eq t
  · rw [registered_concat_unsubscribed t rfl, ← hs.entries_eq]
    by_cases ht : topic = t
    · subst ht
      simp
    · simp [Topics.set_of_ne ht, ht]
  · show _ ↔ id ∈ (registered topic c.log).map Prod.fst
    rw [← hs.entries_eq]
    exact Subscribers.unsubscribe_fst
  · intro n hn
    simp [Incident.number?] at hn

/-! ### Dispatches -/

/-- Nothing has been noted of the dispatch that begins next. -/
theorem Sound.callsIn_eq_nil (hs : c.Sound) : callsIn (dispatches c.log) c.log = [] := by
  refine SessionMux.callsIn_eq_nil fun m hm hn => ?_
  have hlt := hs.numbers m hm _ hn
  omega

/-- Something of a dispatch is noted, which leaves the lists as they are. -/
theorem Sound.note (hs : c.Sound) {i : Incident κ γ}
    (hsub : ∀ t, (Moment.mk i c.topics).subscription? t = none)
    (hout : ∀ t id, (Moment.mk i c.topics).takesOut t id = false)
    (hn : ∀ n, i.number? = some n → n < dispatches (c.log ++ [⟨i, c.topics⟩])) : (c.note i).Sound where
  entries_eq t := by
    show (c.topics t).entries = registered t (c.log ++ [_])
    rw [registered_concat_of_other t (hsub t) (hout t)]
    exact hs.entries_eq t
  nextId_eq t := by
    show _ = SubscriptionId.behind (subscriptions t (c.log ++ [_])).length
    rw [subscriptions_concat, hsub t]
    simpa [Chronicle.note] using hs.nextId_eq t
  numbers m hm n hmn := by
    show n < dispatches (c.log ++ [_])
    rcases List.mem_append.mp hm with hold | hnew
    · have hlt := hs.numbers m hold n hmn
      rw [dispatches_append]
      omega
    · rw [List.mem_singleton] at hnew
      subst hnew
      exact hn n hmn

/-- The next dispatch begins. -/
theorem Sound.note_began (hs : c.Sound) (topic : κ) : (c.note (.began (dispatches c.log) topic)).Sound := by
  refine hs.note (fun _ => rfl) (fun _ _ => rfl) fun n hn => ?_
  cases hn
  rw [dispatches_concat_began]
  exact Nat.lt_succ_self _

/-- Somebody is called in a dispatch that has begun. -/
theorem Sound.note_called (hs : c.Sound) {number : Nat} (hnumber : number < dispatches c.log) (topic : κ)
    (p : SubscriptionId × γ) : (c.note (.called number topic p.1 p.2)).Sound := by
  refine hs.note (fun _ => rfl) (fun _ _ => rfl) fun n hn => ?_
  cases hn
  rw [dispatches_append]
  exact Nat.lt_add_right _ hnumber

/-- A dispatch that has begun ends. -/
theorem Sound.note_ended (hs : c.Sound) {number : Nat} (hnumber : number < dispatches c.log)
    (count : Nat) : (c.note (.ended number count)).Sound := by
  refine hs.note (fun _ => rfl) (fun _ _ => rfl) fun n hn => ?_
  cases hn
  rw [dispatches_append]
  exact Nat.lt_add_right _ hnumber

/-- From `c` to `c'` these are called in a dispatch that is going on. -/
structure Calls (number : Nat) (list : List (SubscriptionId × γ)) (c c' : Chronicle κ γ σ) : Prop where
  sound : c'.Sound
  log_eq : ∃ l, c'.log = c.log ++ l ∧ Continues (some number) c.log l ∧ callsIn number l = list

theorem Calls.trans {number : Nat} {list list' : List (SubscriptionId × γ)}
    (h : Calls number list c c') (h' : Calls number list' c' c'') (hn : number < dispatches c.log) :
    Calls number (list ++ list') c c'' := by
  obtain ⟨l, hl, hc, hlist⟩ := h.log_eq
  obtain ⟨l', hl', hc', hlist'⟩ := h'.log_eq
  rw [hl] at hl' hc'
  refine ⟨h'.sound, l ++ l', ?_, hc.append hc' fun n heq => ?_, ?_⟩
  · rw [hl', List.append_assoc]
  · cases heq
    exact hn
  · rw [callsIn_append, hlist, hlist']

/-- What callbacks do calls nobody in the dispatch in which they are called. -/
theorem Proceeds.calls {number : Nat} (h : Proceeds none c c') (hn : number < dispatches c.log) :
    Calls number [] c c' := by
  obtain ⟨l, hl, hc⟩ := h.log_eq
  refine ⟨h.sound, l, hl, hc.weaken, ?_⟩
  refine SessionMux.callsIn_eq_nil fun m hm hmn => ?_
  have hge := (hc.numbers m hm number hmn).resolve_left (by simp)
  omega

end Proceeds

section Reactions

variable {κ α ε ω δ σ : Type} [DecidableEq κ] {perform : ε → σ → ω × σ}
  {redispatch : δ → Chronicle κ (Callback κ α ε ω δ) σ → Nat × Chronicle κ (Callback κ α ε ω δ) σ}
  {c : Chronicle κ (Callback κ α ε ω δ) σ}

theorem Sound.turn (hs : c.Sound) (s : σ) : ({ c with surroundings := s } : Chronicle _ _ _).Sound :=
  ⟨hs.entries_eq, hs.nextId_eq, hs.numbers⟩

/-- Proceeds without a change of the lists. -/
theorem proceeds_turn (hs : c.Sound) (s : σ) : Proceeds none c { c with surroundings := s } :=
  ⟨hs.turn s, [], (List.append_nil _).symm, .nil⟩

/-- **A reaction** keeps to the law if the dispatches that it makes do. -/
theorem proceeds_narrate (hd : ∀ d c, c.Sound → Proceeds none c (redispatch d c).2)
    (r : Reaction κ α ε ω δ) (hs : c.Sound) : Proceeds none c (r.narrate perform redispatch c) := by
  induction r generalizing c with
  | done => exact .refl hs
  | subscribe topic callback next _ ih =>
    have hfirst : Proceeds none c (c.subscribe topic callback).2 := proceeds_subscribe hs topic callback
    exact hfirst.none_trans (ih _ hfirst.sound)
  | unsubscribe topic id next ih =>
    have hfirst : Proceeds none c (c.unsubscribe topic id).2 := proceeds_unsubscribe hs topic id
    exact hfirst.none_trans (ih _ hfirst.sound)
  | dispatch event next ih =>
    have hfirst := hd event c hs
    exact hfirst.none_trans (ih _ hfirst.sound)
  | act effect next ih =>
    have hfirst := proceeds_turn hs (perform effect c.surroundings).2
    exact hfirst.none_trans (ih _ hfirst.sound)

theorem calls_call (hd : ∀ d c, c.Sound → Proceeds none c (redispatch d c).2) {number : Nat} {topic : κ}
    (event : α) (hs : c.Sound) (hn : number < dispatches c.log)
    (hbegan : ∃ m ∈ c.log, m.incident = .began number topic)
    (p : SubscriptionId × Callback κ α ε ω δ) :
    Calls number [p] c (c.call perform redispatch number topic event p) := by
  let m : Moment κ (Callback κ α ε ω δ) := ⟨.called number topic p.1 p.2, c.topics⟩
  have hnoted : (c.note m.incident).Sound := hs.note_called hn topic p
  have hfirst : Calls number [p] c (c.note m.incident) := by
    refine ⟨hnoted, [m], rfl, .single ⟨hnoted.entries_eq, hbegan⟩ ?_, ?_⟩
    · intro n hmn
      cases hmn
      exact .inl rfl
    · simp [callsIn, Moment.callIn?, m]
  have hlt : number < dispatches (c.note m.incident).log := hnoted.numbers m List.mem_concat_self _ rfl
  exact hfirst.trans ((proceeds_narrate hd (p.2 event) hnoted).calls hlt) hn

theorem calls_foldl (hd : ∀ d c, c.Sound → Proceeds none c (redispatch d c).2) {number : Nat} {topic : κ}
    (event : α) (list : List (SubscriptionId × Callback κ α ε ω δ)) (hs : c.Sound)
    (hn : number < dispatches c.log) (hbegan : ∃ m ∈ c.log, m.incident = .began number topic) :
    Calls number list c (list.foldl (call perform redispatch number topic event) c) := by
  induction list generalizing c with
  | nil => exact ⟨hs, [], (List.append_nil _).symm, .nil, rfl⟩
  | cons p list ih =>
    have hfirst : Calls number [p] c (c.call perform redispatch number topic event p) :=
      calls_call hd event hs hn hbegan p
    obtain ⟨l, hl, -, -⟩ := hfirst.log_eq
    refine hfirst.trans (ih hfirst.sound ?_ ?_) hn
    · rw [hl, dispatches_append]
      omega
    · obtain ⟨m, hm, hmb⟩ := hbegan
      rw [hl]
      exact ⟨m, List.mem_append_left l hm, hmb⟩

/-- **A dispatch** keeps to the law if those that callbacks make do. -/
theorem proceeds_dispatch (hd : ∀ d c, c.Sound → Proceeds none c (redispatch d c).2) (topic : κ)
    (event : α) (hs : c.Sound) : Proceeds none c (c.dispatch perform redispatch topic event).2 := by
  let n := dispatches c.log
  let m₀ : Moment κ (Callback κ α ε ω δ) := ⟨.began n topic, c.topics⟩
  have hbegun : (c.note m₀.incident).Sound := hs.note_began topic
  have hlt : n < dispatches (c.note m₀.incident).log := hbegun.numbers m₀ List.mem_concat_self _ rfl
  let served := (c.topics topic).entries.foldl (call perform redispatch n topic event)
    (c.note m₀.incident)
  have hcalls : Calls n (c.topics topic).entries (c.note m₀.incident) served :=
    calls_foldl hd event _ hbegun hlt ⟨m₀, List.mem_append_right _ List.mem_cons_self, rfl⟩
  obtain ⟨l, hl, hc, hlist⟩ := hcalls.log_eq
  let m₁ : Moment κ (Callback κ α ε ω δ) := ⟨.ended n (c.topics topic).entries.length, served.topics⟩
  have hserved : served.log = c.log ++ [m₀] ++ l := hl
  have hended : (served.note m₁.incident).Sound := by
    refine hcalls.sound.note_ended ?_ _
    rw [hserved, dispatches_append]
    exact Nat.lt_add_right _ hlt
  have hlast : Continues (some n) (c.log ++ [m₀] ++ l) [m₁] := by
    rw [← hserved]
    refine .single ⟨hended.entries_eq, trivial⟩ fun k hk => ?_
    cases hk
    exact .inl rfl
  refine ⟨hended, m₀ :: (l ++ [m₁]), ?_, ?_⟩
  · show served.log ++ [m₁] = _
    rw [hserved]
    simp
  · refine .dispatch rfl hbegun.entries_eq hs.callsIn_eq_nil (hc.append hlast ?_) ?_ ?_
    · intro k hk
      cases hk
      exact hlt
    · exact hlist.trans (hs.entries_eq topic)
    · rw [← hs.entries_eq topic]

/-- A dispatch answers with the number of those who are registered. -/
theorem Sound.dispatchNested_fst (hs : c.Sound) (route : δ → κ × α) (depth : Nat) (topic : κ)
    (event : α) : (c.scene.dispatchNested perform route depth topic event).1 =
      (registered topic c.log).length := by
  rw [← hs.entries_eq topic]
  cases depth <;> rfl

/-- **Dispatches keep to the law, to any depth.** -/
theorem proceeds_dispatchNested (route : δ → κ × α) (depth : Nat) (topic : κ) (event : α)
    (hs : c.Sound) : Proceeds none c (c.dispatchNested perform route depth topic event).2 := by
  induction depth generalizing topic event c with
  | zero => exact proceeds_dispatch (fun _ _ hs => .refl hs) topic event hs
  | succ depth ih => exact proceeds_dispatch (fun d _ hs => ih (route d).1 (route d).2 hs) topic event hs

theorem proceeds_obey (route : δ → κ × α) (depth : Nat) (o : Order κ α ε ω δ σ) (hs : c.Sound) :
    Proceeds none c (c.obey perform route depth o) := by
  cases o with
  | subscribe topic callback => exact proceeds_subscribe hs topic callback
  | unsubscribe topic id => exact proceeds_unsubscribe hs topic id
  | dispatch topic event => exact proceeds_dispatchNested route depth topic event hs
  | turn f => exact proceeds_turn hs (f c.surroundings)

theorem proceeds_run (route : δ → κ × α) (depth : Nat) (orders : List (Order κ α ε ω δ σ))
    (hs : c.Sound) : Proceeds none c (c.run perform route depth orders) := by
  induction orders generalizing c with
  | nil => exact .refl hs
  | cons o orders ih =>
    have hfirst : Proceeds none c (c.obey perform route depth o) := proceeds_obey route depth o hs
    exact hfirst.none_trans (ih hfirst.sound)

end Reactions

end Chronicle

end SessionMux
