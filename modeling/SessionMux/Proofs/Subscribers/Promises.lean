import Mathlib.Algebra.Group.Nat.Defs
import Mathlib.Data.List.Induction
import Mathlib.Data.List.Nodup
import SessionMux.Proofs.Subscribers.Serving

/-!
# What subscribers are promised

A callback is called by each dispatch that begins while it is registered, and by no other one: the first
that can call it is the next to begin after its subscription, and none that begins after it has been taken
out calls it. An id names one subscription of its topic for good, so an id that is taken out takes out that
subscription and leaves all others in their order; the same id on another topic is another subscription.

All of this follows from the law of moments as long as ids do not run out.

* `WellServed` — the promises.
* **`Continues.wellServed`** — they are kept by what is lawful from the start.
* **`Hub.wellServed_run`** — whatever is done to the lists of a hub, inside of callbacks and outside, keeps
  them.
-/

namespace SessionMux

/-- **What subscribers are promised**, of all that happens. -/
structure WellServed {κ γ : Type} [DecidableEq κ] (log : List (Moment κ γ)) : Prop where
  /-- At every moment the lists hold who is registered. -/
  lists : ∀ before m after t, log = before ++ m :: after →
    (m.topics t).entries = registered t (before ++ [m])
  /-- No id of a topic is given out twice. -/
  ids : ∀ t, ((subscriptions t log).map Prod.fst).Nodup
  /-- A dispatch calls those who are registered when it begins, each once and in order, and nobody
  else. -/
  dispatch : ∀ before m after n t, log = before ++ m :: after → m.incident = .began n t →
    n = dispatches before ∧ (m.topics t).entries = registered t before ∧ callsIn n before = [] ∧
      Serves n (m.topics t).entries after
  /-- There are no calls but those of dispatches. -/
  called : ∀ before m after n t id callback, log = before ++ m :: after →
    m.incident = .called n t id callback → ∃ m₀ ∈ before, m₀.incident = .began n t
  /-- Who subscribes is not called by dispatches that have begun. -/
  added : ∀ before m after n t id callback, log = before ++ m :: after →
    m.incident = .subscribed t id callback → (∃ m₀ ∈ before, m₀.incident = .began n t) →
      id ∉ (callsIn n log).map Prod.fst
  /-- Who has subscribed is called by a later dispatch unless it has been taken out before. -/
  awaited : ∀ before m between m₁ after n t id callback, log = before ++ m :: (between ++ m₁ :: after) →
    m.incident = .subscribed t id callback → m₁.incident = .began n t →
      ((id, callback) ∈ callsIn n log ↔ ∀ m' ∈ between, m'.takesOut t id = false)
  /-- Who has been taken out is not called by later dispatches. -/
  removed : ∀ before m after n t id, log = before ++ m :: after →
    m.incident = .unsubscribed t id true → (∃ m₁ ∈ after, m₁.incident = .began n t) →
      id ∉ (callsIn n log).map Prod.fst
  /-- An id is found if its subscription is registered. -/
  found_iff : ∀ before m after t id found, log = before ++ m :: after →
    m.incident = .unsubscribed t id found → (found = true ↔ id ∈ (registered t before).map Prod.fst)
  /-- Then it alone is taken out, and the others keep their order. -/
  takesOne : ∀ before m after t id, log = before ++ m :: after → m.incident = .unsubscribed t id true →
    ∃ front callback back, registered t before = front ++ (id, callback) :: back ∧
      (m.topics t).entries = front ++ back
  /-- An id that is not found changes nothing. -/
  takesNone : ∀ before m after t id, log = before ++ m :: after →
    m.incident = .unsubscribed t id false → (m.topics t).entries = registered t before
  /-- No other topic is touched. -/
  others : ∀ before m after t id found, log = before ++ m :: after →
    m.incident = .unsubscribed t id found → ∀ t', t' ≠ t → (m.topics t').entries = registered t' before

namespace Continues

section Promises

variable {κ γ : Type} [DecidableEq κ] {log before between after : List (Moment κ γ)} {m m₁ : Moment κ γ}
  {n : Nat} {t : κ} {id : SubscriptionId} {callback : γ} {found : Bool}

theorem lawful_of_split (hc : Continues none [] log) (hlog : log = before ++ m :: after) :
    m.Lawful before after := hc.lawful before m after hlog

/-! ## Ids -/

/-- Ids are given out in order. -/
theorem ids_eq (hc : Continues none [] log) (t : κ) :
    (subscriptions t log).map Prod.fst =
      (List.range (subscriptions t log).length).map SubscriptionId.behind := by
  have hprefix : ∀ p q, log = p ++ q → (subscriptions t p).map Prod.fst =
      (List.range (subscriptions t p).length).map SubscriptionId.behind := by
    intro p
    induction p using List.reverseRecOn with
    | nil => exact fun _ _ => rfl
    | append_singleton p m ih =>
      intro q hq
      rw [List.append_assoc, List.singleton_append] at hq
      rw [subscriptions_concat]
      cases hm : m.subscription? t with
      | none => simpa using ih _ hq
      | some e =>
        have hid : e.1 = .behind (subscriptions t p).length := by
          unfold Moment.subscription? at hm
          split at hm
          · rename_i t' id callback heq
            split at hm
            · rename_i ht
              cases hm
              subst ht
              exact (hc.lawful_of_split hq).of_incident heq
            · cases hm
          · cases hm
        simp [List.range_succ, ih _ hq, hid]
  exact hprefix log [] (List.append_nil log).symm

/-- **No id is given out twice** while there are fewer than 2⁶⁴ subscriptions. -/
theorem ids_nodup (hc : Continues none [] log) (hfew : (subscriptions t log).length < 2 ^ 64) :
    ((subscriptions t log).map Prod.fst).Nodup := by
  rw [hc.ids_eq]
  refine List.nodup_range.map_on fun i hi j hj heq => ?_
  rw [List.mem_range] at hi hj
  have hvalue : (UInt64.ofNat (i + 1)).toNat = (UInt64.ofNat (j + 1)).toNat :=
    congrArg (fun id : SubscriptionId => id.value.toNat) heq
  rw [UInt64.toNat_ofNat', UInt64.toNat_ofNat', Nat.mod_eq_of_lt (by omega),
    Nat.mod_eq_of_lt (by omega)] at hvalue
  omega

/-- A subscription of what is to come has an id that nobody has had. -/
theorem not_mem_of_later (hc : Continues none [] log) (hfew : (subscriptions t log).length < 2 ^ 64)
    (hlog : log = before ++ after) {e : SubscriptionId × γ} (he : e ∈ subscriptions t after) :
    e.1 ∉ (subscriptions t before).map Prod.fst := by
  have hnodup := hc.ids_nodup hfew
  rw [hlog, subscriptions_append, List.map_append] at hnodup
  exact fun hbefore => (List.disjoint_of_nodup_append hnodup) hbefore (List.mem_map_of_mem he)

theorem mem_subscriptions_of_mem_registered {e : SubscriptionId × γ} (he : e ∈ registered t log) :
    e ∈ subscriptions t log := (registered_sublist t log).subset he

/-! ## Dispatches -/

/-- Who is called in a dispatch was registered when it began. -/
theorem callsIn_eq (hc : Continues none [] log) (hlog : log = before ++ m :: after)
    (hm : m.incident = .began n t) : callsIn n log = registered t before := by
  obtain ⟨-, hbefore, inside, m', rest, rfl, hm', hinside, hrest⟩ :=
    (hc.lawful_of_split hlog).of_incident hm
  have hfirst : callsIn n [m] = [] := by simp [callsIn, Moment.callIn?, hm]
  have hlast : callsIn n [m'] = [] := by simp [callsIn, Moment.callIn?, hm']
  have hsplit : before ++ m :: (inside ++ m' :: rest) = before ++ ([m] ++ (inside ++ ([m'] ++ rest))) := by
    simp
  rw [hlog, hsplit]
  simp only [callsIn_append, hbefore, hfirst, hinside, hlast, hrest, List.nil_append, List.append_nil]

theorem entries_of_began (hc : Continues none [] log) (hlog : log = before ++ m :: after)
    (hm : m.incident = .began n t) : (m.topics t).entries = registered t before := by
  rw [(hc.lawful_of_split hlog).lists]
  exact registered_concat_of_other t (by simp [Moment.subscription?, hm])
    (by simp [Moment.takesOut, hm])

theorem not_called_of_added (hc : Continues none [] log) (hfew : (subscriptions t log).length < 2 ^ 64)
    (hlog : log = before ++ m :: after) (hm : m.incident = .subscribed t id callback)
    (hbegan : ∃ m₀ ∈ before, m₀.incident = .began n t) : id ∉ (callsIn n log).map Prod.fst := by
  obtain ⟨m₀, hm₀, hm₀n⟩ := hbegan
  obtain ⟨front, back, rfl⟩ := List.append_of_mem hm₀
  rw [List.append_assoc, List.cons_append] at hlog
  rw [hc.callsIn_eq hlog hm₀n]
  intro hid
  obtain ⟨e, he, hide⟩ := List.mem_map.mp hid
  have hsub : (id, callback) ∈ subscriptions t (m₀ :: (back ++ m :: after)) := by
    apply List.mem_filterMap.mpr
    exact ⟨m, by simp, by simp [Moment.subscription?, hm]⟩
  refine hc.not_mem_of_later hfew hlog hsub (List.mem_map.mpr ⟨e, ?_, hide⟩)
  exact mem_subscriptions_of_mem_registered he

theorem called_iff_of_added (hc : Continues none [] log) (hfew : (subscriptions t log).length < 2 ^ 64)
    (hlog : log = before ++ m :: (between ++ m₁ :: after))
    (hm : m.incident = .subscribed t id callback) (hm₁ : m₁.incident = .began n t) :
    (id, callback) ∈ callsIn n log ↔ ∀ m' ∈ between, m'.takesOut t id = false := by
  have hsplit : log = (before ++ m :: between) ++ m₁ :: after := by simp [hlog]
  have hcalls := hc.callsIn_eq hsplit hm₁
  have hsub : m.subscription? t = some (id, callback) := by simp [Moment.subscription?, hm]
  have hme : (id, callback) ∈ subscriptions t (m :: (between ++ m₁ :: after)) :=
    List.mem_filterMap.mpr ⟨m, List.mem_cons_self, hsub⟩
  rw [hcalls, registered_append, List.mem_append]
  constructor
  · intro hcalled m' hm'
    by_contra hout
    have hany : between.any (Moment.takesOut t id) = true :=
      List.any_eq_true.mpr ⟨m', hm', by simpa using hout⟩
    rcases hcalled with hold | hnew
    · refine hc.not_mem_of_later hfew hlog hme ?_
      exact List.mem_map_of_mem (mem_subscriptions_of_mem_registered (List.mem_filter.mp hold).1)
    · -- it is not in the list of those who have subscribed since either
      simp only [registered, hsub, hany, if_true] at hnew
      have hlater : (id, callback) ∈ subscriptions t (between ++ m₁ :: after) := by
        rw [subscriptions_append]
        exact List.mem_append_left _ (mem_subscriptions_of_mem_registered hnew)
      have hbehind : log = (before ++ [m]) ++ (between ++ m₁ :: after) := by simp [hlog]
      refine hc.not_mem_of_later hfew hbehind hlater ?_
      rw [subscriptions_concat, hsub]
      simp
  · intro hnone
    have hany : between.any (Moment.takesOut t id) = false :=
      List.any_eq_false.mpr fun m' hm' => by simp [hnone m' hm']
    refine .inr ?_
    simp [registered, hsub, hany]

theorem not_called_of_removed (hc : Continues none [] log) (hfew : (subscriptions t log).length < 2 ^ 64)
    (hlog : log = before ++ m :: after) (hm : m.incident = .unsubscribed t id true)
    (hbegan : ∃ m₁ ∈ after, m₁.incident = .began n t) : id ∉ (callsIn n log).map Prod.fst := by
  have hregistered := Iff.mp ((hc.lawful_of_split hlog).of_incident hm) rfl
  obtain ⟨e, he, hide⟩ := List.mem_map.mp hregistered
  obtain ⟨m₁, hm₁, hm₁n⟩ := hbegan
  obtain ⟨between, rest, rfl⟩ := List.append_of_mem hm₁
  have hsplit : log = (before ++ [m] ++ between) ++ m₁ :: rest := by simp [hlog]
  rw [hc.callsIn_eq hsplit hm₁n, registered_append, registered_concat_unsubscribed t hm, if_pos rfl]
  intro hid
  obtain ⟨e', he', hide'⟩ := List.mem_map.mp hid
  rcases List.mem_append.mp he' with hold | hnew
  · have hne := (List.mem_filter.mp (List.mem_filter.mp hold).1).2
    simp [hide'] at hne
  · have hbehind : log = (before ++ [m]) ++ (between ++ m₁ :: rest) := by simp [hlog]
    have hlater : e' ∈ subscriptions t (between ++ m₁ :: rest) := by
      rw [subscriptions_append]
      exact List.mem_append_left _ (mem_subscriptions_of_mem_registered hnew)
    refine hc.not_mem_of_later hfew hbehind hlater ?_
    rw [hide', ← hide, subscriptions_append, List.map_append]
    exact List.mem_append_left _ (List.mem_map_of_mem (mem_subscriptions_of_mem_registered he))

/-! ## Taking out -/

theorem entries_of_unsubscribed (hc : Continues none [] log) (hlog : log = before ++ m :: after)
    (hm : m.incident = .unsubscribed t id found) (t' : κ) :
    (m.topics t').entries =
      if t = t' then (registered t' before).filter (fun p => p.1 != id) else registered t' before := by
  rw [(hc.lawful_of_split hlog).lists]
  exact registered_concat_unsubscribed t' hm

theorem takesOne_of_found (hc : Continues none [] log) (hfew : (subscriptions t log).length < 2 ^ 64)
    (hlog : log = before ++ m :: after) (hm : m.incident = .unsubscribed t id true) :
    ∃ front callback back, registered t before = front ++ (id, callback) :: back ∧
      (m.topics t).entries = front ++ back := by
  have hregistered := Iff.mp ((hc.lawful_of_split hlog).of_incident hm) rfl
  obtain ⟨⟨id', callback⟩, he, heq⟩ := List.mem_map.mp hregistered
  subst heq
  obtain ⟨front, back, hsplit⟩ := List.append_of_mem he
  refine ⟨front, callback, back, hsplit, ?_⟩
  have hnodup : ((registered t before).map Prod.fst).Nodup := by
    have hall := hc.ids_nodup hfew
    rw [hlog, subscriptions_append, List.map_append] at hall
    exact (List.nodup_append.mp hall).1.sublist ((registered_sublist t before).map Prod.fst)
  rw [hsplit, List.map_append, List.map_cons, List.nodup_middle, List.nodup_cons] at hnodup
  have hothers : ∀ e ∈ front ++ back, (e.1 != id') = true := by
    intro e hmem
    apply bne_iff_ne.mpr
    intro heq
    rw [← List.map_append] at hnodup
    exact hnodup.1 (List.mem_map.mpr ⟨e, hmem, heq⟩)
  rw [hc.entries_of_unsubscribed hlog hm, if_pos rfl, hsplit, List.filter_append, List.filter_cons]
  simp only [bne_self_eq_false, Bool.false_eq_true, if_false]
  rw [← List.filter_append, List.filter_eq_self.mpr hothers]

theorem entries_of_not_found (hc : Continues none [] log) (hlog : log = before ++ m :: after)
    (hm : m.incident = .unsubscribed t id false) : (m.topics t).entries = registered t before := by
  have hnot := (hc.lawful_of_split hlog).of_incident hm
  rw [hc.entries_of_unsubscribed hlog hm, if_pos rfl, List.filter_eq_self]
  intro e he
  apply bne_iff_ne.mpr
  intro heq
  exact absurd (hnot.mpr (List.mem_map.mpr ⟨e, he, heq⟩)) (by simp)

end Promises

/-- **What is lawful from the start keeps the promises.** -/
theorem wellServed {κ γ : Type} [DecidableEq κ] {log : List (Moment κ γ)} (hc : Continues none [] log)
    (hfew : ∀ t, (subscriptions t log).length < 2 ^ 64) : WellServed log where
  lists before m after t hlog := (hc.lawful_of_split hlog).lists t
  ids t := hc.ids_nodup (hfew t)
  dispatch before m after n t hlog hm := by
    obtain ⟨hn, hbefore, hserves⟩ := (hc.lawful_of_split hlog).of_incident hm
    have hentries := hc.entries_of_began hlog hm
    exact ⟨hn, hentries, hbefore, hentries ▸ hserves⟩
  called before m after n t id callback hlog hm :=
    (hc.lawful_of_split hlog).of_incident hm
  added before m after n t id callback hlog hm := hc.not_called_of_added (hfew t) hlog hm
  awaited before m between m₁ after n t id callback hlog hm :=
    hc.called_iff_of_added (hfew t) hlog hm
  removed before m after n t id hlog hm := hc.not_called_of_removed (hfew t) hlog hm
  found_iff before m after t id found hlog hm :=
    (hc.lawful_of_split hlog).of_incident hm
  takesOne before m after t id hlog hm := hc.takesOne_of_found (hfew t) hlog hm
  takesNone before m after t id hlog hm := hc.entries_of_not_found hlog hm
  others before m after t id found hlog hm t' ht' := by
    rw [hc.entries_of_unsubscribed hlog hm, if_neg ht'.symm]

end Continues

/-! ## The lists of a hub -/

/-- **Whatever is done to the five lists of a hub, by callbacks and from outside, its subscribers are
served as promised**; what the chronicle tells is what is done, and a dispatch answers with the number of
those who are registered. -/
theorem Hub.wellServed_run {τ δ : Type} (route : δ → HookKind × HookEvent) (depth : Nat) (b : Outbox τ)
    (orders : List (Order HookKind HookEvent (HubAct τ) (HubAnswer τ) δ (Outbox τ)))
    (hfew : ∀ t, (subscriptions t
      ((Chronicle.start b).run Outbox.perform route depth orders).log).length < 2 ^ 64) :
    let c := (Chronicle.start b).run Outbox.perform route depth orders
    let s := Scene.run Outbox.perform route depth { topics := .empty, surroundings := b } orders
    WellServed c.log ∧ c.scene = s ∧ ∀ t e,
      (s.dispatchNested Outbox.perform route depth t e).1 = (registered t c.log).length := by
  intro c s
  have hproceeds : Chronicle.Proceeds none (.start b) c :=
    Chronicle.proceeds_run route depth orders (Chronicle.sound_start b)
  obtain ⟨hsound, l, hl, hc⟩ := hproceeds
  have hlog : c.log = l := hl
  have hscene : c.scene = s := Chronicle.scene_run route depth (.start b) orders
  refine ⟨?_, hscene, fun t e => ?_⟩
  · rw [← hlog] at hc
    exact hc.wellServed hfew
  · rw [← hscene]
    exact hsound.dispatchNested_fst route depth t e

/-- A callback that takes itself out and subscribes another one, served twice. -/
theorem Hub.wellServed_run_relay :
    let relay : Callback HookKind HookEvent (HubAct Unit) (HubAnswer Unit) Empty := fun _ =>
      .unsubscribe .prompt ⟨1⟩ fun _ => .subscribe .prompt (fun _ => .done) fun _ => .done
    let orders : List (Order HookKind HookEvent (HubAct Unit) (HubAnswer Unit) Empty (Outbox Unit)) :=
      [.subscribe .prompt relay, .dispatch .prompt ⟨"main", .prompt ⟨none⟩⟩,
        .dispatch .prompt ⟨"main", .prompt ⟨none⟩⟩]
    let c := (Chronicle.start { options := {}, own := () }).run Outbox.perform Empty.elim 0 orders
    (∀ t, (subscriptions t c.log).length < 2 ^ 64) ∧
      c.log.filterMap Moment.call? = [(.prompt, ⟨1⟩), (.prompt, ⟨2⟩)] ∧ WellServed c.log := by
  intro relay orders c
  have hfew : ∀ t, (subscriptions t c.log).length < 2 ^ 64 := by
    intro t
    cases t <;> decide
  exact ⟨hfew, by decide, (Hub.wellServed_run Empty.elim 0 { options := {}, own := () } orders hfew).1⟩

end SessionMux
