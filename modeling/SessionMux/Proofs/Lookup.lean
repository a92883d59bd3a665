/-!
# Association lists

What is under a key after an entry was put in front, appended, changed or taken out; and in a list that
has no key twice, what is under a key is what is in the list.
-/

namespace SessionMux

section Lookup

variable {κ υ : Type} [DecidableEq κ]

theorem lookup_cons_if (k a : κ) (v : υ) (l : List (κ × υ)) :
    ((a, v) :: l).lookup k = if k = a then some v else l.lookup k := by
  rw [List.lookup_cons]
  by_cases h : k = a
  · rw [if_pos h, beq_iff_eq.mpr h]
  · rw [if_neg h, beq_eq_false_iff_ne.mpr h]

theorem lookup_filter_ne (k a : κ) (l : List (κ × υ)) :
    (l.filter fun e => e.1 != a).lookup k = if k = a then none else l.lookup k := by
  induction l with
  | nil => rw [List.filter_nil, List.lookup_nil, ite_self]
  | cons e l ih =>
    obtain ⟨b, v⟩ := e
    by_cases hb : b = a
    · rw [List.filter_cons_of_neg (by simp [hb]), ih, lookup_cons_if]
      subst hb
      by_cases hk : k = b
      · rw [if_pos hk, if_pos hk]
      · rw [if_neg hk, if_neg hk, if_neg hk]
    · rw [List.filter_cons_of_pos (by simp [hb]), lookup_cons_if, lookup_cons_if, ih]
      by_cases hk : k = a
      · rw [if_pos hk, if_pos hk, if_neg (by rw [hk]; exact fun h => hb h.symm)]
      · rw [if_neg hk, if_neg hk]

theorem lookup_map_at (k a : κ) (f : υ → υ) (l : List (κ × υ)) :
    (l.map fun p => if p.1 = a then (p.1, f p.2) else p).lookup k
      = if k = a then (l.lookup k).map f else l.lookup k := by
  induction l with
  | nil => rw [List.map_nil, List.lookup_nil, Option.map_none, ite_self]
  | cons e l ih =>
    obtain ⟨b, v⟩ := e
    by_cases hb : b = a
    · rw [List.map_cons, if_pos hb, lookup_cons_if, lookup_cons_if, ih]
      subst hb
      by_cases hk : k = b
      · rw [if_pos hk, if_pos hk, if_pos hk]
        rfl
      · rw [if_neg hk, if_neg hk, if_neg hk, if_neg hk]
    · rw [List.map_cons, if_neg hb, lookup_cons_if, lookup_cons_if, ih]
      by_cases hk : k = a
      · rw [if_pos hk, if_neg (by rw [hk]; exact fun h => hb h.symm), if_pos hk,
          if_neg (by rw [hk]; exact fun h => hb h.symm)]
      · rw [if_neg hk, if_neg hk]

theorem lookup_append_one (k a : κ) (v : υ) (l : List (κ × υ)) (h : l.lookup a = none) :
    (l ++ [(a, v)]).lookup k = if k = a then some v else l.lookup k := by
  rw [List.lookup_append, lookup_cons_if, List.lookup_nil]
  by_cases hk : k = a
  · rw [if_pos hk, if_pos hk, hk, h, Option.none_or]
  · rw [if_neg hk, if_neg hk, Option.or_none]

theorem mem_of_lookup {k : κ} {v : υ} {l : List (κ × υ)} (h : l.lookup k = some v) :
    (k, v) ∈ l := by
  obtain ⟨l₁, l₂, rfl, -⟩ := List.lookup_eq_some_iff.mp h
  exact List.mem_append_right _ List.mem_cons_self

theorem lookup_of_mem {k : κ} {v : υ} {l : List (κ × υ)} (hl : (l.map Prod.fst).Nodup)
    (h : (k, v) ∈ l) : l.lookup k = some v := by
  induction l with
  | nil => cases h
  | cons e l ih =>
    obtain ⟨b, u⟩ := e
    rw [List.map_cons, List.nodup_cons] at hl
    rw [lookup_cons_if]
    rcases List.mem_cons.mp h with he | hmem
    · cases he
      exact if_pos rfl
    · have hne : k ≠ b := by
        rintro rfl
        exact hl.1 (List.mem_map.mpr ⟨_, hmem, rfl⟩)
      rw [if_neg hne]
      exact ih hl.2 hmem

theorem eq_of_mem {k : κ} {v w : υ} {l : List (κ × υ)} (hl : (l.map Prod.fst).Nodup)
    (hv : (k, v) ∈ l) (hw : (k, w) ∈ l) : v = w :=
  Option.some.inj ((lookup_of_mem hl hv).symm.trans (lookup_of_mem hl hw))

end Lookup

end SessionMux
