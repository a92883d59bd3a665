import SessionMux.Proofs.Lookup
import SessionMux.Toml.Document

/-!
# Each name once

A table can be written in many ways: under one header or several, by dotted keys, in braces. However
it was written, a document that is read at all gives each of its names once, and so does every table
in it, so that the order of the lines decides nothing.

* `Value.Distinct` — every table in a value has each of its names once.
* `Draft.Clear` — the same of a table in the making, said of the value that it has come to.
* `Clear.within` — changes at the end of a path keep it, and so do lines and headers.
* `Reader.Yields` — what a reader yields, whatever stands in front of it.
* **`distinct_of_ofText?`** — a document that is read has each name once.
-/

namespace SessionMux.Toml

/-- Every table in a value has each of its names once. -/
inductive Value.Distinct : Value → Prop
  | string (s : String) : Distinct (.string s)
  | integer (n : Int) : Distinct (.integer n)
  | float : Distinct .float
  | boolean (b : Bool) : Distinct (.boolean b)
  | moment : Distinct .moment
  | array {items : List Value} (hitems : ∀ v ∈ items, v.Distinct) : Distinct (.array items)
  | table {entries : List (String × Value)} (hnames : (entries.map Prod.fst).Nodup)
      (hvalues : ∀ e ∈ entries, e.2.Distinct) : Distinct (.table entries)

namespace Value.Distinct

theorem names {t : Table} (h : (Value.table t).Distinct) : (t.map Prod.fst).Nodup := by
  cases h with
  | table hnames hvalues => exact hnames

theorem value {t : Table} (h : (Value.table t).Distinct) : ∀ e ∈ t, e.2.Distinct := by
  cases h with
  | table hnames hvalues => exact hvalues

theorem item {items : List Value} (h : (Value.array items).Distinct) :
    ∀ v ∈ items, v.Distinct := by
  cases h with
  | array hitems => exact hitems

end Value.Distinct

/-! ## Tables in the making -/

namespace Draft

theorem finishAll_eq_map (entries : Entries) :
    finishAll entries = entries.map fun e => (e.1, e.2.finish) := by
  induction entries with
  | nil => rw [finishAll, List.map_nil]
  | cons e rest ih => rw [finishAll, ih, List.map_cons]

theorem names_finishAll (entries : Entries) :
    (finishAll entries).map Prod.fst = entries.map Prod.fst := by
  rw [finishAll_eq_map, List.map_map]
  rfl

/-- The table that entries have come to has each name once, and so has every table in it. -/
def Clear (entries : Entries) : Prop := (Value.table (finishAll entries)).Distinct

theorem clear_iff {entries : Entries} :
    Clear entries ↔ (entries.map Prod.fst).Nodup ∧ ∀ e ∈ entries, e.2.finish.Distinct := by
  have hnames := names_finishAll entries
  have hvalues : (∀ e ∈ finishAll entries, e.2.Distinct) ↔ ∀ e ∈ entries, e.2.finish.Distinct := by
    rw [finishAll_eq_map, List.forall_mem_map]
  constructor
  · exact fun h => ⟨hnames ▸ h.names, hvalues.mp h.value⟩
  · exact fun h => .table (hnames ▸ h.1) (hvalues.mpr h.2)

theorem Clear.nil : Clear [] := clear_iff.mpr ⟨List.nodup_nil, nofun⟩

theorem Clear.lookup {entries : Entries} {name : String} {d : Draft} (h : Clear entries)
    (hd : entries.lookup name = some d) : d.finish.Distinct :=
  (clear_iff.mp h).2 (name, d) (mem_of_lookup hd)

/-! ### What drafts come to -/

theorem distinct_value_iff {v : Value} : (value v).finish.Distinct ↔ v.Distinct := by
  rw [finish]

theorem distinct_table_iff {origin : Origin} {entries : Entries} :
    (table origin entries).finish.Distinct ↔ Clear entries := by
  rw [finish, Clear]

theorem distinct_tables_iff {earlier : List Value} {last : Entries} :
    (tables earlier last).finish.Distinct ↔ (∀ v ∈ earlier, v.Distinct) ∧ Clear last := by
  rw [finish]
  constructor
  · intro h
    exact ⟨fun v hv => h.item v (List.mem_append_left _ hv),
      h.item _ (List.mem_append_right _ List.mem_cons_self)⟩
  · rintro ⟨hearlier, hlast⟩
    refine .array fun v hv => ?_
    rcases List.mem_append.mp hv with hv | hv
    · exact hearlier v hv
    · exact List.mem_singleton.mp hv ▸ hlast

/-! ### What is put under a name -/

theorem names_put (name : String) (d : Draft) (entries : Entries) :
    (put name d entries).map Prod.fst =
      if name ∈ entries.map Prod.fst then entries.map Prod.fst else entries.map Prod.fst ++ [name] := by
  induction entries with
  | nil => rfl
  | cons e rest ih =>
    rw [put]
    by_cases h : e.1 = name
    · simp [h]
    · have h' : name ≠ e.1 := fun hn => h hn.symm
      simp only [beq_iff_eq, h, if_false, List.map_cons, ih, List.mem_cons, h', false_or]
      split <;> rfl

theorem mem_put {name : String} {d : Draft} {entries : Entries} {e : String × Draft}
    (h : e ∈ put name d entries) : e = (name, d) ∨ e ∈ entries := by
  induction entries with
  | nil => exact .inl (List.mem_singleton.mp h)
  | cons e' rest ih =>
    rw [put] at h
    split at h
    · exact (List.mem_cons.mp h).imp_right (List.mem_cons_of_mem _)
    · rcases List.mem_cons.mp h with rfl | h
      · exact .inr List.mem_cons_self
      · exact (ih h).imp_right (List.mem_cons_of_mem _)

theorem Clear.put {name : String} {d : Draft} {entries : Entries} (h : Clear entries)
    (hd : d.finish.Distinct) : Clear (put name d entries) := by
  obtain ⟨hnames, hvalues⟩ := clear_iff.mp h
  refine clear_iff.mpr ⟨?_, fun e he => ?_⟩
  · rw [names_put]
    split
    · exact hnames
    · rename_i hnew
      exact List.nodup_append.mpr ⟨hnames, List.pairwise_singleton _ _, fun a ha b hb hab =>
        hnew (List.mem_singleton.mp hb ▸ hab ▸ ha)⟩
  · rcases mem_put he with rfl | he
    · exact hd
    · exact hvalues e he

/-! ### The end of a path -/

/-- **A change at the end of a path** that keeps names apart keeps them apart in the whole. -/
theorem Clear.within {dotted : Bool} {change : Origin → Entries → Option Entries}
    (hchange : ∀ origin old new, Clear old → change origin old = some new → Clear new)
    {path : List String} {origin : Origin} {old new : Entries} (h : Clear old)
    (hnew : within dotted change path origin old = some new) : Clear new := by
  -- along the path; each table on the way is put back where it was found, or made
  induction path generalizing origin old new with
  | nil => exact hchange origin old new h hnew
  | cons name path ih =>
    rw [Draft.within] at hnew
    split at hnew
    · obtain ⟨inner, hinner, hput⟩ := Option.bind_eq_some_iff.mp hnew
      cases hput
      exact h.put (distinct_table_iff.mpr (ih Clear.nil hinner))
    · cases hnew
    · rename_i origin' inner hlookup
      split at hnew
      · cases hnew
      · obtain ⟨inner', hinner, hput⟩ := Option.bind_eq_some_iff.mp hnew
        cases hput
        have hclear := distinct_table_iff.mp (h.lookup hlookup)
        exact h.put (distinct_table_iff.mpr (ih hclear hinner))
    · rename_i earlier last hlookup
      obtain ⟨last', hlast, hput⟩ := Option.bind_eq_some_iff.mp hnew
      cases hput
      obtain ⟨hearlier, hclear⟩ := distinct_tables_iff.mp (h.lookup hlookup)
      exact h.put (distinct_tables_iff.mpr ⟨hearlier, ih hclear hlast⟩)

theorem Clear.assign {path : List String} {name : String} {v : Value} {origin : Origin}
    {old new : Entries} (h : Clear old) (hv : v.Distinct)
    (hnew : assign path name v origin old = some new) : Clear new := by
  refine h.within (fun origin old new hold hput => ?_) hnew
  split at hput
  · cases hput
  · cases hput
    exact hold.put (distinct_value_iff.mpr hv)

theorem Clear.declare {path : List String} {name : String} {old new : Entries} (h : Clear old)
    (hnew : declare path name old = some new) : Clear new := by
  refine h.within (fun origin old new hold hput => ?_) hnew
  split at hput
  · cases hput
    exact hold.put (distinct_table_iff.mpr Clear.nil)
  · rename_i inner hlookup
    cases hput
    have hinner := distinct_table_iff.mp (hold.lookup hlookup)
    exact hold.put (distinct_table_iff.mpr hinner)
  · cases hput

theorem Clear.append {path : List String} {name : String} {old new : Entries} (h : Clear old)
    (hnew : append path name old = some new) : Clear new := by
  refine h.within (fun origin old new hold hput => ?_) hnew
  split at hput
  · cases hput
    exact hold.put (distinct_tables_iff.mpr ⟨nofun, Clear.nil⟩)
  · rename_i earlier last hlookup
    cases hput
    obtain ⟨hearlier, hlast⟩ := distinct_tables_iff.mp (hold.lookup hlookup)
    refine hold.put (distinct_tables_iff.mpr ⟨fun v hv => ?_, Clear.nil⟩)
    rcases List.mem_append.mp hv with hv | hv
    · exact hearlier v hv
    · exact List.mem_singleton.mp hv ▸ hlast
  · cases hput

end Draft

/-! ## What readers yield -/

namespace Reader

variable {α β : Type}

/-- All that a reader yields is of a kind. -/
def Yields (p : Reader α) (P : α → Prop) : Prop := ∀ s a r, p s = some (a, r) → P a

theorem Yields.pure {P : α → Prop} {a : α} (h : P a) : Yields (pure a) P := by
  intro s b r hb
  cases hb
  exact h

theorem Yields.bind {P : α → Prop} {Q : β → Prop} {p : Reader α} {f : α → Reader β}
    (hp : Yields p P) (hf : ∀ a, P a → Yields (f a) Q) : Yields (p >>= f) Q := by
  intro s b r h
  obtain ⟨⟨a, s'⟩, ha, hb⟩ := Option.bind_eq_some_iff.mp h
  exact hf a (hp s a s' ha) s' b r hb

/-- What is read before may be anything. -/
theorem Yields.after {Q : β → Prop} {p : Reader α} {f : α → Reader β}
    (hf : ∀ a, Yields (f a) Q) : Yields (p >>= f) Q :=
  Yields.bind (P := fun _ => True) (fun _ _ _ _ => trivial) fun a _ => hf a

theorem Yields.failure {P : α → Prop} : Yields failure P := nofun

theorem Yields.orElse {P : α → Prop} {p q : Reader α} (hp : Yields p P) (hq : Yields q P) :
    Yields (p <|> q) P := by
  intro s a r h
  change (p s <|> q s) = some (a, r) at h
  cases hs : p s with
  | some x =>
    rw [hs] at h
    cases h
    exact hp s a r hs
  | none =>
    rw [hs] at h
    exact hq s a r h

theorem Yields.lift {P : α → Prop} {o : Option α} (h : ∀ a, o = some a → P a) :
    Yields (liftM o) P := by
  intro s a r ha
  obtain ⟨b, hb, hpure⟩ := Option.bind_eq_some_iff.mp ha
  cases hpure
  exact h a hb

end Reader

open Reader Draft

/-! ## Values -/

theorem yields_bounded (n : Int) : Yields (bounded n) Value.Distinct := by
  rw [bounded]
  split
  · exact .pure (.integer n)
  · exact .failure

theorem yields_integer : Yields integer Value.Distinct := by
  refine .after fun hex => ?_
  split
  · exact .after fun _ => .after fun _ => yields_bounded _
  · refine .after fun octal => ?_
    split
    · exact .after fun _ => .after fun _ => yields_bounded _
    · refine .after fun binary => ?_
      split
      · exact .after fun _ => .after fun _ => yields_bounded _
      · exact .after fun _ => .after fun _ => yields_bounded _

theorem yields_float : Yields float Value.Distinct := by
  refine .after fun minus => .after fun next => ?_
  split
  · exact .after fun _ => .pure .float
  · exact .after fun _ => .pure .float
  · refine .after fun whole => .after fun parts => ?_
    dsimp only
    split
    · exact .after fun _ => .pure .float
    · exact .pure .float

theorem yields_moment : Yields moment Value.Distinct := .after fun _ => .pure .moment

theorem yields_scalar : Yields scalar Value.Distinct := by
  refine .after fun next => ?_
  split
  · exact .after fun s => .pure (.string s)
  · exact .after fun s => .pure (.string s)
  · exact .after fun _ => .pure (.boolean true)
  · exact .after fun _ => .pure (.boolean false)
  · exact .orElse yields_moment (.orElse yields_float yields_integer)

theorem yields_elements {element : Reader Value} (h : Yields element Value.Distinct) (fuel : Nat) :
    Yields (elements element fuel) fun items => ∀ v ∈ items, v.Distinct := by
  induction fuel with
  | zero => exact .failure
  | succ fuel ih =>
    refine .after fun room => .after fun _ => .after fun next => ?_
    split
    · exact .after fun _ => .pure nofun
    · refine .bind h fun v hv => .after fun room => .after fun _ => .after fun next => ?_
      split
      · exact .after fun _ => .bind ih fun items hitems =>
          .pure (List.forall_mem_cons.mpr ⟨hv, hitems⟩)
      · exact .after fun _ => .pure (List.forall_mem_singleton.mpr hv)

theorem yields_pair {element : Reader Value} (h : Yields element Value.Distinct) :
    Yields (pair element) fun p => p.2.Distinct :=
  .after fun _ => .after fun _ => .after fun _ => .bind h fun _ hv => .pure hv

theorem yields_pairs {element : Reader Value} (h : Yields element Value.Distinct) (fuel : Nat)
    {entries : Entries} (hentries : Clear entries) : Yields (pairs element fuel entries) Clear := by
  induction fuel generalizing entries with
  | zero => exact .failure
  | succ fuel ih =>
    refine .bind (yields_pair h) fun p hv => ?_
    refine .bind (.lift fun new hnew => hentries.assign hv hnew) fun new hnew => ?_
    refine .after fun _ => .after fun next => ?_
    split
    · exact .after fun _ => ih hnew
    · exact .after fun _ => .pure hnew

/-- **A value**, however deep others stand in it. -/
theorem yields_value (depth : Nat) : Yields (value depth) Value.Distinct := by
  induction depth with
  | zero => exact yields_scalar
  | succ depth ih =>
    refine .after fun next => ?_
    split
    · exact .after fun _ => .after fun room =>
        .bind (yields_elements ih room) fun items hitems => .pure (.array hitems)
    · refine .after fun _ => .after fun _ => .after fun next => ?_
      split
      · exact .after fun _ => .pure Clear.nil
      · exact .after fun room => .bind (yields_pairs ih room Clear.nil) fun entries h => .pure h
    · exact yields_scalar

/-! ## Lines -/

theorem yields_heading {page : Page} (h : Clear page.entries) :
    Yields (heading page) fun page => Clear page.entries := by
  refine .after fun _ => .after fun many => ?_
  split
  · refine .after fun _ => .after fun k => .after fun _ => .after fun _ => .after fun _ => ?_
    exact .bind (.lift fun new hnew => h.append hnew) fun new hnew => .pure hnew
  · refine .after fun k => .after fun _ => .after fun _ => ?_
    exact .bind (.lift fun new hnew => h.declare hnew) fun new hnew => .pure hnew

theorem yields_assignment {page : Page} (h : Clear page.entries) :
    Yields (assignment page) fun page => Clear page.entries := by
  refine .bind (yields_pair (yields_value depthLimit)) fun p hv => .after fun _ => ?_
  refine .bind (.lift fun new hnew => ?_) fun new hnew => .pure hnew
  exact h.within (fun origin old new hold => hold.assign hv) hnew

theorem yields_lines (fuel : Nat) {page : Page} (h : Clear page.entries) :
    Yields (lines fuel page) fun page => Clear page.entries := by
  induction fuel generalizing page with
  | zero => exact .failure
  | succ fuel ih =>
    refine .after fun _ => .after fun next => ?_
    split
    · exact .pure h
    · exact .after fun _ => .after fun _ => ih h
    · exact .after fun _ => ih h
    · exact .after fun _ => ih h
    · exact .bind (yields_heading h) fun page h => ih h
    · exact .bind (yields_assignment h) fun page h => ih h

/-- **A document that is read gives each name once**, and so does every table in it. -/
theorem distinct_of_ofText? {s : String} {t : Table} (h : Table.ofText? s = some t) :
    (Value.table t).Distinct := by
  obtain ⟨⟨page, rest⟩, hlines, rfl⟩ := Option.map_eq_some_iff.mp h
  exact yields_lines _ Clear.nil _ page rest hlines

end SessionMux.Toml
