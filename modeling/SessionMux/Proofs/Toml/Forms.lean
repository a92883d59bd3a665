import SessionMux.Proofs.Toml.Names
import SessionMux.Proofs.Toml.Texts

/-!
# One table in three forms

A table can be written under a header of its own, by dotted keys, or in braces. A document whose tables
are each written in any of these forms, those with headers behind the others, comes to the same table:
what counts are the names and the values.

* `Statement` — a name that is given a value, with a text of it.
* `Part`, `Part.dotted`, `Part.inline`, `Part.headed` — a table, and its three forms.
* `Turns` — characters that make one page of another, whatever stands behind them.
* `turns_dotted`, `turns_inline`, `turns_headed` — what each form adds to a page.
* **`ofText?_forms`** — the document as a whole.
-/

namespace SessionMux.Toml

open Reader Draft

/-! ## Names -/

/-- A name that needs no quotes. -/
structure BareName where
  chars : List Char
  ne_nil : chars ≠ []
  bare : ∀ c ∈ chars, isBare c = true

namespace BareName

/-- The name itself. -/
def toString (n : BareName) : String := String.ofList n.chars

theorem exists_cons (n : BareName) : ∃ c l, n.chars = c :: l ∧ isBare c = true := by
  obtain ⟨c, l, h⟩ := List.exists_cons_of_ne_nil n.ne_nil
  exact ⟨c, l, h, n.bare c (by rw [h]; exact List.mem_cons_self)⟩

end BareName

theorem isBlank_of_isBare {c : Char} (h : isBare c = true) : isBlank c = false := by
  rw [isBlank, Bool.or_eq_false_iff]
  constructor <;> rw [beq_eq_false_iff_ne] <;> rintro rfl <;> revert h <;> decide

theorem name_eq (n : BareName) {r : List Char} (hr : Stops isBare r) :
    name (n.chars ++ r) = some (n.toString, r) := by
  obtain ⟨c, l, hn, hc⟩ := n.exists_cons
  have hl : ∀ c ∈ l, isBare c = true := fun c h => n.bare c (by rw [hn]; exact List.mem_cons_of_mem _ h)
  have hone : one isBare (c :: (l ++ r)) = some (c, l ++ r) := by
    rw [one, if_pos hc]
  rw [BareName.toString, hn, List.cons_append, name, bind_eq (peek_eq _), List.head?_cons]
  generalize hx : some c = x
  split
  · cases hx
    exact absurd hc (by decide)
  · cases hx
    exact absurd hc (by decide)
  · rw [bind_eq hone, bind_eq (many_eq hl hr)]
    rfl

/-- There is no blank in front of a name. -/
theorem stops_chars (n : BareName) (r : List Char) : Stops isBlank (n.chars ++ r) := by
  obtain ⟨c, l, hn, hc⟩ := n.exists_cons
  rw [hn]
  exact stops_cons (isBlank_of_isBare hc) _

section Keys

variable {s s' r : List Char} {c : Char}

/-- What stands behind a name and is no dot ends the key. -/
theorem furtherNames_none (hs : blanks s = some ((), c :: r)) (hc : c ≠ '.') (fuel : Nat) :
    furtherNames (fuel + 1) s = some ([], c :: r) := by
  rw [furtherNames, bind_eq hs, bind_eq (peek_eq _), List.head?_cons]
  generalize hx : some c = x
  split
  · cases hx
    exact absurd rfl hc
  · rfl

theorem key_of {first : String} {names : List String} (hs : blanks s = some ((), s'))
    (hname : name s' = some (first, r)) {r' : List Char}
    (hnames : furtherNames depthLimit r = some (names, r')) :
    key s = some (((first :: names).dropLast, (first :: names).getLastD first), r') := by
  rw [key, bind_eq hs, bind_eq hname, bind_eq hnames]
  rfl

/-- A blank may stand in front of a key. -/
theorem key_blank (hs : Stops isBlank s) : key (' ' :: s) = key s := by
  rw [key, bind_eq (blanks_one hs), bind_eq (blanks_none hs)]

theorem key_eq (n : BareName) (r : List Char) :
    key (n.chars ++ ' ' :: '=' :: r) = some (([], n.toString), '=' :: r) :=
  key_of (blanks_none (stops_chars n _)) (name_eq n (stops_cons (by decide) _))
    (furtherNames_none (blanks_one (stops_cons (by decide) r)) (by decide) 78)

theorem key_closed (n : BareName) (r : List Char) :
    key (n.chars ++ ']' :: r) = some (([], n.toString), ']' :: r) :=
  key_of (blanks_none (stops_chars n _)) (name_eq n (stops_cons (by decide) _))
    (furtherNames_none (blanks_none (stops_cons (by decide) r)) (by decide) 78)

theorem key_dotted (m n : BareName) (r : List Char) :
    key (m.chars ++ '.' :: (n.chars ++ ' ' :: '=' :: r)) =
      some (([m.toString], n.toString), '=' :: r) := by
  have hname := name_eq n (stops_cons (p := isBare) (c := ' ') (by decide) ('=' :: r))
  have hnone := furtherNames_none (blanks_one (stops_cons (c := '=') (by decide) r)) (by decide) 77
  have hnames : furtherNames depthLimit ('.' :: (n.chars ++ ' ' :: '=' :: r)) =
      some ([n.toString], '=' :: r) := by
    rw [depthLimit, furtherNames, bind_eq (blanks_none (stops_cons (by decide) _)),
      bind_eq (peek_eq _), List.head?_cons]
    show (char '.' >>= _) _ = _
    rw [bind_eq (char_eq _ _), bind_eq (blanks_none (stops_chars n _)), bind_eq hname, bind_eq hnone]
    rfl
  exact key_of (blanks_none (stops_chars m _)) (name_eq m (stops_cons (by decide) _)) hnames

end Keys

/-! ## Statements -/

/-- A name that is given a value. -/
structure Statement where
  name : BareName
  value : Value
  text : List Char
  isText : IsText value text

namespace Statement

/-- The statement behind a name or in braces. -/
def chars (st : Statement) : List Char := st.name.chars ++ ' ' :: '=' :: ' ' :: st.text

/-- What the statement adds to a table. -/
def entry (st : Statement) : String × Value := (st.name.toString, st.value)

end Statement

/-- A key with a value. -/
theorem pair_of {s s' r : List Char} {k : List String × String} {element : Reader Value} {v : Value}
    (hkey : key s = some (k, '=' :: ' ' :: s')) (hs' : Stops isBlank s')
    (hv : element s' = some (v, r)) : pair element s = some ((k, v), r) := by
  rw [pair, bind_eq hkey, bind_eq (char_eq _ _), bind_eq (blanks_one hs'), bind_eq hv]
  rfl

/-- A statement, whatever its key. -/
theorem Statement.pair_of (st : Statement) (depth : Nat) {s r : List Char} {k : List String × String}
    (hkey : key s = some (k, '=' :: ' ' :: (st.text ++ r))) (hr : Ends r) :
    pair (Toml.value depth) s = some ((k, st.value), r) := by
  obtain ⟨c, l, hl, hc⟩ := st.isText.begins
  refine Toml.pair_of hkey ?_ (st.isText.read_eq depth r hr)
  rw [hl]
  exact stops_cons hc _

/-! ## Tables in the making -/

/-- A name that is given last has not been given before. -/
theorem notMem_of_nodup {a : String} {l l' : List String} (h : (l ++ a :: l').Nodup) : a ∉ l :=
  fun hmem => (List.nodup_append.mp h).2.2 a hmem a List.mem_cons_self rfl

section Drafts

variable {entries : Entries} {name : String} {d d' : Draft} {v : Value}

theorem put_new (hnew : name ∉ entries.map Prod.fst) : put name d entries = entries ++ [(name, d)] := by
  induction entries with
  | nil => rfl
  | cons e entries ih =>
    rw [List.map_cons, List.mem_cons, not_or] at hnew
    rw [put, if_neg (by simpa using Ne.symm hnew.1), ih hnew.2]
    rfl

theorem put_last (hnew : name ∉ entries.map Prod.fst) :
    put name d (entries ++ [(name, d')]) = entries ++ [(name, d)] := by
  induction entries with
  | nil => simp [put]
  | cons e entries ih =>
    rw [List.map_cons, List.mem_cons, not_or] at hnew
    rw [List.cons_append, put, if_neg (by simpa using Ne.symm hnew.1), ih hnew.2]
    rfl

theorem lookup_new (hnew : name ∉ entries.map Prod.fst) : entries.lookup name = none := by
  refine List.lookup_eq_none_iff.mpr fun e he => ?_
  rw [bne_iff_ne]
  rintro rfl
  exact hnew (List.mem_map_of_mem he)

theorem lookup_last (hnew : name ∉ entries.map Prod.fst) :
    (entries ++ [(name, d)]).lookup name = some d := by
  rw [lookup_append_one _ _ _ _ (lookup_new hnew), if_pos rfl]

/-- A name is given a value in the table at hand. -/
theorem assign_new (hnew : name ∉ entries.map Prod.fst) (origin : Origin) (horigin : origin ≠ .dotted) :
    assign [] name v origin entries = some (entries ++ [(name, .value v)]) := by
  have hopen : ¬ ((origin == .dotted) == true || (entries.lookup name).isSome) = true := by
    rw [lookup_new hnew]
    cases origin with
    | dotted => exact absurd rfl horigin
    | _ => decide
  rw [assign, within, ← put_new hnew]
  exact if_neg hopen

/-- The first name of a table that dotted keys make. -/
theorem assign_dotted_new {m : String} (hm : m ∉ entries.map Prod.fst) :
    assign [m] name v .declared entries =
      some (entries ++ [(m, .table .dotted [(name, .value v)])]) := by
  rw [assign, within, lookup_new hm, ← put_new hm]
  rfl

/-- One more name of a table that dotted keys have made. -/
theorem assign_dotted_last {m : String} {inner : Entries} (hm : m ∉ entries.map Prod.fst)
    (hnew : name ∉ inner.map Prod.fst) :
    assign [m] name v .declared (entries ++ [(m, .table .dotted inner)]) =
      some (entries ++ [(m, .table .dotted (inner ++ [(name, .value v)]))]) := by
  rw [assign, within, lookup_last hm]
  simp only [within, lookup_new hnew, put_new hnew]
  exact congrArg some (put_last hm)

/-- One more name of the table under a header. -/
theorem assign_headed {m : String} {inner : Entries} (hm : m ∉ entries.map Prod.fst)
    (hnew : name ∉ inner.map Prod.fst) :
    within false (assign [] name v) [m] .declared (entries ++ [(m, .table .declared inner)]) =
      some (entries ++ [(m, .table .declared (inner ++ [(name, .value v)]))]) := by
  rw [within, lookup_last hm]
  simp only [within, assign_new hnew .declared (by decide)]
  exact congrArg some (put_last hm)

/-- A header that opens a new table. -/
theorem declare_new (hnew : name ∉ entries.map Prod.fst) :
    declare [] name entries = some (entries ++ [(name, .table .declared [])]) := by
  rw [declare, within, lookup_new hnew, ← put_new hnew]

end Drafts

/-! ## Lines -/

/-- In front of anything else the characters are lines that make one page of another. -/
def Turns (l : List Char) (page page' : Page) : Prop :=
  ∀ (r : List Char) (fuel : Nat), (l ++ r).length < fuel →
    ∃ fuel', r.length < fuel' ∧ lines fuel page (l ++ r) = lines fuel' page' r

section Lines

variable {page page' page'' : Page} {l l' : List Char}

theorem Turns.nil (page : Page) : Turns [] page page := fun _ fuel hfuel => ⟨fuel, hfuel, rfl⟩

theorem Turns.append (h : Turns l page page') (h' : Turns l' page' page'') :
    Turns (l ++ l') page page'' := by
  intro r fuel hfuel
  rw [List.append_assoc] at hfuel ⊢
  obtain ⟨fuel', hfuel', heq⟩ := h (l' ++ r) fuel hfuel
  obtain ⟨fuel'', hfuel'', heq'⟩ := h' r fuel' hfuel'
  exact ⟨fuel'', hfuel'', heq.trans heq'⟩

/-- A line that begins with a name. -/
theorem turns_assignment (n : BareName)
    (h : ∀ r, assignment page (n.chars ++ (l ++ r)) = some (page', r)) :
    Turns (n.chars ++ l) page page' := by
  obtain ⟨c, l₀, hn, hc⟩ := n.exists_cons
  intro r fuel hfuel
  obtain ⟨fuel, rfl⟩ : ∃ k, fuel = k + 1 := ⟨fuel - 1, by omega⟩
  have hr := h r
  rw [List.append_assoc] at hfuel ⊢
  refine ⟨fuel, ?_, ?_⟩
  · rw [hn, List.length_append, List.length_append, List.length_cons] at hfuel
    omega
  · rw [lines, bind_eq (blanks_none (stops_chars n _)), bind_eq (peek_eq _)]
    rw [hn] at hr ⊢
    rw [List.cons_append, List.head?_cons]
    generalize hx : some c = x
    split
    · cases hx
    · cases hx
      exact absurd hc (by decide)
    · cases hx
      exact absurd hc (by decide)
    · cases hx
      exact absurd hc (by decide)
    · cases hx
      exact absurd hc (by decide)
    · exact bind_eq hr

theorem restOfLine_eq (r : List Char) : restOfLine ('\n' :: r) = some ((), r) := by
  rw [restOfLine, bind_eq (blanks_none (stops_cons (by decide) r))]
  rfl

theorem turns_heading (h : ∀ r, heading page ('[' :: (l ++ r)) = some (page', r)) :
    Turns ('[' :: l) page page' := by
  intro r fuel hfuel
  obtain ⟨fuel, rfl⟩ : ∃ k, fuel = k + 1 := ⟨fuel - 1, by omega⟩
  rw [List.cons_append] at hfuel ⊢
  refine ⟨fuel, ?_, ?_⟩
  · rw [List.length_cons, List.length_append] at hfuel
    omega
  · rw [lines, bind_eq (blanks_none (stops_cons (by decide) _)), bind_eq (peek_eq _), List.head?_cons]
    exact bind_eq (h r)

/-- A line that gives a value to a name. -/
theorem assignment_of (page : Page) {s r : List Char} {k : List String × String} {v : Value}
    {entries : Entries}
    (hpair : pair (value depthLimit) s = some ((k, v), '\n' :: r))
    (hentries : Draft.within false (Draft.assign k.1 k.2 v) page.header .declared page.entries =
      some entries) : assignment page s = some ({ page with entries := entries }, r) := by
  obtain ⟨path, name⟩ := k
  rw [assignment, bind_eq hpair]
  dsimp only
  rw [bind_eq (restOfLine_eq r), bind_eq (lift_eq hentries r)]
  rfl

end Lines

/-! ## The three forms -/

/-- A table that is not empty and gives each of its names once. -/
structure Part where
  name : BareName
  statements : List Statement
  ne_nil : statements ≠ []
  nodup : (statements.map fun st => st.name.toString).Nodup

/-- The table itself. -/
def Part.table (p : Part) : Table := p.statements.map Statement.entry

/-- The name of the part with its table. -/
def Part.entry (p : Part) : String × Value := (p.name.toString, .table p.table)

/-- A line for each name, with the name of the table and a dot in front of it. -/
def Part.dotted (p : Part) : List Char :=
  p.statements.flatMap fun st => p.name.chars ++ ('.' :: (st.chars ++ ['\n']))

/-- A line for each name, under a header with the name of the table. -/
def Part.headed (p : Part) : List Char :=
  ('[' :: (p.name.chars ++ [']', '\n'])) ++ p.statements.flatMap fun st => st.chars ++ ['\n']

/-- Statements in braces, behind the brace that opens. -/
def closed : List Statement → List Char
  | [] => ['\x7d']
  | [st] => st.chars ++ [' ', '\x7d']
  | st :: rest => st.chars ++ (',' :: ' ' :: closed rest)

/-- One line, with the table in braces. -/
def Part.inline (p : Part) : List Char :=
  p.name.chars ++ (' ' :: '=' :: ' ' :: '\x7b' :: ' ' :: (closed p.statements ++ ['\n']))

/-- What statements come to in a table in the making. -/
def drafts (l : List Statement) : Entries := l.map fun st => (st.name.toString, .value st.value)

theorem finishAll_drafts (l : List Statement) : finishAll (drafts l) = l.map Statement.entry := by
  rw [finishAll_eq_map, drafts, List.map_map]
  refine List.map_congr_left fun st _ => ?_
  show (st.name.toString, (Draft.value st.value).finish) = st.entry
  rw [finish, Statement.entry]

section Forms

variable {page : Page} {p : Part}

/-- Lines that add one name each to a table add all of them. -/
theorem turns_statements {line : Statement → List Char} (pageOf : Entries → Page)
    (hline : ∀ (inner : Entries) (st : Statement), st.name.toString ∉ inner.map Prod.fst →
      Turns (line st) (pageOf inner) (pageOf (inner ++ [(st.name.toString, .value st.value)])))
    {l : List Statement} (inner : Entries)
    (hnodup : (inner.map Prod.fst ++ l.map fun st => st.name.toString).Nodup) :
    Turns (l.flatMap line) (pageOf inner) (pageOf (inner ++ drafts l)) := by
  induction l generalizing inner with
  | nil =>
    rw [drafts, List.map_nil, List.append_nil]
    exact .nil _
  | cons st l ih =>
    have hnew : st.name.toString ∉ inner.map Prod.fst := notMem_of_nodup hnodup
    have hrest := ih (inner ++ [(st.name.toString, .value st.value)]) (by
      rw [List.map_append, List.append_assoc]
      exact hnodup)
    rw [List.append_assoc] at hrest
    exact (hline inner st hnew).append hrest

/-- **By dotted keys.** -/
theorem turns_dotted (hheader : page.header = [])
    (hnew : p.name.toString ∉ page.entries.map Prod.fst) :
    Turns p.dotted page { page with
      entries := page.entries ++ [(p.name.toString, .table .dotted (drafts p.statements))] } := by
  obtain ⟨entries, header⟩ := page
  subst hheader
  -- the first line makes the table, the others add to it
  have hline : ∀ (old new : Entries) (st : Statement),
      assign [p.name.toString] st.name.toString st.value .declared old = some new →
        Turns (p.name.chars ++ ('.' :: (st.chars ++ ['\n']))) ⟨old, []⟩ ⟨new, []⟩ := by
    intro old new st hassign
    refine turns_assignment p.name fun r => ?_
    have hkey := key_dotted p.name st.name (' ' :: (st.text ++ '\n' :: r))
    have hpair := st.pair_of depthLimit hkey ⟨'\n', r, rfl, .inl rfl⟩
    have hturn := assignment_of ⟨old, []⟩ hpair hassign
    simpa only [Statement.chars, List.append_assoc, List.cons_append, List.nil_append] using hturn
  obtain ⟨st, l, hl⟩ := List.exists_cons_of_ne_nil p.ne_nil
  have hnodup := p.nodup
  rw [Part.dotted, hl, List.flatMap_cons]
  rw [hl] at hnodup
  refine (hline _ _ st (assign_dotted_new hnew)).append ?_
  exact turns_statements (fun inner => ⟨entries ++ [(p.name.toString, .table .dotted inner)], []⟩)
    (fun inner st hst => hline _ _ st (assign_dotted_last hnew hst))
    [(st.name.toString, .value st.value)] hnodup

/-- A blank may stand in front of a statement in braces. -/
theorem pairs_blank {s : List Char} (hs : Stops isBlank s) (element : Reader Value) (fuel : Nat)
    (entries : Entries) : pairs element fuel entries (' ' :: s) = pairs element fuel entries s := by
  cases fuel with
  | zero => rfl
  | succ fuel =>
    have hpair : pair element (' ' :: s) = pair element s := by
      show (key (' ' :: s) >>= _) = (key s >>= _)
      rw [key_blank hs]
    show (pair element (' ' :: s) >>= _) = (pair element s >>= _)
    rw [hpair]

/-- Statements in braces begin with a name. -/
theorem exists_closed_cons {l : List Statement} (hl : l ≠ []) :
    ∃ c l', closed l = c :: l' ∧ isBare c = true := by
  obtain ⟨st, l, rfl⟩ := List.exists_cons_of_ne_nil hl
  obtain ⟨c, l₀, hn, hc⟩ := st.name.exists_cons
  cases l with
  | nil => exact ⟨c, _, by rw [closed, Statement.chars, hn]; rfl, hc⟩
  | cons st' l =>
    refine ⟨c, l₀ ++ (' ' :: '=' :: ' ' :: st.text ++ (',' :: ' ' :: closed (st' :: l))), ?_, hc⟩
    show st.chars ++ (',' :: ' ' :: closed (st' :: l)) = _
    rw [Statement.chars, hn, List.cons_append, List.cons_append, List.append_assoc]

theorem stops_closed {l : List Statement} (hl : l ≠ []) (r : List Char) :
    Stops isBlank (closed l ++ r) := by
  obtain ⟨c, l', h, hc⟩ := exists_closed_cons hl
  rw [h]
  exact stops_cons (isBlank_of_isBare hc) _

theorem length_le_closed (l : List Statement) : l.length ≤ (closed l).length := by
  fun_induction closed l with
  | case1 => exact Nat.zero_le _
  | case2 st =>
    simp only [List.length_append, List.length_cons, List.length_nil]
    omega
  | case3 st rest _ ih =>
    simp only [List.length_append, List.length_cons]
    omega

/-- Statements in braces are read one after another. -/
theorem pairs_closed (depth : Nat) {l : List Statement} (inner : Entries) (hl : l ≠ [])
    (hnodup : (inner.map Prod.fst ++ l.map fun st => st.name.toString).Nodup) (r : List Char)
    {fuel : Nat} (hfuel : l.length ≤ fuel) :
    pairs (value depth) fuel inner (closed l ++ r) = some (inner ++ drafts l, r) := by
  induction l generalizing inner fuel with
  | nil => exact absurd rfl hl
  | cons st l ih =>
    obtain ⟨fuel, rfl⟩ : ∃ k, fuel = k + 1 := ⟨fuel - 1, by simp at hfuel; omega⟩
    have hnew : st.name.toString ∉ inner.map Prod.fst := notMem_of_nodup hnodup
    have hassign := assign_new (v := st.value) hnew .declared (by decide)
    cases l with
    | nil =>
      have hkey := key_eq st.name (' ' :: (st.text ++ ' ' :: '\x7d' :: r))
      have hpair := st.pair_of depth hkey ⟨' ', '\x7d' :: r, rfl, .inr (.inl rfl)⟩
      rw [closed, Statement.chars]
      simp only [List.append_assoc, List.cons_append, List.nil_append]
      rw [pairs, bind_eq hpair]
      dsimp only
      rw [bind_eq (lift_eq hassign _), bind_eq (blanks_one (stops_cons (by decide) _))]
      rfl
    | cons st' l =>
      have hkey := key_eq st.name (' ' :: (st.text ++ ',' :: ' ' :: (closed (st' :: l) ++ r)))
      have hpair := st.pair_of depth hkey ⟨',', _, rfl, .inr (.inr rfl)⟩
      have hrest := ih (inner ++ [(st.name.toString, .value st.value)]) nofun
        (by rwa [List.map_append, List.append_assoc]) (Nat.le_of_succ_le_succ hfuel)
      show pairs _ _ _ ((st.chars ++ (',' :: ' ' :: closed (st' :: l))) ++ r) = _
      rw [Statement.chars]
      simp only [List.append_assoc, List.cons_append]
      rw [pairs, bind_eq hpair]
      dsimp only
      rw [bind_eq (lift_eq hassign _), bind_eq (blanks_none (stops_cons (by decide) _)),
        bind_eq (peek_eq _), List.head?_cons]
      show (char ',' >>= _) _ = _
      rw [bind_eq (char_eq _ _), pairs_blank (stops_closed (List.cons_ne_nil st' l) r), hrest,
        List.append_assoc]
      rfl

/-- **In braces.** -/
theorem turns_inline (hheader : page.header = [])
    (hnew : p.name.toString ∉ page.entries.map Prod.fst) :
    Turns p.inline page { page with
      entries := page.entries ++ [(p.name.toString, .value (.table p.table))] } := by
  refine turns_assignment p.name fun r => ?_
  have hvalue : value depthLimit ('\x7b' :: ' ' :: (closed p.statements ++ '\n' :: r)) =
      some (.table p.table, '\n' :: r) := by
    obtain ⟨c, l, hl, hc⟩ := exists_closed_cons p.ne_nil
    have hfuel : p.statements.length ≤ (closed p.statements ++ '\n' :: r).length + 1 := by
      have := length_le_closed p.statements
      rw [List.length_append]
      omega
    have hpairs := pairs_closed 78 [] p.ne_nil p.nodup ('\n' :: r) hfuel
    rw [depthLimit, value, bind_eq (peek_eq _), List.head?_cons]
    show (char '\x7b' >>= _) _ = _
    rw [bind_eq (char_eq _ _), bind_eq (blanks_one (stops_closed p.ne_nil _)), bind_eq (peek_eq _)]
    rw [hl, List.cons_append] at hpairs ⊢
    rw [List.head?_cons]
    generalize hx : some c = x
    split
    · cases hx
      exact absurd hc (by decide)
    · show (enough >>= _) _ = _
      rw [bind_eq (a := (c :: (l ++ '\n' :: r)).length + 1) rfl, bind_eq hpairs, List.nil_append,
        finishAll_drafts]
      rfl
  have hkey := key_eq p.name (' ' :: '\x7b' :: ' ' :: (closed p.statements ++ '\n' :: r))
  have hpair := pair_of hkey (stops_cons (by decide) _) hvalue
  have hassign : Draft.within false (Draft.assign [] p.name.toString (.table p.table)) page.header
      .declared page.entries =
        some (page.entries ++ [(p.name.toString, .value (.table p.table))]) := by
    rw [hheader]
    exact assign_new hnew .declared (by decide)
  have hturn := assignment_of page hpair hassign
  simpa only [List.append_assoc, List.cons_append, List.nil_append] using hturn

/-- **Under a header.** -/
theorem turns_headed (hnew : p.name.toString ∉ page.entries.map Prod.fst) :
    Turns p.headed page {
      entries := page.entries ++ [(p.name.toString, .table .declared (drafts p.statements))]
      header := [p.name.toString] } := by
  have hheading : ∀ r, heading page ('[' :: ((p.name.chars ++ [']', '\n']) ++ r)) =
      some (⟨page.entries ++ [(p.name.toString, .table .declared [])], [p.name.toString]⟩, r) := by
    intro r
    have hsees : sees ['['] (p.name.chars ++ ']' :: '\n' :: r) =
        some (false, p.name.chars ++ ']' :: '\n' :: r) := by
      obtain ⟨c, l, hn, hc⟩ := p.name.exists_cons
      have hne : ('[' == c) = false := by
        rw [beq_eq_false_iff_ne]
        rintro rfl
        exact absurd hc (by decide)
      rw [sees, hn, List.cons_append, List.isPrefixOf_cons_cons, hne]
      rfl
    rw [List.append_assoc, heading, bind_eq (char_eq _ _)]
    show (sees ['['] >>= _) (p.name.chars ++ ']' :: '\n' :: r) = _
    rw [bind_eq hsees]
    simp only [Bool.false_eq_true, if_false]
    rw [bind_eq (key_closed p.name _)]
    dsimp only
    rw [bind_eq (char_eq _ _), bind_eq (restOfLine_eq r), bind_eq (lift_eq (declare_new hnew) r)]
    rfl
  refine (turns_heading hheading).append ?_
  refine turns_statements (fun inner => ⟨page.entries ++ [(p.name.toString, .table .declared inner)],
    [p.name.toString]⟩) (fun inner st hst => ?_) [] p.nodup
  rw [Statement.chars, List.append_assoc]
  refine turns_assignment st.name fun r => ?_
  have hkey := key_eq st.name (' ' :: (st.text ++ '\n' :: r))
  have hpair := st.pair_of depthLimit hkey ⟨'\n', r, rfl, .inl rfl⟩
  have hturn := assignment_of ⟨page.entries ++ [(p.name.toString, .table .declared inner)],
    [p.name.toString]⟩ hpair (assign_headed hnew hst)
  simpa only [List.append_assoc, List.cons_append, List.nil_append] using hturn

end Forms

/-! ## Documents -/

/-- A form of a table that leaves the header as it is. -/
inductive Form where
  | dotted
  | inline

/-- The lines of a table in a form. -/
def Part.write (p : Part) : Form → List Char
  | .dotted => p.dotted
  | .inline => p.inline

section Documents

variable {page page' page'' : Page} {l l' : List Char} {t t' : Table}

/-- In front of anything else the characters are lines that add entries to a page. -/
def Adds (l : List Char) (page : Page) (t : Table) (page' : Page) : Prop :=
  Turns l page page' ∧ finishAll page'.entries = finishAll page.entries ++ t

theorem Adds.append (h : Adds l page t page') (h' : Adds l' page' t' page'') :
    Adds (l ++ l') page (t ++ t') page'' := by
  refine ⟨h.1.append h'.1, ?_⟩
  rw [h'.2, h.2, List.append_assoc]

/-- A part whose draft is put behind the others. -/
theorem adds_of_turns {p : Part} {d : Draft} {header : List String} (hd : d.finish = .table p.table)
    (h : Turns l page ⟨page.entries ++ [(p.name.toString, d)], header⟩) :
    Adds l page [p.entry] ⟨page.entries ++ [(p.name.toString, d)], header⟩ := by
  refine ⟨h, ?_⟩
  rw [finishAll_eq_map, List.map_append, ← finishAll_eq_map, List.map_singleton, hd, Part.entry]

/-- **A table in a form of its own** is added. -/
theorem exists_adds_write {p : Part} (hheader : page.header = [])
    (hnew : p.name.toString ∉ (finishAll page.entries).map Prod.fst) (form : Form) :
    ∃ page', page'.header = [] ∧ Adds (p.write form) page [p.entry] page' := by
  rw [names_finishAll] at hnew
  cases form with
  | dotted =>
    refine ⟨⟨page.entries ++ [(p.name.toString, .table .dotted (drafts p.statements))], page.header⟩,
      hheader, adds_of_turns (l := p.dotted) ?_ (turns_dotted hheader hnew)⟩
    rw [finish, finishAll_drafts, Part.table]
  | inline =>
    refine ⟨⟨page.entries ++ [(p.name.toString, .value (.table p.table))], page.header⟩, hheader,
      adds_of_turns (l := p.inline) ?_ (turns_inline hheader hnew)⟩
    rw [finish]

/-- **A table under a header** is added. -/
theorem exists_adds_headed {p : Part} (hnew : p.name.toString ∉ (finishAll page.entries).map Prod.fst) :
    ∃ page', Adds p.headed page [p.entry] page' := by
  rw [names_finishAll] at hnew
  refine ⟨_, adds_of_turns ?_ (turns_headed hnew)⟩
  rw [finish, finishAll_drafts, Part.table]

/-- Tables that are added one after another are added all. What the pages must be like for it is kept on
the way. -/
theorem exists_adds_all {α : Type} {write : α → List Char} {part : α → Part} {P : Page → Prop}
    (hone : ∀ {page : Page} (a : α), P page →
      (part a).name.toString ∉ (finishAll page.entries).map Prod.fst →
        ∃ page', P page' ∧ Adds (write a) page [(part a).entry] page')
    {l : List α} (hpage : P page)
    (hnodup : ((finishAll page.entries).map Prod.fst ++ l.map fun a => (part a).name.toString).Nodup) :
    ∃ page', Adds (l.flatMap write) page (l.map fun a => (part a).entry) page' := by
  induction l generalizing page with
  | nil => exact ⟨page, .nil page, (List.append_nil _).symm⟩
  | cons a l ih =>
    obtain ⟨page', hpage', hadds⟩ := hone a hpage (notMem_of_nodup hnodup)
    obtain ⟨page'', hmore⟩ := ih hpage' (by
      rw [hadds.2, List.map_append, List.append_assoc]
      exact hnodup)
    exact ⟨page'', hadds.append hmore⟩

/-- The forms without a header begin with the name of the table. -/
theorem exists_write_cons (p : Part) (form : Form) :
    ∃ c l, p.write form = c :: l ∧ isBare c = true := by
  obtain ⟨c, l, hn, hc⟩ := p.name.exists_cons
  cases form with
  | dotted =>
    obtain ⟨st, rest, hl⟩ := List.exists_cons_of_ne_nil p.ne_nil
    exact ⟨c, _, by rw [Part.write, Part.dotted, hl, List.flatMap_cons, hn]; rfl, hc⟩
  | inline => exact ⟨c, _, by rw [Part.write, Part.inline, hn]; rfl, hc⟩

/-- No byte order mark stands in front of the tables. -/
theorem head?_ne_mark (early : List (Part × Form)) (late : List Part) :
    (early.flatMap (fun e => e.1.write e.2) ++ late.flatMap Part.headed).head? ≠ some '\uFEFF' := by
  cases early with
  | cons e early =>
    obtain ⟨c, l, h, hc⟩ := exists_write_cons e.1 e.2
    rw [List.flatMap_cons, h]
    rintro ⟨⟩
    exact absurd hc (by decide)
  | nil =>
    cases late with
    | nil =>
      show none ≠ some '\uFEFF'
      nofun
    | cons p late =>
      show some '[' ≠ some '\uFEFF'
      decide

/-- A document that turns the empty page into another comes to the table of that page. -/
theorem ofText?_of_turns (hl : l.head? ≠ some '\uFEFF') (h : Turns l {} page) :
    Table.ofText? (String.ofList l) = some (finishAll page.entries) := by
  obtain ⟨fuel, hfuel, hlines⟩ := h [] (l.length + 1) (by rw [List.append_nil]; exact Nat.lt_succ_self _)
  obtain ⟨fuel, rfl⟩ : ∃ k, fuel = k + 1 := ⟨fuel - 1, by omega⟩
  have hend : lines (fuel + 1) page [] = some (page, []) := by
    rw [lines, bind_eq (blanks_none (stops_nil isBlank)), bind_eq (peek_eq _)]
    rfl
  rw [List.append_nil, hend] at hlines
  rw [Table.ofText?, String.toList_ofList]
  split
  · exact absurd rfl hl
  · rw [hlines]
    rfl

/-- **A document of tables in all three forms** comes to the same table whatever the forms are. Tables
under headers stand behind the others. -/
theorem ofText?_forms (early : List (Part × Form)) (late : List Part)
    (hnodup : ((early.map Prod.fst ++ late).map fun p => p.name.toString).Nodup) :
    Table.ofText? (String.ofList (early.flatMap (fun e => e.1.write e.2) ++ late.flatMap Part.headed)) =
      some ((early.map Prod.fst ++ late).map Part.entry) := by
  rw [List.map_append, List.map_map] at hnodup
  have hempty : finishAll ({} : Page).entries = [] := rfl
  have hfirst : ((finishAll ({} : Page).entries).map Prod.fst ++
      early.map fun e => e.1.name.toString).Nodup := (List.nodup_append.mp hnodup).1
  obtain ⟨page, hearly⟩ := exists_adds_all (P := fun page => page.header = [])
    (fun e hheader hnew => exists_adds_write hheader hnew e.2) rfl hfirst
  have hnames : (finishAll page.entries).map Prod.fst = early.map fun e => e.1.name.toString := by
    rw [hearly.2, hempty, List.nil_append, List.map_map]
    rfl
  obtain ⟨page', hlate⟩ := exists_adds_all (P := fun _ => True)
    (fun _ _ hnew => (exists_adds_headed hnew).imp fun _ hadds => ⟨trivial, hadds⟩) trivial
    (by rw [hnames]; exact hnodup)
  have hadds := hearly.append hlate
  rw [ofText?_of_turns (head?_ne_mark early late) hadds.1, hadds.2, hempty, List.nil_append,
    List.map_append, List.map_map]
  rfl

end Documents

end SessionMux.Toml
