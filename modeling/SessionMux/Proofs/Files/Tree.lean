import SessionMux.Files.Tree
import SessionMux.Proofs.Lookup

/-!
# What the places of a tree hold

A tree of files and directories is, seen from outside, a function from places to what they hold: a
file with its content, a directory, or nothing. Where a path leads depends on that function alone, and
a tree in which nothing was removed or changed leads a path at least as far.

* `Node.holds?` — what a place holds.
* `Node.Keeps` — what was there is there, and is what it was.
* **`holds?_add`** — a new directory changes one place and no other.
* `follow_cons_iff`, `Keeps.follow` — a path is followed by what the places hold.
* `Path.eq_trimmed_append` — slashes at the end of a path lead nowhere else.
-/

namespace SessionMux.Files

/-- What a place holds. -/
inductive Holding where
  | file (content : ByteArray)
  | directory

/-- A node without what is below it. -/
def Node.holding : Node → Holding
  | .file content => .file content
  | .directory _ => .directory

namespace Node

/-- What the place at the end of a chain of names holds. -/
def holds? (root : Node) (place : List String) : Option Holding := (root.at? place).map holding

/-- **Nothing was removed or changed**: every place that held something holds the same. -/
def Keeps (old new : Node) : Prop :=
  ∀ place h, old.holds? place = some h → new.holds? place = some h

theorem Keeps.refl (root : Node) : root.Keeps root := fun _ _ h => h

theorem Keeps.trans {a b c : Node} (h : a.Keeps b) (h' : b.Keeps c) : a.Keeps c :=
  fun place x hx => h' place x (h place x hx)

theorem holds?_eq_directory_iff {root : Node} {place : List String} :
    root.holds? place = some .directory ↔ ∃ entries, root.at? place = some (.directory entries) := by
  rw [holds?, Option.map_eq_some_iff]
  constructor
  · rintro ⟨n, hn, hd⟩
    cases n with
    | file content => cases hd
    | directory entries => exact ⟨entries, hn⟩
  · rintro ⟨entries, h⟩
    exact ⟨.directory entries, h, rfl⟩

theorem at?_append (root : Node) (place q : List String) :
    root.at? (place ++ q) = (root.at? place).bind (at? q) := by
  induction place generalizing root with
  | nil => rfl
  | cons name place ih =>
    cases root with
    | file content => rfl
    | directory entries =>
      show (entries.lookup name).bind (at? (place ++ q)) =
        ((entries.lookup name).bind (at? place)).bind (at? q)
      cases entries.lookup name with
      | none => rfl
      | some n => exact ih n

/-- A directory has an entry of a name exactly if the place of that name holds something. -/
theorem isSome_lookup {root : Node} {place : List String} {entries : List (String × Node)}
    (h : root.at? place = some (.directory entries)) (name : String) :
    (entries.lookup name).isSome = (root.holds? (place ++ [name])).isSome := by
  rw [holds?, at?_append, h, Option.isSome_map]
  show _ = ((entries.lookup name).bind (at? [])).isSome
  cases entries.lookup name <;> rfl

/-! ## A new directory -/

theorem lookup_change (name step : String) (f : Node → Node) (entries : List (String × Node)) :
    (change step f entries).lookup name =
      if name = step then (entries.lookup name).map f else entries.lookup name := by
  induction entries with
  | nil => rw [change, List.lookup_nil, Option.map_none, ite_self]
  | cons e rest ih =>
    obtain ⟨key, n⟩ := e
    rw [change]
    by_cases hk : key = step
    · subst hk
      rw [if_pos (beq_self_eq_true key), lookup_cons_if, lookup_cons_if]
      by_cases hn : name = key
      · simp only [if_pos hn, Option.map_some]
      · simp only [if_neg hn]
    · rw [if_neg (by simpa using hk), lookup_cons_if, lookup_cons_if, ih]
      by_cases hn : name = key
      · simp only [if_pos hn, if_neg (hn ▸ hk)]
      · simp only [if_neg hn]

/-- **A new directory changes one place**: its own, which held nothing. -/
theorem holds?_add {root : Node} {place : List String} {entries : List (String × Node)} {name : String}
    (h : root.at? place = some (.directory entries)) (hn : entries.lookup name = none)
    (q : List String) :
    (add name (.directory []) place root).holds? q =
      if q = place ++ [name] then some .directory else root.holds? q := by
  induction place generalizing root q with
  | nil =>
    cases h
    cases q with
    | nil => rfl
    | cons s q =>
      show (((entries ++ [(name, directory [])]).lookup s).bind (at? q)).map holding = _
      rw [lookup_append_one s name _ _ hn]
      by_cases hs : s = name
      · subst hs
        cases q with
        | nil => simp [at?, holding]
        | cons t q => simp [holds?, at?, hn]
      · simp [hs, holds?, at?]
  | cons step place ih =>
    cases root with
    | file content => cases h
    | directory es =>
      obtain ⟨child, hchild, hplace⟩ := Option.bind_eq_some_iff.mp h
      cases q with
      | nil => rfl
      | cons s q =>
        show (((change step (add name (directory []) place) es).lookup s).bind (at? q)).map holding = _
        rw [lookup_change]
        by_cases hs : s = step
        · subst hs
          have hih := ih hplace q
          simp only [holds?] at hih
          simp [holds?, at?, hchild, hih]
        · simp [hs, holds?, at?]

/-! ## Following a path -/

/-- Where one piece of a path leads from a directory. -/
inductive Leads (root : Node) (place : List String) (piece : String) : List String → Prop
  | here (hstay : staysHere piece = true) : Leads root place piece place
  | up (hstay : staysHere piece = false) (hup : piece = "..") : Leads root place piece place.dropLast
  | down (hstay : staysHere piece = false) (hup : piece ≠ "..")
      (hlength : piece.utf8ByteSize ≤ longestName)
      (hsome : (root.holds? (place ++ [piece])).isSome = true) :
      Leads root place piece (place ++ [piece])

/-- **A path is followed by what the places hold**: from a directory, piece by piece. -/
theorem follow_cons_iff {root : Node} {place place' : List String} {piece : String} {path : Path} :
    root.follow place (piece :: path) = .ok place' ↔
      root.holds? place = some .directory ∧
        ∃ next, root.Leads place piece next ∧ root.follow next path = .ok place' := by
  constructor
  · intro h
    rw [follow] at h
    split at h
    · rename_i entries hentries
      refine ⟨holds?_eq_directory_iff.mpr ⟨entries, hentries⟩, ?_⟩
      split at h
      · rename_i hstay
        exact ⟨_, .here hstay, h⟩
      · rename_i hstay
        have hstay : staysHere piece = false := by simpa using hstay
        split at h
        · rename_i hup
          exact ⟨_, .up hstay (by simpa using hup), h⟩
        · rename_i hup
          split at h
          · cases h
          · rename_i hlength
            split at h
            · rename_i hsome
              rw [isSome_lookup hentries] at hsome
              exact ⟨_, .down hstay (by simpa using hup) (Nat.le_of_not_lt hlength) hsome, h⟩
            · cases h
    · cases h
  · rintro ⟨hd, next, hleads, hnext⟩
    obtain ⟨entries, hentries⟩ := holds?_eq_directory_iff.mp hd
    rw [follow, hentries]
    cases hleads with
    | here hstay => simpa [hstay] using hnext
    | up hstay hup =>
      subst hup
      simpa [hstay] using hnext
    | down hstay hup hlength hsome =>
      rw [← isSome_lookup hentries] at hsome
      simpa [hstay, hup, Nat.not_lt.mpr hlength, hsome] using hnext

theorem Keeps.leads {old new : Node} (hkeeps : old.Keeps new) {place next : List String}
    {piece : String} (h : old.Leads place piece next) : new.Leads place piece next := by
  cases h with
  | here hstay => exact .here hstay
  | up hstay hup => exact .up hstay hup
  | down hstay hup hlength hsome =>
    obtain ⟨x, hx⟩ := Option.isSome_iff_exists.mp hsome
    exact .down hstay hup hlength (by rw [hkeeps _ _ hx]; rfl)

/-- **A tree that keeps what there was leads a path where it led before.** -/
theorem Keeps.follow {old new : Node} (hkeeps : old.Keeps new) {place place' : List String} {p : Path}
    (h : old.follow place p = .ok place') : new.follow place p = .ok place' := by
  induction p generalizing place with
  | nil => exact h
  | cons piece path ih =>
    obtain ⟨hd, next, hleads, hnext⟩ := follow_cons_iff.mp h
    exact follow_cons_iff.mpr ⟨hkeeps _ _ hd, next, hkeeps.leads hleads, ih hnext⟩

/-- A path in two parts is followed part by part. -/
theorem follow_append_iff {root : Node} {place place' : List String} {p q : Path} :
    root.follow place (p ++ q) = .ok place' ↔
      ∃ mid, root.follow place p = .ok mid ∧ root.follow mid q = .ok place' := by
  induction p generalizing place with
  | nil =>
    constructor
    · exact fun h => ⟨place, rfl, h⟩
    · rintro ⟨mid, hmid, h⟩
      cases hmid
      exact h
  | cons piece path ih =>
    rw [List.cons_append, follow_cons_iff]
    constructor
    · rintro ⟨hd, next, hleads, h⟩
      obtain ⟨mid, hmid, hrest⟩ := ih.mp h
      exact ⟨mid, follow_cons_iff.mpr ⟨hd, next, hleads, hmid⟩, hrest⟩
    · rintro ⟨mid, hmid, hrest⟩
      obtain ⟨hd, next, hleads, h⟩ := follow_cons_iff.mp hmid
      exact ⟨hd, next, hleads, ih.mpr ⟨mid, h, hrest⟩⟩

/-- Pieces that stay are followed in any directory. -/
theorem follow_of_stays {root : Node} {place : List String} {q : Path}
    (hd : root.holds? place = some .directory) (hq : ∀ piece ∈ q, staysHere piece = true) :
    root.follow place q = .ok place := by
  induction q with
  | nil => rfl
  | cons piece path ih =>
    have hpath := ih fun x hx => hq x (List.mem_cons_of_mem _ hx)
    exact follow_cons_iff.mpr ⟨hd, place, .here (hq piece List.mem_cons_self), hpath⟩

/-! ## What a path names -/

/-- A path that can be handed to the system and is not empty leads to what a place holds. -/
theorem find?_eq_some_iff {root n : Node} {p : Path} :
    root.find? p = some n ↔ p.isVoid = false ∧ p.isSound = true ∧
      ∃ place, root.follow [] p = .ok place ∧ root.at? place = some n := by
  rw [find?]
  split
  · rename_i h
    simp only [Bool.or_eq_true, Bool.not_eq_true'] at h
    constructor
    · nofun
    · rintro ⟨hvoid, hsound, -⟩
      rcases h with h | h
      · rw [hvoid] at h
        cases h
      · rw [hsound] at h
        cases h
  · rename_i h
    simp only [Bool.or_eq_true, Bool.not_eq_true', not_or, Bool.not_eq_true, Bool.not_eq_false] at h
    split
    · rename_i place hplace
      exact ⟨fun hn => ⟨h.1, h.2, place, hplace, hn⟩, fun ⟨_, _, place', h', hn⟩ => by
        rw [hplace] at h'
        cases h'
        exact hn⟩
    · rename_i e he
      exact ⟨nofun, fun ⟨_, _, place', h', _⟩ => by rw [he] at h'; cases h'⟩

/-- A path leads to something: where, and what it is. -/
def LeadsTo (root : Node) (p : Path) (x : Holding) : Prop :=
  p.isVoid = false ∧ p.isSound = true ∧
    ∃ place, root.follow [] p = .ok place ∧ root.holds? place = some x

theorem has_iff {root : Node} {p : Path} : root.has p = true ↔ ∃ x, root.LeadsTo p x := by
  rw [has, Option.isSome_iff_exists]
  constructor
  · rintro ⟨n, hn⟩
    obtain ⟨hvoid, hsound, place, hplace, hat⟩ := find?_eq_some_iff.mp hn
    exact ⟨n.holding, hvoid, hsound, place, hplace, by rw [holds?, hat]; rfl⟩
  · rintro ⟨x, hvoid, hsound, place, hplace, hx⟩
    obtain ⟨n, hn, -⟩ := Option.map_eq_some_iff.mp hx
    exact ⟨n, find?_eq_some_iff.mpr ⟨hvoid, hsound, place, hplace, hn⟩⟩

theorem hasDirectory_iff {root : Node} {p : Path} :
    root.hasDirectory p = true ↔ root.LeadsTo p .directory := by
  rw [hasDirectory, Option.any_eq_true]
  constructor
  · rintro ⟨n, hn, hd⟩
    obtain ⟨hvoid, hsound, place, hplace, hat⟩ := find?_eq_some_iff.mp hn
    cases n with
    | file content => cases hd
    | directory entries =>
      exact ⟨hvoid, hsound, place, hplace, holds?_eq_directory_iff.mpr ⟨entries, hat⟩⟩
  · rintro ⟨hvoid, hsound, place, hplace, hx⟩
    obtain ⟨entries, hat⟩ := holds?_eq_directory_iff.mp hx
    exact ⟨_, find?_eq_some_iff.mpr ⟨hvoid, hsound, place, hplace, hat⟩, rfl⟩

/-- **A path that leads somewhere leads through directories**: all that stands in front of its last
piece is one. -/
theorem LeadsTo.ancestor {root : Node} {p q : Path} {x : Holding} (h : root.LeadsTo p x)
    (hq : q <+: p) (hne : q ≠ p) (hvoid : q.isVoid = false) : root.LeadsTo q .directory := by
  obtain ⟨-, hsound, place, hplace, -⟩ := h
  obtain ⟨rest, rfl⟩ := hq
  obtain ⟨mid, hmid, hrest⟩ := follow_append_iff.mp hplace
  have hqsound : q.isSound = true := by
    rw [Path.isSound, List.all_append, Bool.and_eq_true] at hsound
    exact hsound.1
  refine ⟨hvoid, hqsound, mid, hmid, ?_⟩
  cases rest with
  | nil => exact absurd (List.append_nil q).symm hne
  | cons piece rest => exact (follow_cons_iff.mp hrest).1

end Node

/-! ## The end of a path -/

namespace Path

/-- Slashes at the end of a path are empty pieces. -/
theorem eq_trimmed_append (p : Path) :
    ∃ slashes : Path, p = p.trimmed ++ slashes ∧ ∀ piece ∈ slashes, piece = "" := by
  refine ⟨(p.reverse.takeWhile (· == "")).reverse, ?_, fun piece h => ?_⟩
  · rw [trimmed, ← List.reverse_append, List.takeWhile_append_dropWhile, List.reverse_reverse]
  · have hall := List.all_eq_true.mp List.all_takeWhile piece (List.mem_reverse.mp h)
    exact beq_iff_eq.mp hall

/-- The last piece in front of them is not. -/
theorem getLast?_trimmed_ne (p : Path) : p.trimmed.getLast? ≠ some "" := by
  rw [trimmed, List.getLast?_reverse]
  intro h
  have hhead := List.head?_dropWhile_not (· == "") p.reverse
  rw [h] at hhead
  simp at hhead

/-- What is above a path stands in front of it. -/
theorem prefix_of_parent? {p above : Path} (h : p.parent? = some above) : above <+: p := by
  rw [parent?] at h
  split at h
  · cases h
  · rename_i x rest hrest
    cases h
    have hsuffix : rest.dropWhile staysHere <:+ p.reverse :=
      ((List.dropWhile_suffix _).trans (List.suffix_cons x rest)).trans
        (hrest ▸ List.dropWhile_suffix _)
    have habove := List.reverse_prefix.mpr hsuffix
    rwa [List.reverse_reverse] at habove

end Path

end SessionMux.Files
