import SessionMux.Files.Directory
import SessionMux.Proofs.Files.Tree

/-!
# What making sure of a directory does to a tree

Making a directory adds one, and making it with all that is missing above it adds one after another;
nothing else changes. If no fault is reported, the path leads to a directory then, through directories,
with two exceptions: an empty path leads nowhere, and where a file stands in its place nothing is done
and nothing is said.

* `Node.Grows` — nothing was removed or changed, and what is new are directories on the way of a path.
* `of_makeDirectory`, `of_makeAll` — one directory, and all that are missing above it.
* **`ensured`** — what holds when no fault is reported.
* `not_ensured_directory` — a file in the place of the directory is passed over.
-/

namespace SessionMux.Files

namespace Node

/-- What was there is kept, and all that is new are directories on the way of a path. -/
structure Grows (p : Path) (old new : Node) : Prop where
  kept : old.Keeps new
  added : ∀ place x, old.holds? place = none → new.holds? place = some x →
    x = .directory ∧ ∃ q, q <+: p ∧ new.follow [] q = .ok place

theorem Grows.refl (p : Path) (root : Node) : root.Grows p root :=
  ⟨Keeps.refl root, fun place x hnone hsome => by rw [hnone] at hsome; cases hsome⟩

/-- What grows on the way of a path grows on the way of a longer one. -/
theorem Grows.trans {p q : Path} {a b c : Node} (h : a.Grows q b) (hq : q <+: p) (h' : b.Grows p c) :
    a.Grows p c := by
  refine ⟨h.kept.trans h'.kept, fun place x hnone hsome => ?_⟩
  cases hb : b.holds? place with
  | none => exact h'.added place x hb hsome
  | some y =>
    obtain ⟨rfl, r, hr, hfollow⟩ := h.added place y hnone hb
    have hx := h'.kept place _ hb
    rw [hsome] at hx
    exact ⟨Option.some.inj hx, r, hr.trans hq, h'.kept.follow hfollow⟩

/-! ## One directory -/

/-- Where the last piece of a path is to be made. -/
theorem site_eq_some {root : Node} {p : Path} {place : List String} {entries : List (String × Node)}
    {last : String} (h : root.site p = .ok (some (place, entries, last))) :
    p.isVoid = false ∧ p.trimmed.getLast? = some last ∧
      root.follow [] p.trimmed.dropLast = .ok place ∧ root.at? place = some (.directory entries) := by
  rw [site] at h
  cases hvoid : p.isVoid with
  | true =>
    rw [hvoid] at h
    cases h
  | false =>
    rw [hvoid] at h
    cases hlast : p.trimmed.getLast? with
    | none =>
      rw [hlast] at h
      cases h
    | some piece =>
      rw [hlast] at h
      cases hplace : root.follow [] p.trimmed.dropLast with
      | error e =>
        rw [hplace] at h
        cases h
      | ok place' =>
        rw [hplace] at h
        simp only [bind, Except.bind, Bool.false_eq_true, if_false] at h
        split at h
        · rename_i entries' hentries
          cases h
          exact ⟨rfl, rfl, rfl, hentries⟩
        · cases h

/-- A new directory under the last piece of a path is where the path leads. -/
theorem grows_add {root : Node} {p : Path} {place : List String} {entries : List (String × Node)}
    {last : String} (hvoid : p.isVoid = false) (hsound : p.isSound = true)
    (hlast : p.trimmed.getLast? = some last) (hplace : root.follow [] p.trimmed.dropLast = .ok place)
    (hentries : root.at? place = some (.directory entries)) (hdots : last ≠ "." ∧ last ≠ "..")
    (hlength : last.utf8ByteSize ≤ longestName) (hnew : entries.lookup last = none) :
    root.Grows p (add last (.directory []) place root) ∧
      (add last (.directory []) place root).LeadsTo p .directory := by
  have hadd := holds?_add hentries hnew
  have hnone : root.holds? (place ++ [last]) = none := by
    have hsome := isSome_lookup hentries last
    rw [hnew] at hsome
    exact Option.not_isSome_iff_eq_none.mp (by rw [← hsome]; simp)
  have hkept : root.Keeps (add last (.directory []) place root) := by
    intro q x hx
    rw [hadd, if_neg]
    · exact hx
    · rintro rfl
      rw [hnone] at hx
      cases hx
  have hmade : (add last (.directory []) place root).holds? (place ++ [last]) = some .directory := by
    rw [hadd, if_pos rfl]
  -- the last piece is a name: it is not empty, since it stands in front of the slashes at the end
  have hstay : staysHere last = false := by
    have hempty : last ≠ "" := fun h => p.getLast?_trimmed_ne (h ▸ hlast)
    simp [staysHere, hempty, hdots.1]
  have htrimmed : (add last (.directory []) place root).follow [] p.trimmed = .ok (place ++ [last]) := by
    obtain ⟨init, hinit⟩ := List.getLast?_eq_some_iff.mp hlast
    rw [hinit, List.dropLast_concat] at hplace
    rw [hinit]
    refine follow_append_iff.mpr ⟨place, hkept.follow hplace, ?_⟩
    exact follow_cons_iff.mpr ⟨hkept _ _ (holds?_eq_directory_iff.mpr ⟨entries, hentries⟩), _,
      .down hstay hdots.2 hlength (by rw [hmade]; rfl), rfl⟩
  obtain ⟨slashes, hp, hslashes⟩ := p.eq_trimmed_append
  have hfollow : (add last (.directory []) place root).follow [] p = .ok (place ++ [last]) := by
    rw [hp]
    refine follow_append_iff.mpr ⟨_, htrimmed, follow_of_stays hmade fun piece h => ?_⟩
    rw [hslashes piece h]
    rfl
  refine ⟨⟨hkept, fun q x hq hx => ?_⟩, hvoid, hsound, _, hfollow, hmade⟩
  rw [hadd] at hx
  split at hx
  · rename_i hplace'
    subst hplace'
    exact ⟨(Option.some.inj hx).symm, p, List.prefix_rfl, hfollow⟩
  · rw [hq] at hx
    cases hx

/-- **A directory that is made** is there, and is all that is new. -/
theorem of_makeDirectory {root root' : Node} {p : Path} (h : root.makeDirectory p = .ok root') :
    root.Grows p root' ∧ root'.LeadsTo p .directory := by
  rw [makeDirectory] at h
  split at h
  · cases h
  · rename_i hsound
    split at h
    · cases h
    · cases h
    · rename_i place entries last hsite
      obtain ⟨hvoid, hlast, hplace, hentries⟩ := site_eq_some hsite
      split at h
      · cases h
      · rename_i hdots
        split at h
        · cases h
        · rename_i hlength
          split at h
          · cases h
          · rename_i hnew
            cases h
            exact grows_add hvoid (by simpa using hsound) hlast hplace hentries (by simpa using hdots)
              (Nat.le_of_not_lt hlength) (Option.not_isSome_iff_eq_none.mp hnew)

end Node

/-! ## All that is missing -/

open Node

/-- A fault that counts for nothing. -/
theorem of_settled {root root' : Node} {p : Path} {attempt : Except IoFault Node}
    (h : settled root p attempt = (.ok (), root')) :
    attempt = .ok root' ∨ root' = root ∧ root.LeadsTo p .directory := by
  cases attempt with
  | ok made =>
    cases h
    exact .inl rfl
  | error e =>
    rw [settled] at h
    split at h
    · rename_i hd
      cases h
      exact .inr ⟨rfl, hasDirectory_iff.mp hd⟩
    · cases h

/-- An attempt at the directory itself that ends without a fault. -/
theorem of_settled_makeDirectory {root root' : Node} {p : Path}
    (h : settled root p (root.makeDirectory p) = (.ok (), root')) :
    root.Grows p root' ∧ root'.LeadsTo p .directory := by
  rcases of_settled h with hmade | ⟨rfl, hd⟩
  · exact of_makeDirectory hmade
  · exact ⟨Grows.refl p root', hd⟩

theorem makeAll_of_made {root root' : Node} {p : Path} (hvoid : p.isVoid = false)
    (h : root.makeDirectory p = .ok root') : makeAll root p = (.ok (), root') := by
  rw [makeAll, hvoid, h]
  rfl

/-- What is above comes first where it is missing. -/
theorem makeAll_of_missing {root root' root'' : Node} {p above : Path} (hvoid : p.isVoid = false)
    (hp : root.makeDirectory p = .error (.system .noSuchEntry)) (habove : p.parent? = some above)
    (hmade : makeAll root above = (.ok (), root')) (h : root'.makeDirectory p = .ok root'') :
    makeAll root p = (.ok (), root'') := by
  rw [makeAll, hvoid, hp]
  simp only [Bool.false_eq_true, if_false]
  split
  · rename_i hnone
    rw [habove] at hnone
    cases hnone
  · rename_i above' hsome
    rw [habove] at hsome
    cases hsome
    rw [hmade]
    simp only [h, settled]

/-- **Making a directory with all that is missing above it** adds directories on its way, and if no
fault is reported the path leads to one, or is empty. -/
theorem of_makeAll {root root' : Node} {p : Path} (h : makeAll root p = (.ok (), root')) :
    root.Grows p root' ∧ (p.isVoid = true ∧ root' = root ∨ root'.LeadsTo p .directory) := by
  -- upwards; the tree that the directories above have left is where the last attempt begins
  fun_induction makeAll root p generalizing root' with
  | case1 p hvoid =>
    cases h
    exact ⟨Grows.refl p root, .inl ⟨hvoid, rfl⟩⟩
  | case2 => cases h
  | case3 p hvoid attempt hmissing above habove root₁ hmade =>
    rename_i ih
    obtain ⟨hgrows, -⟩ := ih hmade
    obtain ⟨hgrows', hleads⟩ := of_settled_makeDirectory h
    exact ⟨hgrows.trans (Path.prefix_of_parent? habove) hgrows', .inr hleads⟩
  | case4 p hvoid attempt hmissing above habove hfailed => exact absurd h (hfailed root')
  | case5 p hvoid attempt =>
    obtain ⟨hgrows, hleads⟩ := of_settled_makeDirectory h
    exact ⟨hgrows, .inr hleads⟩

/-- **What holds when no fault is reported**: `old` is the tree before, and `new` the one after. -/
structure Ensured (old new : Node) (p : Path) : Prop where
  /-- The path leads to a directory, except if it is empty, or if it led to a file before. -/
  directory_iff : new.hasDirectory p = true ↔
    p.isVoid = false ∧ ∀ content, ¬ old.LeadsTo p (.file content)
  /-- What stands above it is there as well, and is a directory. -/
  ancestors : ∀ q : Path, q <+: p → q ≠ p → q.isVoid = false → new.hasDirectory q = true
  /-- Nothing that was there was removed or changed. -/
  kept : ∀ place x, old.holds? place = some x → new.holds? place = some x
  /-- What is new are directories on the way. -/
  added : ∀ place x, old.holds? place = none → new.holds? place = some x →
    x = .directory ∧ ∃ q, q <+: p ∧ new.follow [] q = .ok place
  /-- Where anything is at the path nothing is done, … -/
  passedOver : old.has p = true → new = old
  /-- … so that to make sure again reports no fault and changes nothing. -/
  again : ensureDirectory new p = (.ok (), new)

/-- A path leads to one thing only. -/
theorem Node.LeadsTo.unique {root : Node} {p : Path} {x y : Holding} (hx : root.LeadsTo p x)
    (hy : root.LeadsTo p y) : x = y := by
  obtain ⟨-, -, place, hplace, hx⟩ := hx
  obtain ⟨-, -, place', hplace', hy⟩ := hy
  rw [hplace] at hplace'
  cases hplace'
  exact Option.some.inj (hx.symm.trans hy)

/-- Nothing stands in front of the one piece of an empty path but an empty path. -/
theorem isVoid_of_front {p q : Path} (h : p.isVoid = true) (hq : q <+: p) (hne : q ≠ p) :
    q.isVoid = true := by
  obtain ⟨rest, rfl⟩ := hq
  cases q with
  | nil => rfl
  | cons piece q =>
    -- two pieces are too many, so there is no rest
    have hrest : q ++ rest = [] := by simp_all [Path.isVoid]
    rw [(List.append_eq_nil_iff.mp hrest).2, List.append_nil] at hne
    exact absurd rfl hne

/-- **To make sure of a directory** is to find something at its path, or to make it with all that is
missing above it. -/
theorem ensured {old new : Node} {p : Path} (h : ensureDirectory old p = (.ok (), new)) :
    Ensured old new p := by
  rw [ensureDirectory] at h
  by_cases hhas : old.has p = true
  · rw [if_pos hhas] at h
    cases h
    obtain ⟨x, hx⟩ := has_iff.mp hhas
    have hdirectory : old.hasDirectory p = true ↔
        p.isVoid = false ∧ ∀ content, ¬ old.LeadsTo p (.file content) := by
      rw [hasDirectory_iff]
      constructor
      · exact fun hd => ⟨hd.1, fun content hfile => nomatch hd.unique hfile⟩
      · rintro ⟨-, hfile⟩
        cases x with
        | file content => exact absurd hx (hfile content)
        | directory => exact hx
    exact {
      directory_iff := hdirectory
      ancestors := fun q hq hne hvoid => hasDirectory_iff.mpr (hx.ancestor hq hne hvoid)
      kept := fun _ _ h => h
      added := (Grows.refl p old).added
      passedOver := fun _ => rfl
      again := if_pos hhas }
  · rw [if_neg hhas] at h
    have hnothing : ∀ x, ¬ old.LeadsTo p x := fun x hx => hhas (has_iff.mpr ⟨x, hx⟩)
    obtain ⟨hgrows, ⟨hvoid, rfl⟩ | hmade⟩ := of_makeAll h
    · exact {
        directory_iff := by
          rw [hasDirectory_iff, hvoid]
          exact ⟨fun hd => absurd hd (hnothing _), nofun⟩
        ancestors := fun q hq hne hq' => by
          rw [isVoid_of_front hvoid hq hne] at hq'
          cases hq'
        kept := hgrows.kept
        added := hgrows.added
        passedOver := fun h => absurd h hhas
        again := by rw [ensureDirectory, if_neg hhas, h] }
    · exact {
        directory_iff := by
          rw [hasDirectory_iff]
          exact ⟨fun hd => ⟨hd.1, fun content => hnothing _⟩, fun _ => hmade⟩
        ancestors := fun q hq hne hq' => hasDirectory_iff.mpr (hmade.ancestor hq hne hq')
        kept := hgrows.kept
        added := hgrows.added
        passedOver := fun h => absurd h hhas
        again := if_pos (has_iff.mpr ⟨_, hmade⟩) }

/-- Two directories at once, in an empty tree. -/
theorem ensured_nested :
    ensureDirectory (.directory []) ["a", "b"] =
        (.ok (), .directory [("a", .directory [("b", .directory [])])]) ∧
      Ensured (.directory []) (.directory [("a", .directory [("b", .directory [])])]) ["a", "b"] := by
  have hnowhere : (directory []).follow [] ["a", "b"] = .error .noSuchEntry := rfl
  have hnot : (directory []).has ["a", "b"] = false := by
    rw [has, find?, hnowhere]
    simp [Path.isSound, Path.isVoid]
  have hmissing : (directory []).makeDirectory ["a", "b"] = .error (.system .noSuchEntry) := by
    simp [makeDirectory, Path.isSound, site, Path.isVoid, Path.trimmed, follow, staysHere, at?]
    rfl
  have hfirst : (directory []).makeDirectory ["a"] = .ok (.directory [("a", .directory [])]) := by
    simp [makeDirectory, Path.isSound, site, Path.isVoid, Path.trimmed, follow]
    rfl
  have hsecond : (directory [("a", .directory [])]).makeDirectory ["a", "b"] =
      .ok (.directory [("a", .directory [("b", .directory [])])]) := by
    simp [makeDirectory, Path.isSound, site, Path.isVoid, Path.trimmed, follow, staysHere, at?]
    rfl
  have hmade : ensureDirectory (.directory []) ["a", "b"] =
      (.ok (), .directory [("a", .directory [("b", .directory [])])]) := by
    rw [ensureDirectory, hnot]
    exact makeAll_of_missing rfl hmissing rfl (makeAll_of_made rfl hfirst) hsecond
  exact ⟨hmade, ensured hmade⟩

/-- **A file in the place of the directory is passed over**: no fault is reported, and there is no
directory. -/
theorem not_ensured_directory : ¬ ∀ (old new : Node) (p : Path),
    ensureDirectory old p = (.ok (), new) → new.hasDirectory p = true := by
  intro h
  have hfile : LeadsTo (.directory [("a", .file .empty)]) ["a"] (.file .empty) :=
    ⟨rfl, by simp [Path.isSound], ["a"],
      follow_cons_iff.mpr ⟨rfl, ["a"], .down (by decide) (by decide) (by decide) rfl, rfl⟩, rfl⟩
  have hpassed : ensureDirectory (.directory [("a", .file .empty)]) ["a"] =
      (.ok (), .directory [("a", .file .empty)]) := if_pos (has_iff.mpr ⟨_, hfile⟩)
  cases hfile.unique (hasDirectory_iff.mp (h _ _ _ hpassed))

end SessionMux.Files
