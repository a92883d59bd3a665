import SessionMux.SystemFault

/-!
# A tree of files and directories

The part of a file system that the program sees: directories with named entries, and files with
contents. There are no links, and everything may be read and written.

A path is what stands between its slashes, so that an absolute path begins with an empty piece. A
relative path starts at the root, which is the working directory.

* `Node.at?` — the entry at the end of a chain of names.
* `Node.follow` — where a path leads, or the fault on the way.
* `Node.makeDirectory`, `Node.openFile` — the two calls that add entries.
-/

namespace SessionMux.Files

/-- A file or a directory. -/
inductive Node where
  | file (content : ByteArray)
  | directory (entries : List (String × Node))

/-- The pieces of a path. -/
abbrev Path : Type := List String

/-- The pieces between the slashes of a text. -/
def Path.ofString (s : String) : Path := s.splitOn "/"

/-- The path is empty as a text. It names nothing. -/
def Path.isVoid (p : Path) : Bool := p == [] || p == [""]

/-- A piece that leads nowhere else: nothing at all, or a dot. -/
def staysHere (piece : String) : Bool := piece == "" || piece == "."

/-- A path without the last name on it, and without what stays in the same place before and behind
that name. -/
def Path.parent? (p : Path) : Option Path :=
  match p.reverse.dropWhile staysHere with
  | [] => none
  | _ :: rest => some (rest.dropWhile staysHere).reverse

theorem Path.length_of_parent? {p q : Path} (h : p.parent? = some q) : q.length < p.length := by
  unfold Path.parent? at h
  split at h
  · cases h
  · rename_i x rest heq
    cases h
    have hs := (List.dropWhile_sublist (l := p.reverse) staysHere).length_le
    have hr := (List.dropWhile_sublist (l := rest) staysHere).length_le
    rw [heq] at hs
    simp at hs
    simp
    omega

/-- A path without the slashes at its end. -/
def Path.trimmed (p : Path) : Path := (p.reverse.dropWhile (· == "")).reverse

/-- What is said of a path with a character that no name can have. -/
def nulInPath : IoFault := .said .invalidInput "file name contained an unexpected NUL byte"

/-- The path can be handed to the system. -/
def Path.isSound (p : Path) : Bool := p.all fun piece => !piece.contains '\x00'

/-- The most bytes of a name. -/
def longestName : Nat := 255

namespace Node

/-- The node is a directory. -/
def isDirectory : Node → Bool
  | .directory _ => true
  | .file _ => false

/-- The entry at the end of a chain of names. -/
def at? : List String → Node → Option Node
  | [], n => some n
  | name :: place, .directory entries => (entries.lookup name).bind (at? place)
  | _ :: _, .file _ => none

/-- Changes the first entry of a name. -/
def change (name : String) (f : Node → Node) : List (String × Node) → List (String × Node)
  | [] => []
  | e :: rest => if e.1 == name then (e.1, f e.2) :: rest else e :: change name f rest

/-- Adds an entry to the directory at the end of a chain of names. -/
def add (name : String) (new : Node) : List String → Node → Node
  | [], .directory entries => .directory (entries ++ [(name, new)])
  | step :: place, .directory entries => .directory (change step (add name new place) entries)
  | _, n => n

/-- Where a path leads from a place: each piece must find a directory, and each name an entry. -/
def follow (root : Node) : List String → Path → Except SystemError (List String)
  | place, [] => .ok place
  | place, piece :: path =>
    match root.at? place with
    | some (.directory entries) =>
      if staysHere piece then follow root place path
      else if piece == ".." then follow root place.dropLast path
      else if longestName < piece.utf8ByteSize then .error .nameTooLong
      else if (entries.lookup piece).isSome then follow root (place ++ [piece]) path
      else .error .noSuchEntry
    | _ => .error .notADirectory

/-- The entry that a path names. -/
def find? (root : Node) (p : Path) : Option Node :=
  if p.isVoid || !p.isSound then none
  else match root.follow [] p with
    | .ok place => root.at? place
    | .error _ => none

/-- A path names something. -/
def has (root : Node) (p : Path) : Bool := (root.find? p).isSome

/-- A path names a directory. -/
def hasDirectory (root : Node) (p : Path) : Bool := (root.find? p).any isDirectory

/-- The directory in which the last piece of a path is to be made: its place, its entries, and the
piece. Slashes at the end do not count. There is no last piece in the path of the root. -/
def site (root : Node) (p : Path) :
    Except SystemError (Option (List String × List (String × Node) × String)) := do
  if p.isVoid then throw .noSuchEntry
  match p.trimmed.getLast? with
  | none => return none
  | some last =>
    let place ← root.follow [] p.trimmed.dropLast
    match root.at? place with
    | some (.directory entries) => return some (place, entries, last)
    | _ => throw .notADirectory

/-- Makes one directory, in a directory that is there. -/
def makeDirectory (root : Node) (p : Path) : Except IoFault Node :=
  if !p.isSound then .error nulInPath
  else match root.site p with
    | .error e => .error (.system e)
    | .ok none => .error (.system .exists)
    | .ok (some (place, entries, last)) =>
      if last == "." || last == ".." then .error (.system .exists)
      else if longestName < last.utf8ByteSize then .error (.system .nameTooLong)
      else if (entries.lookup last).isSome then .error (.system .exists)
      else .ok (add last (.directory []) place root)

/-- Opens a file for writing at its end, and makes it if it is not there. -/
def openFile (root : Node) (p : Path) : Except IoFault Node :=
  if !p.isSound then .error nulInPath
  else match root.site p with
    | .error e => .error (.system e)
    | .ok none => .error (.system .isADirectory)
    | .ok (some (place, entries, last)) =>
      if last == "." || last == ".." || p.getLast? == some "" then .error (.system .isADirectory)
      else if longestName < last.utf8ByteSize then .error (.system .nameTooLong)
      else match entries.lookup last with
        | some (.directory _) => .error (.system .isADirectory)
        | some (.file _) => .ok root
        | none => .ok (add last (.file .empty) place root)

end Node

end SessionMux.Files
