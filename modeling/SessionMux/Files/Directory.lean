import SessionMux.Files.Tree

/-!
# Making sure of a directory

A directory that is not there is made, with all directories above it that are missing. What is
already there stays as it is, a fault in the middle leaves the directories made before it, and a
path to something that exists, whatever it is, asks for nothing.
-/

namespace SessionMux.Files

/-- What a call answers, with the tree that it leaves. -/
abbrev Outcome : Type := Except IoFault Unit × Node

/-- What is said when not even the top of a path can be made. -/
def nothingAbove : IoFault := .said .other "failed to create whole tree"

/-- A fault does not count where there is a directory all the same. -/
def settled (root : Node) (p : Path) : Except IoFault Node → Outcome
  | .ok root => (.ok (), root)
  | .error e => (if root.hasDirectory p then .ok () else .error e, root)

/-- Makes a directory and the missing ones above it. -/
def makeAll (root : Node) (p : Path) : Outcome :=
  if p.isVoid then (.ok (), root)
  else
    let attempt := root.makeDirectory p
    match attempt with
    | .error (.system .noSuchEntry) =>
      match _h : p.parent? with
      | none => (.error nothingAbove, root)
      | some above =>
        match makeAll root above with
        | (.ok (), root) => settled root p (root.makeDirectory p)
        | failed => failed
    | attempt => settled root p attempt
termination_by p.length
decreasing_by exact Path.length_of_parent? _h

/-- Makes a directory unless something is there. -/
def ensureDirectory (root : Node) (p : Path) : Outcome :=
  if root.has p then (.ok (), root) else makeAll root p

end SessionMux.Files
