/-!
# Faults of the operating system

What the operating system, or a stream of bytes, answers instead of doing what it was asked:
a kind, with the wording of the kind, of whoever raised it, or of the system call.
-/

namespace SessionMux

/-- The kinds of faults of input and output. -/
inductive IoKind where
  | notFound
  | permissionDenied
  | alreadyExists
  | notADirectory
  | isADirectory
  | invalidFilename
  | invalidInput
  | unexpectedEof
  | invalidData
  | connectionReset
  | other
deriving DecidableEq

/-- The wording of a kind of which no more is known. -/
def IoKind.text : IoKind → String
  | .notFound => "entity not found"
  | .permissionDenied => "permission denied"
  | .alreadyExists => "entity already exists"
  | .notADirectory => "not a directory"
  | .isADirectory => "is a directory"
  | .invalidFilename => "invalid filename"
  | .invalidInput => "invalid input parameter"
  | .unexpectedEof => "unexpected end of file"
  | .invalidData => "invalid data"
  | .connectionReset => "connection reset"
  | .other => "other error"

/-- The faults of system calls that can be met here. -/
inductive SystemError where
  | noSuchEntry
  | exists
  | notADirectory
  | isADirectory
  | nameTooLong
  | networkUnreachable
  | connectionRefused
deriving DecidableEq

/-- The wording of the system and its number for the fault. -/
def SystemError.text : SystemError → String
  | .noSuchEntry => "No such file or directory (os error 2)"
  | .exists => "File exists (os error 17)"
  | .notADirectory => "Not a directory (os error 20)"
  | .isADirectory => "Is a directory (os error 21)"
  | .nameTooLong => "File name too long (os error 36)"
  | .networkUnreachable => "Network is unreachable (os error 101)"
  | .connectionRefused => "Connection refused (os error 111)"

/-- A fault of input or output. -/
inductive IoFault where
  /-- Of this kind, and no more is known. -/
  | bare (kind : IoKind)
  /-- Of this kind, in the words of whoever raised it. -/
  | said (kind : IoKind) (words : String)
  /-- Of a system call. -/
  | system (error : SystemError)
deriving DecidableEq

/-- The kind of a fault of a system call. -/
def SystemError.kind : SystemError → IoKind
  | .noSuchEntry => .notFound
  | .exists => .alreadyExists
  | .notADirectory => .notADirectory
  | .isADirectory => .isADirectory
  | .nameTooLong => .invalidFilename
  | .networkUnreachable => .other
  | .connectionRefused => .other

/-- The kind of a fault. -/
def IoFault.kind : IoFault → IoKind
  | .bare kind => kind
  | .said kind _ => kind
  | .system error => error.kind

/-- The wording of a fault. -/
def IoFault.text : IoFault → String
  | .bare kind => kind.text
  | .said _ words => words
  | .system error => error.text

end SessionMux
