import SessionMux.Octets.Basic

/-!
# UTF-8

A machine that reads UTF-8 one byte at a time, and the two ways to turn bytes into text: the
strict one, whose faults name the place and the length of the bad sequence, and the lossy one,
which puts U+FFFD for every maximal bad part.

A multi-byte sequence is bad at its first byte that cannot continue it; the bad part is what was
read of the sequence before that byte, at least one byte, and reading goes on at that byte.
-/

namespace SessionMux.Utf8

/-- What the machine expects next: the first byte of a character, or a continuation byte from
`lo` to `hi` and after it `more` further continuation bytes. -/
inductive Expect where
  | first
  | continuation (lo hi : UInt8) (more : Nat)
deriving DecidableEq

/-- What one byte does to the machine. -/
inductive Reaction where
  /-- The byte belongs to the character; `next` is expected after it. -/
  | accept (next : Expect)
  /-- The byte cannot stand here. -/
  | refuse
deriving DecidableEq

/-- One byte read. The second byte of some characters has a narrower range, which excludes
overlong forms, surrogates and values above U+10FFFF. -/
def Expect.read : Expect → UInt8 → Reaction
  | .first, b =>
    if b < 0x80 then .accept .first
    else if 0xC2 ≤ b ∧ b ≤ 0xDF then .accept (.continuation 0x80 0xBF 0)
    else if b = 0xE0 then .accept (.continuation 0xA0 0xBF 1)
    else if b = 0xED then .accept (.continuation 0x80 0x9F 1)
    else if 0xE1 ≤ b ∧ b ≤ 0xEF then .accept (.continuation 0x80 0xBF 1)
    else if b = 0xF0 then .accept (.continuation 0x90 0xBF 2)
    else if 0xF1 ≤ b ∧ b ≤ 0xF3 then .accept (.continuation 0x80 0xBF 2)
    else if b = 0xF4 then .accept (.continuation 0x80 0x8F 2)
    else .refuse
  | .continuation lo hi more, b =>
    if lo ≤ b ∧ b ≤ hi then
      match more with
      | 0 => .accept .first
      | n + 1 => .accept (.continuation 0x80 0xBF n)
    else .refuse

/-! ## Strict reading -/

/-- Why bytes are no text. -/
inductive Fault where
  /-- A bad sequence of `length` bytes starts at `start`. -/
  | invalid (start length : Nat)
  /-- The bytes end inside the sequence that starts at `start`. -/
  | incomplete (start : Nat)
deriving DecidableEq

/-- The wording of a fault. -/
def Fault.message : Fault → String
  | .invalid start length => s!"invalid utf-8 sequence of {length} bytes from index {start}"
  | .incomplete start => s!"incomplete utf-8 byte sequence from index {start}"

/-- The first fault from position `i` on, where `start` is the start of the sequence that is
being read and `e` what it expects. -/
def faultFrom (b : ByteArray) (i start : Nat) (e : Expect) : Option Fault :=
  if h : i < b.size then
    match e.read b[i] with
    | .accept .first => faultFrom b (i + 1) (i + 1) .first
    | .accept next => faultFrom b (i + 1) start next
    | .refuse => some (.invalid start (max 1 (i - start)))
  else
    match e with
    | .first => none
    | _ => some (.incomplete start)
termination_by b.size - i

/-- The first fault of the bytes, if they are no text. -/
def fault? (b : ByteArray) : Option Fault := faultFrom b 0 0 .first

/-- The text that the bytes spell. -/
def decode (b : ByteArray) : Except Fault String :=
  match String.fromUTF8? b with
  | some s => .ok s
  | none => .error ((fault? b).getD (.incomplete 0))

/-! ## Lossy reading -/

/-- What stands in a lossy text for a bad part: U+FFFD. -/
def replacement : Char := '\uFFFD'

/-- The state of lossy reading: the text so far, what is expected, and the value of the bits
read of the character that is being read. -/
structure Lossy where
  text : String := ""
  expect : Expect := .first
  bits : Nat := 0

/-- The bits of the code point that the first byte of a character carries. -/
def leadBits (b : UInt8) : Nat :=
  if b < 0x80 then b.toNat
  else if b < 0xE0 then b.toNat % 32
  else if b < 0xF0 then b.toNat % 16
  else b.toNat % 8

/-- One byte read where a character may start. -/
def Lossy.start (s : String) (b : UInt8) : Lossy :=
  match Expect.first.read b with
  | .accept .first => ⟨s.push (Char.ofNat b.toNat), .first, 0⟩
  | .accept next => ⟨s, next, leadBits b⟩
  | .refuse => ⟨s.push replacement, .first, 0⟩

/-- One byte read. A byte that cannot continue a character ends it, as one replacement, and is
read again as the first byte of the next. -/
def Lossy.read (l : Lossy) (b : UInt8) : Lossy :=
  match l.expect with
  | .first => Lossy.start l.text b
  | e =>
    match e.read b with
    | .accept .first => ⟨l.text.push (Char.ofNat (l.bits * 64 + b.toNat % 64)), .first, 0⟩
    | .accept next => ⟨l.text, next, l.bits * 64 + b.toNat % 64⟩
    | .refuse => Lossy.start (l.text.push replacement) b

/-- The text once the bytes have ended: a character that was not finished is one replacement. -/
def Lossy.finish (l : Lossy) : String :=
  match l.expect with
  | .first => l.text
  | _ => l.text.push replacement

/-- The text of the bytes, with one U+FFFD for every maximal bad part. -/
def decodeLossy (b : ByteArray) : String :=
  (Octets.fold Lossy.read {} b).finish

end SessionMux.Utf8
