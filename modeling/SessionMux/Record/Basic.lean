import SessionMux.Text.Utf8

/-!
# Records

The binary form of values: numbers little-endian at their full width, one byte for a flag and for
the tag of an optional value, four bytes for the number of an alternative, eight bytes for the
length of a text or list, the parts of a value one after another and nothing between them.

`Record α` has both directions. Reading a value leaves what follows it, and fails at the first
part, in reading order, that is cut off or not well formed. A declared length is only believed as
far as there are bytes, so a huge one costs nothing.
-/

namespace SessionMux

namespace Record

/-- Why bytes are no record. -/
inductive Fault where
  /-- A number, tag, flag or element is cut off. -/
  | unexpectedEnd
  /-- A text is longer than what is left. -/
  | textCutOff
  /-- The tag of an optional value is neither 0 nor 1. -/
  | tag (found : UInt8)
  /-- A flag is neither 0 nor 1. -/
  | flag (found : UInt8)
  /-- There is no alternative of this number below `count`. -/
  | alternative (found : UInt32) (count : Nat)
  /-- A text is no UTF-8. -/
  | text (fault : Utf8.Fault)
deriving DecidableEq

/-- The wording of a fault. -/
def Fault.message : Fault → String
  | .unexpectedEnd => "io error: unexpected end of file"
  | .textCutOff => "io error: "
  | .tag found => s!"tag for enum is not valid, found {found.toNat}"
  | .flag found =>
    s!"invalid u8 while decoding bool, expected 0 or 1, found {found.toNat}"
  | .alternative found count =>
    s!"invalid value: integer \x60{found.toNat}\x60, expected variant index 0 <= i < {count}"
  | .text fault => "string is not valid utf8: " ++ fault.message

/-- A place in an octet string. -/
structure Cursor where
  bytes : ByteArray
  position : Nat

/-- The bytes from the place on. -/
def Cursor.rest (c : Cursor) : List UInt8 := (Octets.toList c.bytes).drop c.position

/-- How many bytes are left. -/
def Cursor.left (c : Cursor) : Nat := c.bytes.size - c.position

/-- A reader takes a value from a place on and leaves the place after it. -/
abbrev Reader (α : Type) : Type := StateT Cursor (Except Fault) α

/-! ## Reading parts -/

/-- One byte. -/
def byte : Reader UInt8 := fun c =>
  if h : c.position < c.bytes.size then .ok (c.bytes[c.position], { c with position := c.position + 1 })
  else .error .unexpectedEnd

/-- The number in the next `n` bytes, the least significant one first. -/
def number : Nat → Reader Nat
  | 0 => pure 0
  | n + 1 => do
    let low ← byte
    let high ← number n
    return low.toNat + 256 * high

/-- The next `n` bytes; `fault` if there are fewer. -/
def take (n : Nat) (fault : Fault) : Reader ByteArray := fun c =>
  if n ≤ c.left then
    .ok (c.bytes.extract c.position (c.position + n), { c with position := c.position + n })
  else .error fault

/-- The next `n` values. -/
def sequence {α : Type} (read : Reader α) : Nat → Reader (List α)
  | 0 => pure []
  | n + 1 => do
    let a ← read
    let r ← sequence read n
    return a :: r

/-- The number of an alternative, below `count`. -/
def alternative (count : Nat) : Reader Nat := do
  let n ← number 4
  if n < count then return n else throw (.alternative n.toUInt32 count)

/-! ## Writing parts -/

/-- A number in `n` bytes. -/
def writeNumber (n v : Nat) : ByteArray := Octets.ofList (Octets.littleEndianBytes n v)

end Record

open Record in
/-- Values with a binary form. -/
class Record (α : Type) where
  /-- The bytes of a value. -/
  write : α → ByteArray
  /-- Reads a value. -/
  read : Record.Reader α

namespace Record

/-- The value at the start of the bytes; what follows it is ignored. -/
def decode (α : Type) [Record α] (b : ByteArray) : Except Fault α :=
  (Record.read (α := α)).run ⟨b, 0⟩ |>.map Prod.fst

/-! ## Numbers, flags, texts -/

instance : Record UInt32 where
  write v := writeNumber 4 v.toNat
  read := return (← number 4).toUInt32

instance : Record UInt64 where
  write v := writeNumber 8 v.toNat
  read := return (← number 8).toUInt64

instance : Record Int32 where
  write v := writeNumber 4 v.toUInt32.toNat
  read := return (← number 4).toUInt32.toInt32

instance : Record Int64 where
  write v := writeNumber 8 v.toUInt64.toNat
  read := return (← number 8).toUInt64.toInt64

instance : Record Bool where
  write v := Octets.ofList [if v then 1 else 0]
  read := do
    match ← byte with
    | 0 => return false
    | 1 => return true
    | n => throw (.flag n)

/-- A text: its length in bytes, then its bytes. The length is checked before the UTF-8. -/
instance : Record String where
  write v := writeNumber 8 v.utf8ByteSize ++ v.toUTF8
  read := do
    let n ← number 8
    let b ← take n .textCutOff
    match Utf8.decode b with
    | .ok s => return s
    | .error e => throw (.text e)

/-- Bytes: their number, then themselves. -/
instance : Record ByteArray where
  write v := writeNumber 8 v.size ++ v
  read := do
    let n ← number 8
    take n .unexpectedEnd

/-! ## Optional values and lists -/

instance {α : Type} [Record α] : Record (Option α) where
  write
    | none => Octets.ofList [0]
    | some v => Octets.ofList [1] ++ write v
  read := do
    match ← byte with
    | 0 => return none
    | 1 => return some (← read)
    | n => throw (.tag n)

instance {α : Type} [Record α] : Record (List α) where
  write l := l.foldl (fun b v => b ++ write v) (writeNumber 8 l.length)
  read := do
    let n ← number 8
    sequence read n

end Record

end SessionMux
