import SessionMux.Gzip.Inflate

/-!
# Gzip members

A member is a header, the compressed data, and a trailer with the CRC-32 and the length of the
bytes. Reading takes the first member and leaves what follows it. Writing stores the bytes in
blocks as they are: the wire format asks for a member, not for a small one.

The CRC-32 is the remainder of the bytes by the reflected polynomial `0xEDB88320`, started and
finished with all bits flipped, one table look-up a byte.
-/

namespace SessionMux.Gzip

/-! ## The checksum -/

/-- The remainder of `r` after `n` bits have been shifted out. -/
def shiftOut : Nat → UInt32 → UInt32
  | 0, r => r
  | n + 1, r => shiftOut n (if r &&& 1 = 1 then (r >>> 1) ^^^ 0xEDB88320 else r >>> 1)

/-- The remainder of every single byte. -/
def byteRemainders : Array UInt32 := Array.ofFn fun i : Fin 256 => shiftOut 8 i.val.toUInt32

/-- The remainder after one more byte. -/
def addByte (r : UInt32) (b : UInt8) : UInt32 :=
  byteRemainders.getD ((r ^^^ b.toUInt32) &&& 0xFF).toNat 0 ^^^ (r >>> 8)

/-- The CRC-32 of the bytes. -/
def crc32 (b : ByteArray) : UInt32 :=
  Octets.fold addByte 0xFFFFFFFF b ^^^ 0xFFFFFFFF

/-! ## Faults -/

/-- Why a member cannot be read. -/
inductive Fault where
  /-- Header or trailer are cut off. -/
  | unexpectedEnd
  /-- Not the header of a gzip member. -/
  | header
  /-- A name or a comment above the limit. -/
  | fieldTooLong
  /-- The compressed data are cut off. -/
  | incompleteData
  /-- The compressed data break their format. -/
  | corruptData
  /-- A checksum or the length does not match. -/
  | checksum
deriving DecidableEq

/-- The wording of a fault. -/
def Fault.message : Fault → String
  | .unexpectedEnd => "unexpected end of file"
  | .header => "invalid gzip header"
  | .fieldTooLong => "gzip header field too long"
  | .incompleteData => "incomplete deflate stream"
  | .corruptData => "corrupt deflate stream"
  | .checksum => "corrupt gzip stream does not have a matching checksum"

def Fault.ofInflate : InflateFault → Fault
  | .incomplete => .incompleteData
  | .corrupt => .corruptData

/-- The little-endian number in the `n` bytes from `i` on. -/
def number? (b : ByteArray) (i n : Nat) : Option Nat :=
  if i + n ≤ b.size then
    some (Octets.littleEndian (Octets.toList (b.extract i (i + n))))
  else none

/-! ## Reading -/

/-- A header field that is cut off is an unexpected end. -/
def need {α : Type} : Option α → Except Fault α
  | some a => .ok a
  | none => .error .unexpectedEnd

/-- The most bytes that a name or a comment has, the zero at its end not counted. -/
def textLimit : Nat := 65535

/-- The position after the name or comment from `i` on, which ends with a zero. A text above the limit
is refused before its end is looked for. -/
def afterText (b : ByteArray) (i : Nat) : Except Fault Nat :=
  match Octets.indexOf? 0 b i b.size with
  | some j => if textLimit < j - i then .error .fieldTooLong else .ok (j + 1)
  | none => if textLimit < b.size - i then .error .fieldTooLong else .error .unexpectedEnd

/-- The position after the extra field from `i` on, which begins with its length. -/
def afterExtra (b : ByteArray) (i : Nat) : Except Fault Nat := do
  let length ← need (number? b i 2)
  if b.size < i + 2 + length then .error .unexpectedEnd else .ok (i + 2 + length)

/-- The position after the checksum at `i`, which is that of the header up to it. -/
def afterSum (b : ByteArray) (i : Nat) : Except Fault Nat := do
  let sum ← need (number? b i 2)
  if (crc32 (b.extract 0 i)).toNat % 65536 ≠ sum then .error .checksum else .ok (i + 2)

/-- The position after a field that is there only if it has been announced. -/
def skipIf (announced : Bool) (after : Nat → Except Fault Nat) (i : Nat) : Except Fault Nat :=
  if announced then after i else .ok i

/-- Reads the header; returns the position after it. Bit 2 of the flags announces an extra field,
bit 3 a name, bit 4 a comment and bit 1 a checksum of the header, in this order; bits 5 to 7 must
be zero. -/
def readHeader (b : ByteArray) : Except Fault Nat := do
  let magic ← need (number? b 0 2)
  let method ← need (number? b 2 1)
  let flags ← need (number? b 3 1)
  let _ ← need (number? b 4 6)
  if magic ≠ 0x8b1f ∨ method ≠ 8 ∨ 32 ≤ flags then .error .header
  else
    let i ← skipIf (flags.testBit 2) (afterExtra b) 10
    let i ← skipIf (flags.testBit 3) (afterText b) i
    let i ← skipIf (flags.testBit 4) (afterText b) i
    skipIf (flags.testBit 1) (afterSum b) i

/-- The bytes that the first member stands for. -/
def decode (b : ByteArray) : Except Fault ByteArray := do
  let start ← readHeader b
  match inflate b start with
  | .error e => .error (.ofInflate e)
  | .ok (i, out) => do
    let sum ← need (number? b i 4)
    let length ← need (number? b (i + 4) 4)
    if sum ≠ (crc32 out).toNat ∨ length ≠ out.size % Nat.pow 2 32 then .error .checksum
    else .ok out

/-! ## Writing -/

/-- The header of every member written here: no flags, no time, system unknown. -/
def plainHeader : ByteArray :=
  Octets.ofList [0x1f, 0x8b, 8, 0, 0, 0, 0, 0, 0, 0xff]

/-- The most bytes that a stored block holds. -/
def storedLimit : Nat := 65535

/-- Appends stored blocks with the bytes from `i` on; the last of them says so. -/
def storeFrom (b : ByteArray) (i : Nat) (out : ByteArray) : ByteArray :=
  let length := min storedLimit (b.size - i)
  let block := b.extract i (i + length)
  let lengths := Octets.ofList (Octets.littleEndianBytes 2 length ++ Octets.littleEndianBytes 2 (65535 - length))
  if i + storedLimit < b.size then
    storeFrom b (i + storedLimit) (out.push 0 ++ lengths ++ block)
  else out.push 1 ++ lengths ++ block
termination_by b.size - i
decreasing_by simp only [storedLimit] at *; omega

/-- A member that stands for the bytes. -/
def encode (b : ByteArray) : ByteArray :=
  storeFrom b 0 plainHeader ++
    Octets.ofList (Octets.littleEndianBytes 4 (crc32 b).toNat ++ Octets.littleEndianBytes 4 b.size)

end SessionMux.Gzip
