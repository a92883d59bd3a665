import SessionMux.Octets.Basic

/-!
# Base64

The standard alphabet with canonical padding: four symbols for three bytes, the last group
filled up with the pad, and the bits that the pad stands for zero.

Faults are found in a fixed order: a stray byte at the very end of a text whose length is one
above a multiple of four; the bytes of all groups but the last; the bytes of the last group; its
length; its padding; its spare bits.
-/

namespace SessionMux.Base64

/-- Why a text is no base64. Positions count bytes from 0. -/
inductive Fault where
  /-- The byte at `position` cannot stand there. -/
  | symbol (byte : UInt8) (position : Nat)
  /-- The symbols end at position `stop`, at most one symbol into a group. -/
  | loneSymbol (stop : Nat)
  /-- The pad is missing or does not fill the group. -/
  | padding
  /-- The last symbol, at `position`, has spare bits that are not zero. -/
  | spareBits (byte : UInt8) (position : Nat)
deriving DecidableEq

/-- The wording of a fault. -/
def Fault.message : Fault → String
  | .symbol byte position => s!"Invalid symbol {byte.toNat}, offset {position}."
  | .loneSymbol stop => s!"Invalid input length: {stop}"
  | .padding => "Invalid padding"
  | .spareBits byte position => s!"Invalid last symbol {byte.toNat}, offset {position}."

/-- The pad, `=`. -/
def pad : UInt8 := 61

/-- The six bits of a symbol of the alphabet `A-Z a-z 0-9 + /`. -/
def value? (c : UInt8) : Option UInt8 :=
  if 65 ≤ c ∧ c ≤ 90 then some (c - 65)
  else if 97 ≤ c ∧ c ≤ 122 then some (c - 71)
  else if 48 ≤ c ∧ c ≤ 57 then some (c + 4)
  else if c = 43 then some 62
  else if c = 47 then some 63
  else none

/-- The symbol of six bits. -/
def symbol (v : UInt8) : UInt8 :=
  if v < 26 then v + 65
  else if v < 52 then v + 71
  else if v < 62 then v - 4
  else if v = 62 then 43
  else 47

/-! ## Writing -/

/-- Appends one symbol or pad, an ASCII byte, to a text. -/
@[inline]
def put (s : String) (c : UInt8) : String := s.push (Char.ofUInt8 c)

/-- Appends the base64 text of the bytes from position `i` on. -/
def encodeFrom (b : ByteArray) (i : Nat) (s : String) : String :=
  if h : i + 2 < b.size then
    let x := b[i]
    let y := b[i + 1]
    let z := b[i + 2]
    encodeFrom b (i + 3)
      (put (put (put (put s (symbol (x >>> 2))) (symbol ((x &&& 3) <<< 4 ||| y >>> 4)))
        (symbol ((y &&& 15) <<< 2 ||| z >>> 6))) (symbol (z &&& 63)))
  else if h : i + 1 < b.size then
    let x := b[i]
    let y := b[i + 1]
    put (put (put (put s (symbol (x >>> 2))) (symbol ((x &&& 3) <<< 4 ||| y >>> 4)))
      (symbol ((y &&& 15) <<< 2))) pad
  else if h : i < b.size then
    let x := b[i]
    put (put (put (put s (symbol (x >>> 2))) (symbol ((x &&& 3) <<< 4))) pad) pad
  else s
termination_by b.size - i

/-- The base64 text of the bytes. -/
def encode (b : ByteArray) : String := encodeFrom b 0 ""

/-! ## Reading -/

/-- What has been read of the last group: the values of its symbols, the last symbol as it
stands, and the position of the first pad and the number of pads. -/
structure Tail where
  values : List UInt8 := []
  last : UInt8 := 0
  firstPad : Nat := 0
  pads : Nat := 0

/-- Reads the last group, from `i` on; `offset` counts the bytes of the group before `i`. -/
def readTail (b : ByteArray) (i offset : Nat) (t : Tail) : Except Fault Tail :=
  if h : i < b.size then
    if b[i] = pad then
      if offset < 2 then .error (.symbol pad i)
      else readTail b (i + 1) (offset + 1)
        { t with firstPad := if t.pads = 0 then i else t.firstPad, pads := t.pads + 1 }
    else if t.pads ≠ 0 then .error (.symbol pad t.firstPad)
    else
      match value? b[i] with
      | none => .error (.symbol b[i] i)
      | some v => readTail b (i + 1) (offset + 1) { t with values := t.values ++ [v], last := b[i] }
  else .ok t
termination_by b.size - i

/-- Appends the bytes of the last group, which starts at `start`. -/
def finish (b : ByteArray) (start : Nat) (out : ByteArray) : Except Fault ByteArray := do
  let t ← readTail b start 0 {}
  let n := t.values.length
  if b.size ≠ 0 ∧ n < 2 then .error (.loneSymbol (start + n))
  else if (n + t.pads) % 4 ≠ 0 then .error .padding
  else
    match t.values with
    | [p, q] =>
      if q &&& 15 ≠ 0 then .error (.spareBits t.last (start + 1))
      else .ok (out.push (p <<< 2 ||| q >>> 4))
    | [p, q, r] =>
      if r &&& 3 ≠ 0 then .error (.spareBits t.last (start + 2))
      else .ok ((out.push (p <<< 2 ||| q >>> 4)).push (q <<< 4 ||| r >>> 2))
    | [p, q, r, s] =>
      .ok (((out.push (p <<< 2 ||| q >>> 4)).push (q <<< 4 ||| r >>> 2)).push (r <<< 6 ||| s))
    | _ => .ok out

/-- Appends the bytes of the groups from `i` on. A group is read as a whole, without pads, if
something follows it. -/
def decodeFrom (b : ByteArray) (i : Nat) (out : ByteArray) : Except Fault ByteArray :=
  if h : i + 4 < b.size then
    match value? b[i], value? b[i + 1], value? b[i + 2], value? b[i + 3] with
    | some p, some q, some r, some s =>
      decodeFrom b (i + 4)
        (((out.push (p <<< 2 ||| q >>> 4)).push (q <<< 4 ||| r >>> 2)).push (r <<< 6 ||| s))
    | none, _, _, _ => .error (.symbol b[i] i)
    | _, none, _, _ => .error (.symbol b[i + 1] (i + 1))
    | _, _, none, _ => .error (.symbol b[i + 2] (i + 2))
    | _, _, _, none => .error (.symbol b[i + 3] (i + 3))
  else finish b i out
termination_by b.size - i

/-- The byte that ends a text one byte too long for whole groups, if it is neither symbol nor
pad. -/
def strayEnd? (b : ByteArray) : Option Fault :=
  if h : b.size % 4 = 1 then
    let c := b[b.size - 1]
    if c ≠ pad ∧ value? c = none then some (.symbol c (b.size - 1)) else none
  else none

/-- The bytes that a base64 text stands for. -/
def decode (b : ByteArray) : Except Fault ByteArray :=
  match strayEnd? b with
  | some f => .error f
  | none => decodeFrom b 0 (ByteArray.emptyWithCapacity (b.size / 4 * 3))

end SessionMux.Base64
