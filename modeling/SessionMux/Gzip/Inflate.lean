import SessionMux.Octets.Basic

/-!
# Deflate, read

Compressed data is a string of bits, the least significant bit of each byte first, cut into
blocks: stored bytes, or symbols of two prefix codes, one for bytes and copy lengths and one for
copy distances. A copy may reach back before the first byte; there it finds zeros.

Reading takes one of two faults: the data end inside a block, or they break the format. Whichever
comes first in reading order counts.
-/

namespace SessionMux.Gzip

/-- Why compressed data cannot be read. -/
inductive InflateFault where
  /-- The data end before the last block does. -/
  | incomplete
  /-- The data break the format. -/
  | corrupt
deriving DecidableEq

/-! ## Bits -/

/-- The bit at bit position `p`. -/
@[inline]
def bitAt (b : ByteArray) (p : Nat) : Except InflateFault Nat :=
  if h : p / 8 < b.size then .ok ((b[p / 8].toNat >>> (p % 8)) % 2) else .error .incomplete

/-- The number that the `n` bits from `p` on spell, least significant bit first. -/
def bitsAt (b : ByteArray) (p : Nat) : Nat → Except InflateFault Nat
  | 0 => .ok 0
  | n + 1 => do
    let low ← bitAt b p
    let high ← bitsAt b (p + 1) n
    return low + 2 * high

/-! ## Prefix codes -/

/-- A canonical prefix code: how many codes have each length, and the symbols in the order of
their codes, shorter codes first. -/
structure PrefixCode where
  counts : Array Nat
  symbols : Array Nat

/-- The code whose symbol `s` has length `lengths[s]`, where 0 means that it has none. -/
def PrefixCode.ofLengths (lengths : Array Nat) : PrefixCode where
  counts := (Array.range 16).map fun l => if l = 0 then 0 else lengths.count l
  symbols := (Array.range 16).flatMap fun l =>
    if l = 0 then #[] else (Array.range lengths.size).filter fun s => lengths.getD s 0 = l

/-- The part of the code space that is in use, in units of the longest codes. -/
def PrefixCode.used (c : PrefixCode) : Nat :=
  (List.range 16).foldl (fun sum l => sum + c.counts.getD l 0 * Nat.pow 2 (15 - l)) 0

/-- Every bit string starts with a code. -/
def PrefixCode.isComplete (c : PrefixCode) : Bool := c.used = Nat.pow 2 15

/-- There are too few symbols to fill the code space. -/
def PrefixCode.isSparse (c : PrefixCode) : Bool := c.symbols.size ≤ 1

/-- Follows the bits from `p` on down the code: `code` is their value so far, `first` the first
code of this length, and `index` the place of its symbol. Returns the symbol and the position
after it. A sparse code holds zeros only, so a one ends it at once. -/
def PrefixCode.follow (c : PrefixCode) (b : ByteArray) :
    Nat → Nat → Nat → Nat → Nat → Except InflateFault (Nat × Nat)
  | 0, _, _, _, _ => .error .corrupt
  | more + 1, code, first, index, p => do
    let bit ← bitAt b p
    if c.isSparse && (bit = 1 || c.symbols.isEmpty) then .error .corrupt
    else
      let code := 2 * code + bit
      let first := 2 * first
      let count := c.counts.getD (15 - more) 0
      if code < first + count then
        .ok (c.symbols.getD (index + (code - first)) 0, p + 1)
      else c.follow b more code (first + count) (index + count) (p + 1)

/-- The symbol at bit position `p`, and the position after it. -/
def PrefixCode.read (c : PrefixCode) (b : ByteArray) (p : Nat) :
    Except InflateFault (Nat × Nat) :=
  c.follow b 15 0 0 0 p

/-! ## Blocks of symbols -/

/-- The base and the number of extra bits of the copy lengths, from symbol 257 on. -/
def lengthTable : Array (Nat × Nat) := #[
  (3, 0), (4, 0), (5, 0), (6, 0), (7, 0), (8, 0), (9, 0), (10, 0), (11, 1), (13, 1), (15, 1),
  (17, 1), (19, 2), (23, 2), (27, 2), (31, 2), (35, 3), (43, 3), (51, 3), (59, 3), (67, 4),
  (83, 4), (99, 4), (115, 4), (131, 5), (163, 5), (195, 5), (227, 5), (258, 0)]

/-- The base and the number of extra bits of the copy distances. -/
def distanceTable : Array (Nat × Nat) := #[
  (1, 0), (2, 0), (3, 0), (4, 0), (5, 1), (7, 1), (9, 2), (13, 2), (17, 3), (25, 3), (33, 4),
  (49, 4), (65, 5), (97, 5), (129, 6), (193, 6), (257, 7), (385, 7), (513, 8), (769, 8),
  (1025, 9), (1537, 9), (2049, 10), (3073, 10), (4097, 11), (6145, 11), (8193, 12), (12289, 12),
  (16385, 13), (24577, 13)]

/-- Appends `n` bytes, each a copy of the byte `distance` before it. -/
def copyBack (distance : Nat) : Nat → ByteArray → ByteArray
  | 0, out => out
  | n + 1, out =>
    copyBack distance n
      (out.push (if distance ≤ out.size then out.get! (out.size - distance) else 0))

/-- A symbol that is in no table breaks the format. -/
def known {α : Type} : Option α → Except InflateFault α
  | some a => .ok a
  | none => .error .corrupt

/-- Reads the rest of a copy whose length symbol `s` ends at `p`, and makes the copy. -/
def readCopy (distances : PrefixCode) (b : ByteArray) (s p : Nat) (out : ByteArray) :
    Except InflateFault (Nat × ByteArray) := do
  let (lengthBase, lengthExtra) ← known lengthTable[s - 257]?
  let length ← bitsAt b p lengthExtra
  let (d, p) ← distances.read b (p + lengthExtra)
  let (distanceBase, distanceExtra) ← known distanceTable[d]?
  let distance ← bitsAt b p distanceExtra
  return (p + distanceExtra, copyBack (distanceBase + distance) (lengthBase + length) out)

/-- Reads symbols from `p` on until the end of the block. Each symbol takes a bit at least, so
`fuel` above the number of bits left never runs out. -/
def readSymbols (literals distances : PrefixCode) (b : ByteArray) :
    Nat → Nat → ByteArray → Except InflateFault (Nat × ByteArray)
  | 0, _, _ => .error .incomplete
  | fuel + 1, p, out => do
    let (s, p) ← literals.read b p
    if s < 256 then readSymbols literals distances b fuel p (out.push s.toUInt8)
    else if s = 256 then .ok (p, out)
    else
      let (p, out) ← readCopy distances b s p out
      readSymbols literals distances b fuel p out

/-- The fixed code of bytes and lengths. -/
def fixedLiterals : PrefixCode := .ofLengths <|
  Array.replicate 144 8 ++ Array.replicate 112 9 ++ Array.replicate 24 7 ++ Array.replicate 8 8

/-- The fixed code of distances. -/
def fixedDistances : PrefixCode := .ofLengths (Array.replicate 32 5)

/-! ## Blocks with codes of their own -/

/-- The order in which the lengths of the code of code lengths are written. -/
def lengthOrder : List Nat := [16, 17, 18, 0, 8, 7, 9, 6, 10, 5, 11, 4, 12, 3, 13, 2, 14, 1, 15]

/-- Reads one three-bit length for each of `symbols`, from `p` on. -/
def readCodeLengthLengths (b : ByteArray) :
    List Nat → Nat → Array Nat → Except InflateFault (Nat × Array Nat)
  | [], p, lengths => .ok (p, lengths)
  | s :: r, p, lengths => do
    let l ← bitsAt b p 3
    readCodeLengthLengths b r (p + 3) (lengths.setIfInBounds s l)

/-- Reads code lengths with the code `c` until there are `total` of them. Symbols 16 to 18 stand
for several lengths; going beyond `total` breaks the format. -/
def readLengths (c : PrefixCode) (b : ByteArray) (total : Nat) :
    Nat → Nat → Array Nat → Except InflateFault (Nat × Array Nat)
  | 0, _, _ => .error .incomplete
  | fuel + 1, p, lengths =>
    if lengths.size = total then .ok (p, lengths)
    else if total < lengths.size then .error .corrupt
    else
      match c.read b p with
      | .error e => .error e
      | .ok (s, p) =>
        if s < 16 then readLengths c b total fuel p (lengths.push s)
        else if s = 16 ∧ lengths.isEmpty then .error .corrupt
        else
          let (extra, base, value) :=
            if s = 16 then (2, 3, lengths.getD (lengths.size - 1) 0)
            else if s = 17 then (3, 3, 0)
            else (7, 11, 0)
          match bitsAt b p extra with
          | .error e => .error e
          | .ok n =>
            readLengths c b total fuel (p + extra) (lengths ++ Array.replicate (base + n) value)

/-- A code that a block may bring along: complete, or of one symbol at most. -/
def PrefixCode.isUsable (c : PrefixCode) : Bool := c.isComplete || c.isSparse

/-- Reads the two codes of a block, from `p` on. -/
def readCodes (b : ByteArray) (p : Nat) :
    Except InflateFault (Nat × PrefixCode × PrefixCode) := do
  let literalCount := 257 + (← bitsAt b p 5)
  let distanceCount := 1 + (← bitsAt b (p + 5) 5)
  let lengthCount := 4 + (← bitsAt b (p + 10) 4)
  if 286 < literalCount ∨ 30 < distanceCount then .error .corrupt
  else
    let (p, lengthLengths) ←
      readCodeLengthLengths b (lengthOrder.take lengthCount) (p + 14) (Array.replicate 19 0)
    let lengthCode := PrefixCode.ofLengths lengthLengths
    if !lengthCode.isComplete then .error .corrupt
    else
      let total := literalCount + distanceCount
      let (p, lengths) ← readLengths lengthCode b total (total + 1) p #[]
      let literals := PrefixCode.ofLengths (lengths.extract 0 literalCount)
      let distances := PrefixCode.ofLengths (lengths.extract literalCount total)
      if literals.isUsable && distances.isUsable then .ok (p, literals, distances)
      else .error .corrupt

/-! ## All blocks -/

/-- Reads a stored block whose length field starts at byte `i`; returns the byte after it. -/
def readStored (b : ByteArray) (i : Nat) (out : ByteArray) :
    Except InflateFault (Nat × ByteArray) := do
  let length ← bitsAt b (8 * i) 16
  let complement ← bitsAt b (8 * i + 16) 16
  if length + complement ≠ 65535 then .error .corrupt
  else if b.size < i + 4 + length then .error .incomplete
  else .ok (i + 4 + length, out ++ b.extract (i + 4) (i + 4 + length))

/-- Reads a block of the kind that its header tells, from bit position `p` behind the header on. -/
def readBlock (b : ByteArray) (kind p : Nat) (out : ByteArray) :
    Except InflateFault (Nat × ByteArray) :=
  match kind with
  | 0 => do
    let (i, out) ← readStored b ((p + 7) / 8) out
    return (8 * i, out)
  | 1 => readSymbols fixedLiterals fixedDistances b (8 * b.size + 1) p out
  | 2 => do
    let (p, literals, distances) ← readCodes b p
    readSymbols literals distances b (8 * b.size + 1) p out
  | _ => .error .corrupt

/-- Reads blocks from bit position `p` on up to the last one; returns the byte after it. Each
block takes three bits at least, so `fuel` above the number of bits never runs out. -/
def readBlocks (b : ByteArray) : Nat → Nat → ByteArray → Except InflateFault (Nat × ByteArray)
  | 0, _, _ => .error .incomplete
  | fuel + 1, p, out => do
    let header ← bitsAt b p 3
    let (p, out) ← readBlock b (header / 2) (p + 3) out
    if header % 2 = 1 then .ok ((p + 7) / 8, out) else readBlocks b fuel p out

/-- The bytes that the data from byte `i` on stand for, and the byte after the data. -/
def inflate (b : ByteArray) (i : Nat) : Except InflateFault (Nat × ByteArray) :=
  readBlocks b (8 * b.size + 1) (8 * i) ByteArray.empty

end SessionMux.Gzip
