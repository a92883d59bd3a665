import SessionMux.Octets.Basic

/-!
# Buffers

A buffer is an octet string that is filled at the back and used up at the front. Using up moves a
mark; the bytes before the mark are given back when the buffer is filled next.

The meaning of a buffer is the list of its bytes, `Buffer.toList`.

* **`toList_append`**, **`toList_drop`**, **`toList_take`** — the operations are those of the list.
-/

namespace SessionMux

/-- Bytes to be read, from position `start` of `bytes` on. -/
structure Buffer where
  bytes : ByteArray := ByteArray.empty
  start : Nat := 0

namespace Buffer

/-- The bytes that are left, in order. -/
def toList (b : Buffer) : List UInt8 := (Octets.toList b.bytes).drop b.start

/-- How many bytes are left. -/
def size (b : Buffer) : Nat := b.bytes.size - b.start

/-- The bytes that are left, as an octet string. -/
def remaining (b : Buffer) : ByteArray := b.bytes.extract b.start b.bytes.size

/-- Fills in bytes at the back. -/
def append (b : Buffer) (chunk : ByteArray) : Buffer where
  bytes := if b.start = 0 then b.bytes ++ chunk else b.remaining ++ chunk

/-- Uses up `n` bytes at the front, or all that there are. -/
def drop (b : Buffer) (n : Nat) : Buffer := { b with start := b.start + n }

/-- The first `n` bytes, or all that there are. -/
def take (b : Buffer) (n : Nat) : ByteArray := b.bytes.extract b.start (b.start + n)

/-- The first place, counted from the front, that holds the byte `x`, from place `i` on and before
place `stop`. -/
def indexOf? (b : Buffer) (x : UInt8) (i stop : Nat) : Option Nat :=
  (Octets.indexOf? x b.bytes (b.start + i) (b.start + stop)).map (· - b.start)

theorem size_drop (b : Buffer) (n : Nat) : (b.drop n).size = b.size - n := by
  simp only [size, drop]; omega

theorem length_toList (b : Buffer) : b.toList.length = b.size := by
  simp [toList, size, Octets.length_toList]

theorem toList_drop (b : Buffer) (n : Nat) : (b.drop n).toList = b.toList.drop n := by
  simp [toList, drop, List.drop_drop]

/-- The bytes that are left are those of the octet string behind the mark. -/
theorem toList_remaining (b : Buffer) : Octets.toList b.remaining = b.toList := by
  simp only [remaining, toList, Octets.toList, ByteArray.data_extract, Array.toList_extract,
    List.extract_eq_take_drop]
  exact List.take_of_length_le (Nat.le_of_eq List.length_drop)

/-- What is filled in comes behind what is left. -/
theorem toList_append (b : Buffer) (chunk : ByteArray) :
    (b.append chunk).toList = b.toList ++ Octets.toList chunk := by
  unfold append
  split
  · rename_i h
    simp [toList, Octets.toList, h]
  · rw [← toList_remaining b]
    simp [toList, Octets.toList]

theorem size_append (b : Buffer) (chunk : ByteArray) :
    (b.append chunk).size = b.size + chunk.size := by
  rw [← length_toList, toList_append, List.length_append, length_toList, Octets.length_toList]

theorem toList_take (b : Buffer) (n : Nat) : Octets.toList (b.take n) = b.toList.take n := by
  simp [take, toList, Octets.toList, List.extract_eq_take_drop]

/-- A place that is found lies inside the buffer and inside the window. -/
theorem lt_of_indexOf? {b : Buffer} {x : UInt8} {i stop k : Nat}
    (h : b.indexOf? x i stop = some k) : i ≤ k ∧ k < b.size ∧ k < stop := by
  simp only [indexOf?, Option.map_eq_some_iff] at h
  obtain ⟨j, hj, rfl⟩ := h
  have := Octets.lt_of_indexOf? hj
  simp only [size]
  omega

end Buffer

end SessionMux
