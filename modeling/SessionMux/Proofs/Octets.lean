import Mathlib.Algebra.Group.Nat.Defs
import SessionMux.Octets.Basic

/-!
# Octet strings, seen as lists

An octet string means the list of its bytes, and what stands at a place of it is said by what is
left of the list from there on: `(toList b).drop i = w ++ rest` says that the bytes `w` stand at
`i`. The lemmas here turn that into what the functions on octet strings do.

* `getElem_of_drop`, `extract_of_drop`, `size_of_drop` — the byte, the bytes and the end at a place.
* `indexOf?_eq` — a search in a window.
* **`littleEndian_littleEndianBytes`** — a number is read back modulo what its bytes hold.
-/

namespace SessionMux.Octets

theorem toList_append (a b : ByteArray) : toList (a ++ b) = toList a ++ toList b := by
  simp only [toList, ByteArray.data_append, Array.toList_append]

theorem ofList_toList (b : ByteArray) : ofList (toList b) = b := rfl

theorem toList_injective {a b : ByteArray} (h : toList a = toList b) : a = b := by
  rw [← ofList_toList a, h, ofList_toList]

theorem push_eq (out : ByteArray) (x : UInt8) : out.push x = out ++ ofList [x] := by
  apply toList_injective
  rw [toList_append, toList_ofList, toList, ByteArray.data_push, Array.toList_push]
  rfl

theorem append_ofList (out : ByteArray) (l m : List UInt8) :
    out ++ ofList l ++ ofList m = out ++ ofList (l ++ m) := by
  apply toList_injective
  rw [toList_append, toList_append, toList_append, toList_ofList, toList_ofList, toList_ofList,
    List.append_assoc]

theorem push_two (out : ByteArray) (x y : UInt8) : (out.push x).push y = out ++ ofList [x, y] := by
  rw [push_eq, push_eq, append_ofList]
  rfl

theorem push_three (out : ByteArray) (x y z : UInt8) :
    ((out.push x).push y).push z = out ++ ofList [x, y, z] := by
  rw [push_two, push_eq, append_ofList]
  rfl

theorem toList_extract (b : ByteArray) (i n : Nat) :
    toList (b.extract i (i + n)) = ((toList b).drop i).take n := by
  simp only [toList, ByteArray.data_extract, Array.toList_extract, List.extract_eq_take_drop,
    Nat.add_sub_cancel_left]

/-- What begins with some bytes is these bytes and a rest. -/
theorem toList_prefix_iff {a b : ByteArray} : toList a <+: toList b ↔ ∃ rest, b = a ++ rest := by
  constructor
  · rintro ⟨rest, h⟩
    refine ⟨ofList rest, toList_injective ?_⟩
    rw [toList_append, toList_ofList, h]
  · rintro ⟨rest, rfl⟩
    rw [toList_append]
    exact List.prefix_append _ _

/-- A character is written at the end of a text. -/
theorem toList_push (s : String) (c : Char) :
    toList (s.push c).toUTF8 = toList s.toUTF8 ++ String.utf8EncodeChar c := by
  have hbytes : toList (String.utf8EncodeChar c).toByteArray = String.utf8EncodeChar c := by
    rw [toList, List.data_toByteArray]
  show toList (s.push c).toByteArray = _
  rw [String.toByteArray_push, toList_append, List.utf8Encode_singleton, hbytes]
  rfl

/-! ## What stands at a place -/

section Places

variable {b : ByteArray} {i : Nat} {c : UInt8} {w rest : List UInt8}

/-- The bytes from a place on, by the byte there. -/
theorem getElem_of_drop (h : (toList b).drop i = c :: rest) :
    ∃ hi : i < b.size, b[i] = c ∧ (toList b).drop (i + 1) = rest := by
  have hi : i < (toList b).length := by
    have hlen := congrArg List.length h
    rw [List.length_drop, List.length_cons] at hlen
    omega
  rw [List.drop_eq_getElem_cons hi] at h
  exact ⟨hi, (List.cons.inj h).1, (List.cons.inj h).2⟩

theorem size_of_drop (h : (toList b).drop i = w) (hw : w ≠ []) : b.size = i + w.length := by
  have hlen := congrArg List.length h
  rw [List.length_drop, length_toList] at hlen
  have := List.length_pos_iff.mpr hw
  omega

/-- What follows some bytes stands behind them. -/
theorem drop_of_drop (h : (toList b).drop i = w ++ rest) :
    (toList b).drop (i + w.length) = rest := by
  rw [← List.drop_drop, h, List.drop_left]

theorem extract_of_drop (h : (toList b).drop i = w ++ rest) :
    b.extract i (i + w.length) = ofList w := by
  apply toList_injective
  rw [toList_extract, h, List.take_left, toList_ofList]

theorem add_length_le_of_drop (h : (toList b).drop i = w ++ rest) (hw : w ≠ []) :
    i + w.length ≤ b.size := by
  have := size_of_drop h (by simp [hw])
  rw [List.length_append] at this
  omega

end Places

/-! ## Searching -/

/-- A window that is not empty begins with the byte at its place. -/
theorem drop_take_eq_cons {b : ByteArray} {i stop : Nat} (hi : i < b.size) (hs : i < stop) :
    ((toList b).take stop).drop i = b[i] :: ((toList b).take stop).drop (i + 1) := by
  have hlen : i < ((toList b).take stop).length := by
    rw [List.length_take, length_toList]
    omega
  rw [List.drop_eq_getElem_cons hlen, List.getElem_take]
  rfl

/-- A search in a window of an octet string is a search in the list of its bytes. -/
theorem indexOf?_eq (x : UInt8) (b : ByteArray) (i stop : Nat) :
    indexOf? x b i stop = ((((toList b).take stop).drop i).idxOf? x).map (i + ·) := by
  fun_induction indexOf? x b i stop with
  | case1 i hi hs hx =>
    rw [drop_take_eq_cons hi hs, List.idxOf?_cons, if_pos hx]
    rfl
  | case2 i hi hs hx ih =>
    rw [drop_take_eq_cons hi hs, List.idxOf?_cons, if_neg hx, ih, Option.map_map]
    congr 1
    funext k
    show i + 1 + k = i + (k + 1)
    omega
  | case3 i hi hs =>
    rw [List.drop_eq_nil_of_le (by rw [List.length_take]; omega)]
    rfl
  | case4 i hi =>
    rw [List.drop_eq_nil_of_le (by rw [List.length_take, length_toList]; omega)]
    rfl

/-- The first place of a byte behind bytes without it. -/
theorem idxOf?_append_cons {x : UInt8} {l r : List UInt8} (h : x ∉ l) :
    (l ++ x :: r).idxOf? x = some l.length := by
  induction l with
  | nil => rw [List.nil_append, List.idxOf?_cons, if_pos (beq_self_eq_true x), List.length_nil]
  | cons y l ih =>
    obtain ⟨hy, hl⟩ := not_or.mp (mt List.mem_cons.mpr h)
    rw [List.cons_append, List.idxOf?_cons, if_neg (by simpa using Ne.symm hy), ih hl,
      List.length_cons]
    rfl

/-! ## Numbers -/

theorem length_littleEndianBytes (n v : Nat) : (littleEndianBytes n v).length = n := by
  induction n generalizing v with
  | zero => rfl
  | succ n ih => rw [littleEndianBytes, List.length_cons, ih]

theorem littleEndian_littleEndianBytes (n v : Nat) :
    littleEndian (littleEndianBytes n v) = v % 256 ^ n := by
  induction n generalizing v with
  | zero => rw [Nat.pow_zero, Nat.mod_one]; rfl
  | succ n ih =>
    have hlow : v.toUInt8.toNat = v % 256 := UInt8.toNat_ofNat'
    rw [littleEndianBytes, littleEndian, ih, hlow, Nat.pow_succ, Nat.mul_comm (256 ^ n),
      Nat.mod_mul]

/-- A number is told by its bytes, if they are enough to hold it. -/
theorem littleEndianBytes_inj {n v w : Nat} (hv : v < 256 ^ n) (hw : w < 256 ^ n)
    (h : littleEndianBytes n v = littleEndianBytes n w) : v = w := by
  have hread := congrArg littleEndian h
  rwa [littleEndian_littleEndianBytes, littleEndian_littleEndianBytes, Nat.mod_eq_of_lt hv,
    Nat.mod_eq_of_lt hw] at hread

end SessionMux.Octets
