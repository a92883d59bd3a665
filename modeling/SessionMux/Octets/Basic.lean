/-!
# Octet strings

Octet strings are `ByteArray`s and mean the list of their bytes. This module holds the two
traversals that the rest of the library shares: a left fold from a position on, and the search
for one byte inside a window.

* **`foldFrom_eq`** — a fold from a position is the list fold over the bytes from there on.
-/

namespace SessionMux.Octets

/-- The bytes of an octet string, in order. -/
def toList (b : ByteArray) : List UInt8 := b.data.toList

/-- The octet string with the given bytes. -/
def ofList (l : List UInt8) : ByteArray := ⟨l.toArray⟩

/-- Folds `f` over the bytes from position `i` on, first byte first. -/
@[specialize]
def foldFrom {σ : Type} (f : σ → UInt8 → σ) (b : ByteArray) (i : Nat) (s : σ) : σ :=
  if h : i < b.size then foldFrom f b (i + 1) (f s b[i]) else s
termination_by b.size - i

/-- Folds `f` over all bytes, first byte first. -/
@[inline]
def fold {σ : Type} (f : σ → UInt8 → σ) (s : σ) (b : ByteArray) : σ := foldFrom f b 0 s

/-- The first position from `i` on and before `stop` that holds the byte `x`. -/
def indexOf? (x : UInt8) (b : ByteArray) (i stop : Nat) : Option Nat :=
  if h : i < b.size then
    if i < stop then
      if b[i] == x then some i else indexOf? x b (i + 1) stop
    else none
  else none
termination_by b.size - i

/-- The little-endian value of the bytes, the first one least significant. -/
def littleEndian : List UInt8 → Nat
  | [] => 0
  | b :: r => b.toNat + 256 * littleEndian r

/-- The `n` lowest bytes of a number, the least significant one first. -/
def littleEndianBytes : Nat → Nat → List UInt8
  | 0, _ => []
  | n + 1, v => v.toUInt8 :: littleEndianBytes n (v / 256)

theorem toList_ofList (l : List UInt8) : toList (ofList l) = l := by
  simp [toList, ofList]

theorem length_toList (b : ByteArray) : (toList b).length = b.size := rfl

/-- A fold from position `i` reads exactly the bytes from `i` on. -/
theorem foldFrom_eq {σ : Type} (f : σ → UInt8 → σ) (b : ByteArray) (i : Nat) (s : σ) :
    foldFrom f b i s = ((toList b).drop i).foldl f s := by
  fun_induction foldFrom f b i s with
  | case1 i s h ih =>
    have h' : i < (toList b).length := h
    rw [ih, List.drop_eq_getElem_cons h']
    rfl
  | case2 i s h =>
    have h' : (toList b).length ≤ i := Nat.le_of_not_lt h
    rw [List.drop_eq_nil_of_le h']
    rfl

theorem fold_eq {σ : Type} (f : σ → UInt8 → σ) (b : ByteArray) (s : σ) :
    fold f s b = (toList b).foldl f s := by
  simp [fold, foldFrom_eq]

/-- A position that is found lies in the string and in the window. -/
theorem lt_of_indexOf? {x : UInt8} {b : ByteArray} {i stop k : Nat}
    (h : indexOf? x b i stop = some k) : i ≤ k ∧ k < b.size ∧ k < stop := by
  fun_induction indexOf? x b i stop with
  | case1 i hi hs hx => simp at h; omega
  | case2 i hi hs hx ih => have := ih h; omega
  | case3 => simp at h
  | case4 => simp at h

end SessionMux.Octets
