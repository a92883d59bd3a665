import SessionMux.Gzip.Member
import SessionMux.Proofs.Octets

/-!
# How far a member can expand

Whoever opens a member that is within a limit wants to know what it can grow to. Every symbol of
compressed data takes a bit at least and stands for 258 bytes at most, and a stored block takes more
than it stands for. So the bytes that come out are bounded by the bits that go in.

* `Expands` — from one bit position to another at most 258 bytes have come out for each bit.
* `expands_readSymbols`, `expands_readStored` — blocks of symbols, and stored blocks.
* **`expands_readBlocks`** — and all blocks.
* **`size_decode_le`** — a member of `n` bytes stands for at most `2064 * n` bytes.
-/

namespace SessionMux.Gzip

/-- A run of two readers that succeeds is a success of both. -/
theorem exists_of_bind {ε α β : Type} {x : Except ε α} {f : α → Except ε β} {v : β}
    (h : x >>= f = .ok v) : ∃ a, x = .ok a ∧ f a = .ok v := by
  cases x with
  | error e => cases h
  | ok a => exact ⟨a, rfl, h⟩

/-! ## Bits -/

section Bits

variable {b : ByteArray} {p : Nat}

theorem bitAt_bounds {v : Nat} (h : bitAt b p = .ok v) : p < 8 * b.size ∧ v < 2 := by
  rw [bitAt] at h
  split at h
  · rename_i hp
    cases h
    exact ⟨by omega, Nat.mod_lt _ (by decide)⟩
  · cases h

theorem bitsAt_bounds {n v : Nat} (h : bitsAt b p n = .ok v) (hp : p ≤ 8 * b.size) :
    p + n ≤ 8 * b.size ∧ v < 2 ^ n := by
  induction n generalizing p v with
  | zero =>
    cases h
    exact ⟨hp, by decide⟩
  | succ n ih =>
    obtain ⟨low, hlow, h⟩ := exists_of_bind h
    obtain ⟨high, hhigh, h⟩ := exists_of_bind h
    cases h
    obtain ⟨hlt, hbit⟩ := bitAt_bounds hlow
    obtain ⟨hle, hrest⟩ := ih hhigh hlt
    rw [Nat.pow_succ]
    omega

/-- A code takes a bit at least. -/
theorem follow_bounds {c : PrefixCode} {more code first index s p' : Nat}
    (h : c.follow b more code first index p = .ok (s, p')) : p < p' ∧ p' ≤ 8 * b.size := by
  induction more generalizing code first index p with
  | zero => cases h
  | succ more ih =>
    obtain ⟨bit, hbit, h⟩ := exists_of_bind h
    have hlt := (bitAt_bounds hbit).1
    split at h
    · cases h
    · simp only at h
      split at h
      · cases h
        omega
      · have hrest := ih h
        omega

theorem read_bounds {c : PrefixCode} {s p' : Nat} (h : c.read b p = .ok (s, p')) :
    p < p' ∧ p' ≤ 8 * b.size := by
  rw [PrefixCode.read] at h
  exact follow_bounds h

end Bits

/-! ## Growing -/

/-- From the bit position `p`, where `out` has come out, to `p'` with `out'`: at most 258 bytes for
each bit. -/
structure Expands (b : ByteArray) (p : Nat) (out : ByteArray) (p' : Nat) (out' : ByteArray) :
    Prop where
  le : p ≤ p'
  le_size : p' ≤ 8 * b.size
  size_le : out'.size + 258 * p ≤ out.size + 258 * p'

theorem Expands.trans {b out out' out'' : ByteArray} {p p' p'' : Nat}
    (h : Expands b p out p' out') (h' : Expands b p' out' p'' out'') :
    Expands b p out p'' out'' where
  le := Nat.le_trans h.le h'.le
  le_size := h'.le_size
  size_le := by
    have := h.size_le
    have := h'.size_le
    omega

theorem size_copyBack (distance n : Nat) (out : ByteArray) :
    (copyBack distance n out).size = out.size + n := by
  induction n generalizing out with
  | zero => rfl
  | succ n ih =>
    rw [copyBack, ih, ByteArray.size_push]
    omega

/-- A copy is of 258 bytes at most. -/
theorem lengthTable_bounds {k base extra v : Nat} (h : lengthTable[k]? = some (base, extra))
    (hv : v < 2 ^ extra) : base + v ≤ 258 := by
  have hall : ∀ e ∈ lengthTable, e.1 + 2 ^ e.2 ≤ 259 := by decide
  have := hall _ (Array.mem_of_getElem? h)
  simp only at this
  omega

theorem known_eq {α : Type} {x : Option α} {a : α} (h : known x = .ok a) : x = some a := by
  cases x with
  | none => cases h
  | some a' =>
    cases h
    rfl

theorem expands_readCopy {distances : PrefixCode} {b out out' : ByteArray} {s p p' : Nat}
    (hp : p ≤ 8 * b.size) (h : readCopy distances b s p out = .ok (p', out')) :
    p ≤ p' ∧ p' ≤ 8 * b.size ∧ out'.size ≤ out.size + 258 := by
  obtain ⟨⟨lengthBase, lengthExtra⟩, hentry, h⟩ := exists_of_bind h
  obtain ⟨length, hlength, h⟩ := exists_of_bind h
  obtain ⟨⟨d, p₁⟩, hd, h⟩ := exists_of_bind h
  obtain ⟨⟨distanceBase, distanceExtra⟩, -, h⟩ := exists_of_bind h
  obtain ⟨distance, hdistance, h⟩ := exists_of_bind h
  cases h
  obtain ⟨-, hbound⟩ := bitsAt_bounds hlength hp
  obtain ⟨hlt, hle⟩ := read_bounds hd
  obtain ⟨hend, -⟩ := bitsAt_bounds hdistance hle
  have hsize := lengthTable_bounds (known_eq hentry) hbound
  rw [size_copyBack]
  omega

/-- **A block of symbols.** -/
theorem expands_readSymbols {literals distances : PrefixCode} {b out out' : ByteArray}
    {fuel p p' : Nat} (h : readSymbols literals distances b fuel p out = .ok (p', out')) :
    Expands b p out p' out' := by
  induction fuel generalizing p out with
  | zero => cases h
  | succ fuel ih =>
    rw [readSymbols] at h
    obtain ⟨⟨s, p₁⟩, hs, h⟩ := exists_of_bind h
    obtain ⟨hlt, hle⟩ := read_bounds hs
    simp only at h
    split at h
    · have hpush : Expands b p out p₁ (out.push s.toUInt8) := by
        refine ⟨Nat.le_of_lt hlt, hle, ?_⟩
        rw [ByteArray.size_push]
        omega
      exact hpush.trans (ih h)
    · split at h
      · cases h
        exact ⟨Nat.le_of_lt hlt, hle, by omega⟩
      · obtain ⟨⟨p₂, out₂⟩, hcopy, h⟩ := exists_of_bind h
        obtain ⟨hle', hend, hsize⟩ := expands_readCopy hle hcopy
        have hstep : Expands b p out p₂ out₂ := ⟨by omega, hend, by omega⟩
        exact hstep.trans (ih h)

/-! ## The codes of a block -/

theorem readCodeLengthLengths_le {b : ByteArray} {l : List Nat} {p p' : Nat}
    {lengths lengths' : Array Nat}
    (h : readCodeLengthLengths b l p lengths = .ok (p', lengths')) : p ≤ p' := by
  induction l generalizing p lengths with
  | nil =>
    cases h
    exact Nat.le_refl _
  | cons s l ih =>
    obtain ⟨v, -, h⟩ := exists_of_bind h
    have := ih h
    omega

theorem readLengths_le {c : PrefixCode} {b : ByteArray} {total fuel p p' : Nat}
    {lengths lengths' : Array Nat}
    (h : readLengths c b total fuel p lengths = .ok (p', lengths')) : p ≤ p' := by
  induction fuel generalizing p lengths with
  | zero => cases h
  | succ fuel ih =>
    rw [readLengths] at h
    split at h
    · cases h
      exact Nat.le_refl _
    · split at h
      · cases h
      · split at h
        · cases h
        · rename_i s p₁ hs
          have hlt := (read_bounds hs).1
          split at h
          · exact Nat.le_trans (Nat.le_of_lt hlt) (ih h)
          · split at h
            · cases h
            · simp only at h
              split at h
              · cases h
              · have hle := ih h
                omega

theorem readCodes_le {b : ByteArray} {p p' : Nat} {literals distances : PrefixCode}
    (h : readCodes b p = .ok (p', literals, distances)) : p ≤ p' := by
  obtain ⟨x, -, h⟩ := exists_of_bind h
  obtain ⟨y, -, h⟩ := exists_of_bind h
  obtain ⟨z, -, h⟩ := exists_of_bind h
  simp only at h
  split at h
  · cases h
  · obtain ⟨⟨p₁, lengthLengths⟩, hlengths, h⟩ := exists_of_bind h
    simp only at h
    split at h
    · cases h
    · obtain ⟨⟨p₂, lengths⟩, hread, h⟩ := exists_of_bind h
      simp only at h
      split at h
      · cases h
        have hle₁ := readCodeLengthLengths_le hlengths
        have hle₂ := readLengths_le hread
        omega
      · cases h

/-! ## All blocks -/

/-- **A stored block.** -/
theorem expands_readStored {b out out' : ByteArray} {i j : Nat}
    (h : readStored b i out = .ok (j, out')) : Expands b (8 * i) out (8 * j) out' := by
  obtain ⟨length, -, h⟩ := exists_of_bind h
  obtain ⟨complement, -, h⟩ := exists_of_bind h
  split at h
  · cases h
  · split at h
    · cases h
    · cases h
      refine ⟨by omega, by omega, ?_⟩
      rw [ByteArray.size_append, ByteArray.size_extract]
      omega

/-- **A block of any kind.** -/
theorem expands_readBlock {b out out' : ByteArray} {kind p p' : Nat}
    (h : readBlock b kind p out = .ok (p', out')) : Expands b p out p' out' := by
  unfold readBlock at h
  split at h
  · obtain ⟨⟨i, out₁⟩, hstored, h⟩ := exists_of_bind h
    cases h
    have hexp := expands_readStored hstored
    have hle := hexp.le
    have hsize := hexp.size_le
    exact ⟨by omega, hexp.le_size, by omega⟩
  · exact expands_readSymbols h
  · obtain ⟨⟨p₁, literals, distances⟩, hcodes, h⟩ := exists_of_bind h
    have hexp := expands_readSymbols h
    have hle := readCodes_le hcodes
    have hle' := hexp.le
    have hsize := hexp.size_le
    exact ⟨by omega, hexp.le_size, by omega⟩
  · cases h

/-- **All blocks**, by induction on the fuel: one block after another. -/
theorem expands_readBlocks {b out out' : ByteArray} {fuel p i : Nat}
    (h : readBlocks b fuel p out = .ok (i, out')) : Expands b p out (8 * i) out' := by
  induction fuel generalizing p out with
  | zero => cases h
  | succ fuel ih =>
    rw [readBlocks] at h
    obtain ⟨header, -, h⟩ := exists_of_bind h
    obtain ⟨⟨p₁, out₁⟩, hblock, h⟩ := exists_of_bind h
    have hexp := expands_readBlock hblock
    have hle := hexp.le
    have hend := hexp.le_size
    have hsize := hexp.size_le
    have hstep : Expands b p out p₁ out₁ := ⟨by omega, hend, by omega⟩
    simp only at h
    split at h
    · cases h
      exact ⟨by omega, by omega, by omega⟩
    · exact hstep.trans (ih h)

/-! ## Members -/

theorem size_inflate_le {b out : ByteArray} {i j : Nat} (h : inflate b i = .ok (j, out)) :
    out.size ≤ 2064 * b.size := by
  have hexp := expands_readBlocks h
  have hend := hexp.le_size
  have hsize := hexp.size_le
  rw [ByteArray.size_empty] at hsize
  omega

/-- **A member expands to at most 2064 times its length.** -/
theorem size_decode_le {b out : ByteArray} (h : decode b = .ok out) :
    out.size ≤ 2064 * b.size := by
  obtain ⟨start, -, h⟩ := exists_of_bind h
  split at h
  · cases h
  · rename_i i out₁ hinflate
    obtain ⟨sum, -, h⟩ := exists_of_bind h
    obtain ⟨length, -, h⟩ := exists_of_bind h
    split at h
    · cases h
    · cases h
      exact size_inflate_le hinflate

end SessionMux.Gzip
